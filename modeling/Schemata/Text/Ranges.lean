import Schemata.Text

/-!
# Classes of code points, as tables of ranges

A class is a list of ranges `(first, last)`, ascending and apart, which is how standards publish
them. `Ranges.holds` stops at the first range that begins above the code point.
-/

namespace Schemata

/-- Ranges of numbers, both ends included, ascending. -/
abbrev Ranges := List (Nat × Nat)

namespace Ranges

/-- Whether the number lies in one of the ranges. -/
def holds : Ranges → Nat → Bool
  | [], _ => false
  | (first, last) :: rest, n => if n < first then false else n ≤ last || holds rest n

/-- Each range is no empty one, and there is a gap before the next. -/
def isAscending : Ranges → Bool
  | [] => true
  | [(first, last)] => first ≤ last
  | (first, last) :: range :: rest =>
    first ≤ last && last + 1 < range.1 && isAscending (range :: rest)

end Ranges

end Schemata
