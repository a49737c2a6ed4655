import Schemata.Numeric.Binary64
import Schemata.Numeric.Digits

/-!
# Decimals and the floating-point numbers they stand for

A `Decimal` is a natural times a power of ten. `Decimal.toBinary64` rounds it to the nearest
floating-point number; `Binary64.shortest` goes back, to the decimal with the fewest digits that
rounds to the number, of those the closest to it, of two equally close ones the even one. All of
it is arithmetic on naturals.
-/

namespace Schemata

/-- `digits` times ten to the power of `exponent`. -/
structure Decimal where
  digits : Nat
  exponent : Int
  deriving DecidableEq

namespace Decimal

/-- The closest floating-point number of that sign. Powers of ten that only reach zero or the
infinity are not computed. -/
def toBinary64 (negative : Bool) (d : Decimal) : Binary64 :=
  let magnitude := (Text.decimal d.digits).length + d.exponent
  if d.digits = 0 ∨ magnitude < -330 then Binary64.zero negative
  else if 330 < magnitude then .infinite negative
  else
    Binary64.nearest negative
      (d.digits * Nat.pow 10 d.exponent.toNat * Binary64.unitsOfOne)
      (Nat.pow 10 (-d.exponent).toNat)

/-- The same value without zeros at the end of its digits. -/
def stripZeros (d : Decimal) : Decimal :=
  if d.digits = 0 ∨ d.digits % 10 ≠ 0 then d
  else stripZeros ⟨d.digits / 10, d.exponent + 1⟩
termination_by d.digits
decreasing_by omega

end Decimal

namespace Binary64

/-- Every decimal of at most seventeen digits that is close to a floating-point number is a multiple
of ten to the power of minus this. The search below scales all values by so many places, and counts
them in units, so that they are naturals. -/
def decimalPlaces : Nat := 400

/-- Whether the scaled value `n` rounds to the positive number of that mantissa and exponent: it
lies between the points halfway to the two neighbours. The lower neighbour of a power of two is
half as far as the upper one. A number with an even mantissa takes both ends. -/
def readsBack (mantissa exponent n : Nat) : Bool :=
  let scale := Nat.pow 2 exponent * Nat.pow 10 decimalPlaces
  let below := if mantissa = Nat.pow 2 52 ∧ 0 < exponent then 1 else 2
  let low := (4 * mantissa - below) * scale
  let high := (4 * mantissa + 2) * scale
  if mantissa % 2 = 0 then low ≤ 4 * n && 4 * n ≤ high else low < 4 * n && 4 * n < high

/-- Of the two multiples of `grid` next to `value`, as factors, the closer one that passes `good`;
of two equally close ones the even factor. -/
def pickNeighbour (good : Nat → Bool) (value grid : Nat) : Option Nat :=
  let below := value / grid
  let above := below + 1
  match good (below * grid), good (above * grid) with
  | true, true =>
    let twice := 2 * (value % grid)
    if twice < grid then some below
    else if grid < twice then some above
    else some (if below % 2 = 0 then below else above)
  | true, false => some below
  | false, true => some above
  | false, false => none

/-- The decimal with the fewest digits, at most seventeen, that rounds to the positive number of
that mantissa and exponent. Seventeen digits are always enough; the exact value closes the search.
-/
def shortest (mantissa exponent : Nat) : Decimal :=
  let value := mantissa * Nat.pow 2 exponent * Nat.pow 10 decimalPlaces
  let places := (Text.decimal (value / unitsOfOne)).length
  let attempt (count : Nat) : Option Decimal :=
    let dropped := places - count
    (pickNeighbour (readsBack mantissa exponent) value (Nat.pow 10 dropped * unitsOfOne)).map
      fun digits => ⟨digits, (dropped : Int) - decimalPlaces⟩
  match (List.range' 1 17).findSome? attempt with
  | some d => d.stripZeros
  | none =>
    Decimal.stripZeros ⟨mantissa * Nat.pow 2 exponent * Nat.pow 5 1074, -1074⟩

end Binary64

end Schemata
