import Schemata.Json.Basic

/-!
# When two JSON values are the same

Numbers are compared by what they are worth, exactly, whether they are written as integers or not,
and the truth values count as one and zero. Lists are compared in order, objects regardless of it:
the fields of one name, of which there is one as a rule, are compared in order.
-/

namespace Schemata

/-- What a number is worth: an integer, or what only a floating-point number is. -/
inductive Magnitude where
  | whole (value : Int)
  | other (value : Binary64)
  deriving DecidableEq

/-- The magnitude of a floating-point number. It is an integer if the powers of two that its
exponent lacks of one are in its mantissa. -/
def Magnitude.ofBinary64 : Binary64 → Magnitude
  | .finite negative mantissa exponent canonical =>
    let lacking := Nat.pow 2 (Binary64.exponentOfOne - exponent)
    if mantissa % lacking = 0 then
      let size := mantissa / lacking * Nat.pow 2 (exponent - Binary64.exponentOfOne)
      .whole (if negative then -(size : Int) else size)
    else .other (.finite negative mantissa exponent canonical)
  | value => .other value

namespace Json

/-- What a value is worth as a number, if it is a number or a truth value. -/
def magnitude? : Json → Option Magnitude
  | .bool value => some (.whole (if value then 1 else 0))
  | .int value => some (.whole value)
  | .float value => some (.ofBinary64 value)
  | _ => none

mutual

/-- Whether two values are the same. What is no number (NaN) is the same as itself here, so that every
value is; by the usual comparison of numbers it would differ from itself. -/
def same : Json → Json → Bool
  | .null, .null => true
  | .str left, .str right => left = right
  | .arr left, .arr right => sameItems left right
  | .obj left, .obj right => sameFields left right
  | left, right =>
    match left.magnitude?, right.magnitude? with
    | some x, some y => x = y
    | _, _ => false

/-- Whether two lists are the same, one by one. -/
def sameItems : List Json → List Json → Bool
  | [], [] => true
  | left :: lefts, right :: rights => same left right && sameItems lefts rights
  | _, _ => false

/-- Whether two lists of fields are the same up to the order of different names. -/
def sameFields : List (Text × Json) → List (Text × Json) → Bool
  | [], rights => rights.isEmpty
  | (name, left) :: lefts, rights =>
    match Fields.extract? rights name with
    | some (right, others) => same left right && sameFields lefts others
    | none => false

end

theorem same_null_iff {right : Json} : same .null right = true ↔ right = .null := by
  cases right <;> simp [same, magnitude?]

end Json

end Schemata
