/-!
# Binary floating point with 64 bits

A `Binary64` is a number of the format: a sign, a mantissa below 2^53 and an exponent, or an
infinity, or the one value that is no number. Values are counted in *units*, a unit being the
smallest positive number of the format, 2^-1074. Every finite number is a whole number of them,
and so is every integer, so nothing here needs fractions.

* `Binary64.nearest` — the number closest to a quotient of units, ties to the even mantissa.
-/

namespace Schemata

namespace Binary64

/-- A pair that is the only one for its value: the mantissa is full, unless the exponent is the
least one. The exponent counts from that least one. -/
def Canonical (mantissa exponent : Nat) : Prop :=
  mantissa < Nat.pow 2 53 ∧ exponent ≤ 2045 ∧ (Nat.pow 2 52 ≤ mantissa ∨ exponent = 0)

instance (mantissa exponent : Nat) : Decidable (Canonical mantissa exponent) :=
  inferInstanceAs (Decidable (_ ∧ _ ∧ (_ ∨ _)))

/-- The exponent of one: one is two to the power of so many units. -/
def exponentOfOne : Nat := 1074

/-- How many units one is. -/
def unitsOfOne : Nat := Nat.pow 2 exponentOfOne

end Binary64

/-- A floating-point number with 64 bits. -/
inductive Binary64 where
  /-- The value that is no number. -/
  | nan
  /-- Beyond the largest number of that sign. -/
  | infinite (negative : Bool)
  /-- The mantissa times two to the power of the exponent, counted in units. -/
  | finite (negative : Bool) (mantissa exponent : Nat)
      (canonical : Binary64.Canonical mantissa exponent)
  deriving DecidableEq

namespace Binary64

/-- The zero of that sign. -/
def zero (negative : Bool) : Binary64 := .finite negative 0 0 (by decide)

/-- The quotient of two naturals, rounded to the nearest one; a half goes to the even neighbour. -/
def roundQuotient (num den : Nat) : Nat :=
  let quotient := num / den
  let twice := 2 * (num % den)
  if twice < den then quotient
  else if den < twice then quotient + 1
  else quotient + quotient % 2

/-- The number of that mantissa and exponent; a mantissa of 54 bits, which rounding up may leave,
is a power of two and moves into the exponent. Beyond the largest number stands the infinity. -/
def assemble (negative : Bool) (mantissa exponent : Nat) : Binary64 :=
  if h : Canonical mantissa exponent then .finite negative mantissa exponent h
  else if h : mantissa = Nat.pow 2 53 ∧ Canonical (Nat.pow 2 52) (exponent + 1) then
    .finite negative (Nat.pow 2 52) (exponent + 1) h.2
  else .infinite negative

/-- The number closest to `num / den` units, of two equally close ones the one with the even
mantissa. -/
def nearest (negative : Bool) (num den : Nat) : Binary64 :=
  let exponent := Nat.log2 (num / den) - 52
  assemble negative (roundQuotient num (den * Nat.pow 2 exponent)) exponent

/-- Whether the value is a zero of either sign. -/
def isZero : Binary64 → Bool
  | .finite _ mantissa _ _ => mantissa = 0
  | _ => false

end Binary64

end Schemata
