import Schemata.Text

/-!
# Decimal and hexadecimal digits

Naturals and integers as digits without leading zeros, digits read back as naturals, and hexadecimal
digits of a fixed width for escapes.
-/

namespace Schemata

namespace CodePoint

/-- The digit of that value, from `0` to `f`. -/
def ofDigit (d : Nat) : CodePoint := ofChar (Nat.digitChar d)

/-- The value of a decimal digit. -/
def digit? (c : CodePoint) : Option Nat :=
  if 48 ≤ c.val && c.val ≤ 57 then some (c.val - 48) else none

/-- The value of a hexadecimal digit of either case. -/
def hexDigit? (c : CodePoint) : Option Nat :=
  if 48 ≤ c.val && c.val ≤ 57 then some (c.val - 48)
  else if 97 ≤ c.val && c.val ≤ 102 then some (c.val - 87)
  else if 65 ≤ c.val && c.val ≤ 70 then some (c.val - 55)
  else none

theorem digit?_ofDigit {d : Nat} (h : d < 10) : (ofDigit d).digit? = some d := by
  have hd : (ofDigit d).val = 48 + d := Nat.toNat_digitChar_of_lt_ten h
  simp only [digit?, hd]
  simp
  omega

end CodePoint

namespace Text

/-- The decimal digits of a natural. -/
def decimal (n : Nat) : Text := (Nat.toDigits 10 n).map CodePoint.ofChar

/-- The decimal digits of an integer, after a minus sign if it is negative. -/
def ofInt : Int → Text
  | .ofNat n => decimal n
  | .negSucc n => '-' :: decimal (n + 1)

/-- Whether an integer has at most so many digits, if a limit is given. -/
def isWithin (limit : Option Nat) (value : Int) : Bool :=
  limit.all fun most => (decimal value.natAbs).length ≤ most

/-- The `width` last hexadecimal digits of a natural, in lower case. -/
def hexadecimal : Nat → Nat → Text
  | 0, _ => []
  | width + 1, n => hexadecimal width (n / 16) ++ [CodePoint.ofDigit (n % 16)]

/-- What digits are worth after digits that are worth `value`. -/
def digitsValueFrom (value : Nat) : Text → Option Nat
  | [] => some value
  | c :: rest => c.digit?.bind fun d => digitsValueFrom (10 * value + d) rest

/-- What a text of decimal digits is worth; leading zeros are no harm, other signs are, and so is
the lack of digits. -/
def digitsValue : Text → Option Nat
  | [] => none
  | text => digitsValueFrom 0 text

/-- The last digit comes off the end. -/
theorem decimal_eq (n : Nat) :
    decimal n =
      if n < 10 then [CodePoint.ofDigit n]
      else decimal (n / 10) ++ [CodePoint.ofDigit (n % 10)] := by
  rw [decimal, Nat.toDigits_eq_if (by decide)]
  split
  · rfl
  · simp [decimal, CodePoint.ofDigit]

theorem decimal_ne_nil (n : Nat) : decimal n ≠ [] := by
  rw [decimal_eq]
  split <;> simp

end Text

end Schemata
