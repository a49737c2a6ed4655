import Schemata.Numeric.Decimal

/-!
# How a floating-point number is written

With the fewest digits that read back as the number. Positionally, with at least one digit on each
side of the point, if the first digit stands for a power of ten from -4 to 15; otherwise with one
digit before the point and an exponent that has a sign and at least two digits. JSON text and
messages differ only in the three values that have no digits.
-/

namespace Schemata

/-- The words for the values without digits. -/
structure SpecialNames where
  nan : Text
  infinite : Text

/-- The words that JSON text uses. -/
def SpecialNames.json : SpecialNames := ⟨"NaN", "Infinity"⟩

/-- The words that messages use. -/
def SpecialNames.message : SpecialNames := ⟨"nan", "inf"⟩

namespace Decimal

/-- So many zeros. -/
def zeros (n : Nat) : Text := List.replicate n (CodePoint.ofChar '0')

/-- The digits with a point before the digit number `point`, counted from zero; zeros fill the gap
to a point outside the digits. -/
def positional (digits : Text) (point : Int) : Text :=
  if point ≤ 0 then "0." ++ zeros (-point).toNat ++ digits
  else if digits.length ≤ point.toNat then digits ++ zeros (point.toNat - digits.length) ++ ".0"
  else digits.take point.toNat ++ "." ++ digits.drop point.toNat

/-- The power of ten of the first digit: its sign, then at least two digits. -/
def exponentPart (power : Int) : Text :=
  let digits := Text.decimal power.natAbs
  (if power < 0 then "-" else "+") ++ zeros (2 - digits.length) ++ digits

/-- One digit before the point, the others after it, and the power of ten. -/
def scientific (digits : Text) (power : Int) : Text :=
  (match digits with
    | [] => []
    | [digit] => [digit]
    | digit :: others => digit :: '.' :: others) ++ "e" ++ exponentPart power

/-- A decimal without zeros at its end, laid out. -/
def layout (d : Decimal) : Text :=
  let digits := Text.decimal d.digits
  let point := digits.length + d.exponent
  if -4 < point ∧ point ≤ 16 then positional digits point else scientific digits (point - 1)

end Decimal

namespace Binary64

/-- A number as text. -/
def write (names : SpecialNames) : Binary64 → Text
  | .nan => names.nan
  | .infinite negative => (if negative then "-" else "") ++ names.infinite
  | .finite negative mantissa exponent _ =>
    let magnitude : Text :=
      if mantissa = 0 then "0.0" else (shortest mantissa exponent).layout
    (if negative then "-" else "") ++ magnitude

end Binary64

end Schemata
