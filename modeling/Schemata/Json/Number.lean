import Schemata.Json.Basic
import Schemata.Numeric.Decimal

/-!
# Numbers of JSON text

A number is an optional minus sign, digits without leading zeros, an optional fraction and an
optional power of ten. With neither of the last two it is an integer, else a floating-point
number. The words for the values without digits are read as numbers too.

A reader may take no more than so many digits in an integer. It counts them where the number
stands, before it asks whether what follows may follow a number.
-/

namespace Schemata

namespace Text

/-- The decimal digits at the start of a text, and what follows them. -/
def spanDigits (text : Text) : Text × Text := text.span fun c => c.digit?.isSome

end Text

namespace Json

/-- Why a text is not read. -/
inductive ReadError where
  /-- It is no JSON text. -/
  | malformed
  /-- An integer has more digits than the reader takes. -/
  | longInteger
  deriving DecidableEq

/-- What a number text consists of. -/
structure NumberParts where
  negative : Bool
  whole : Text
  fraction : Option Text
  power : Option Int

namespace NumberParts

/-- The whole part at the start of a text, and what follows it. Nothing follows a zero in it. -/
def wholeOf? (text : Text) : Option (Text × Text) :=
  match Text.spanDigits text with
  | ([], _) => none
  | (c :: digits, after) =>
    if c = '0' then some ([c], digits ++ after) else some (c :: digits, after)

/-- An optional fraction at the start of a text, and what follows it. A point that no digit follows
is none. -/
def fractionOf (text : Text) : Option Text × Text :=
  match text with
  | c :: rest =>
    if c = '.' then
      match Text.spanDigits rest with
      | ([], _) => (none, text)
      | (digits, after) => (some digits, after)
    else (none, text)
  | [] => (none, [])

/-- An optional sign at the start of a text, and what follows it: whether it is a minus sign. -/
def signOf (text : Text) : Bool × Text :=
  match text with
  | c :: rest => if c = '-' then (true, rest) else if c = '+' then (false, rest) else (false, text)
  | [] => (false, [])

/-- The integer of that sign whose absolute value the digits write. -/
def signed (negative : Bool) (digits : Text) : Int :=
  let magnitude := (Text.digitsValue digits).getD 0
  if negative then -(magnitude : Int) else magnitude

/-- An optional power of ten at the start of a text, and what follows it. A letter that no digits
follow, signed or not, is none. -/
def powerOf (text : Text) : Option Int × Text :=
  match text with
  | c :: rest =>
    if c = 'e' ∨ c = 'E' then
      let (negative, unsigned) := signOf rest
      match Text.spanDigits unsigned with
      | ([], _) => (none, text)
      | (digits, after) => (some (signed negative digits), after)
    else (none, text)
  | [] => (none, [])

/-- The longest number without a sign at the start of a text, and what follows it. -/
def ofUnsigned? (negative : Bool) (text : Text) : Option (NumberParts × Text) :=
  (wholeOf? text).map fun (whole, afterWhole) =>
    let (fraction, afterFraction) := fractionOf afterWhole
    let (power, rest) := powerOf afterFraction
    (⟨negative, whole, fraction, power⟩, rest)

/-- The longest number at the start of a text, and what follows it. -/
def ofText? : Text → Option (NumberParts × Text)
  | [] => none
  | c :: rest => if c = '-' then ofUnsigned? true rest else ofUnsigned? false (c :: rest)

/-- Whether the number is an integer: it has neither fraction nor power of ten. -/
def isInteger (parts : NumberParts) : Bool := parts.fraction.isNone && parts.power.isNone

/-- The value of a number text. -/
def value (parts : NumberParts) : Json :=
  if parts.isInteger then .int (signed parts.negative parts.whole)
  else
    let fraction := parts.fraction.getD []
    .float (Decimal.toBinary64 parts.negative
      ⟨(Text.digitsValue (parts.whole ++ fraction)).getD 0, parts.power.getD 0 - fraction.length⟩)

/-- Whether the number is an integer of more digits than that. -/
def isLong (limit : Option Nat) (parts : NumberParts) : Bool :=
  parts.isInteger && limit.any fun most => most < parts.whole.length

end NumberParts

/-- The value of a text that is a number and nothing else, with at most so many digits in an
integer. -/
def ofNumber (limit : Option Nat) (text : Text) : Except ReadError Json :=
  match NumberParts.ofText? text with
  | none => .error .malformed
  | some (parts, rest) =>
    if parts.isLong limit then .error .longInteger
    else if rest.isEmpty then .ok parts.value
    else .error .malformed

/-- The value of a run of characters that stands for itself: a literal word or a number. -/
def ofWord (limit : Option Nat) (word : Text) : Except ReadError Json :=
  if word = "null" then .ok .null
  else if word = "true" then .ok (.bool true)
  else if word = "false" then .ok (.bool false)
  else if word = "NaN" then .ok (.float .nan)
  else if word = "Infinity" then .ok (.float (.infinite false))
  else if word = "-Infinity" then .ok (.float (.infinite true))
  else ofNumber limit word

end Json

end Schemata
