import Schemata.Json.Reader

/-!
# The grammar of JSON text

Which texts are JSON, by the rules of the format and apart from how a reader goes about it. Numbers and
the characters of strings are described by runs of code points; `Json.Derives` has the rules for values,
lists and objects, one for each way to form them. White space may stand on both sides of every value, name
and mark.

The words are a parameter: a text is JSON if it has no others than `null`, `true` and `false`
(`Json.plainWords`). Digits may write a number that is larger than any a reader can hold.
-/

namespace Schemata

namespace Json

/-- Nothing but white space. -/
def IsSpaces (text : Text) : Prop := ∀ c ∈ text, Reader.isSpace c = true

/-! ## Numbers -/

/-- Nothing but decimal digits. -/
def AreDigits (text : Text) : Prop := ∀ c ∈ text, c.digit?.isSome = true

/-- Digits of which the first is no zero. -/
inductive IsPositive : Text → Prop
  | digits {first : CodePoint} {rest : Text} : first.digit?.isSome = true →
      first ≠ CodePoint.ofChar '0' → AreDigits rest → IsPositive (first :: rest)

/-- The whole part of a number: no zeros lead it, but it may be zero. -/
inductive IsWhole : Text → Prop
  | zero : IsWhole "0"
  | positive {text : Text} : IsPositive text → IsWhole text

/-- The fraction of a number, if it has one: a point and at least one digit. -/
inductive IsFraction : Text → Prop
  | none : IsFraction []
  | some {digits : Text} : digits ≠ [] → AreDigits digits → IsFraction ("." ++ digits)

/-- The power of ten of a number, if it has one: a letter, perhaps a sign, and at least one digit. -/
inductive IsPower : Text → Prop
  | none : IsPower []
  | some {letter sign digits : Text} : letter ∈ (["e", "E"] : List Text) →
      sign ∈ (["", "-", "+"] : List Text) → digits ≠ [] → AreDigits digits →
      IsPower (letter ++ (sign ++ digits))

/-- A number: perhaps a minus sign, a whole part, a fraction and a power of ten. -/
inductive IsNumber : Text → Prop
  | parts {sign whole fraction power : Text} : sign ∈ (["", "-"] : List Text) → IsWhole whole →
      IsFraction fraction → IsPower power → IsNumber (sign ++ (whole ++ (fraction ++ power)))

/-! ## Strings -/

/-- What hexadecimal digits are worth after digits that are worth `value`. -/
def hexValueFrom (value : Nat) : Text → Option Nat
  | [] => some value
  | c :: rest => c.hexDigit?.bind fun d => hexValueFrom (16 * value + d) rest

/-- The escapes of one letter, each with what it stands for. -/
def letterEscapes : List (CodePoint × CodePoint) :=
  [(CodePoint.ofChar '"', CodePoint.ofChar '"'), (CodePoint.ofChar '\\', CodePoint.ofChar '\\'),
    (CodePoint.ofChar '/', CodePoint.ofChar '/'), (CodePoint.ofChar 'b', CodePoint.ofChar '\x08'),
    (CodePoint.ofChar 'f', CodePoint.ofChar '\x0C'), (CodePoint.ofChar 'n', CodePoint.ofChar '\n'),
    (CodePoint.ofChar 'r', CodePoint.ofChar '\r'), (CodePoint.ofChar 't', CodePoint.ofChar '\t')]

/-- What stands between the quotes of a string, and what it spells. A quote, a backslash and control
characters need an escape: a backslash and a letter, or four hexadecimal digits of a UTF-16 unit. -/
inductive Spells : Text → Text → Prop
  | nil : Spells [] []
  | plain {c : CodePoint} {rest text : Text} : 0x20 ≤ c.val → c ≠ CodePoint.ofChar '"' →
      c ≠ CodePoint.ofChar '\\' → Spells rest text → Spells (c :: rest) (c :: text)
  | letter {escape : CodePoint × CodePoint} {rest text : Text} : escape ∈ letterEscapes →
      Spells rest text → Spells ("\\" ++ escape.1 :: rest) (escape.2 :: text)
  | unit {digits rest text : Text} {unit : Nat} : digits.length = 4 →
      hexValueFrom 0 digits = some unit → Spells rest text →
      Spells ("\\u" ++ (digits ++ rest)) (CodePoint.ofNat unit :: text)

/-- Characters between quotes. -/
def quoted (characters : Text) : Text := "\"" ++ (characters ++ "\"")

theorem quoted_append (characters rest : Text) :
    quoted characters ++ rest =
      CodePoint.ofChar '"' :: (characters ++ CodePoint.ofChar '"' :: rest) := by
  simp [quoted, Text.ofString]

/-! ## Values -/

/-- What a part of a text may be. -/
inductive Symbol where
  | value
  /-- A value and the white space around it. -/
  | element
  /-- At least one element, with commas between neighbours. -/
  | elements
  /-- A name, a colon and an element. -/
  | member (name : Text)
  /-- At least one member, with commas between neighbours. -/
  | members (names : List Text)

/-- The words of JSON text. -/
def plainWords : List Text := ["null", "true", "false"]

/-- The texts that a symbol stands for, with those words. -/
inductive Derives (words : List Text) : Symbol → Text → Prop
  | word {text : Text} : text ∈ words → Derives words .value text
  | number {text : Text} : IsNumber text → Derives words .value text
  | string {characters text : Text} : Spells characters text →
      Derives words .value (quoted characters)
  | emptyArray {spaces : Text} : IsSpaces spaces → Derives words .value ("[" ++ (spaces ++ "]"))
  | array {text : Text} : Derives words .elements text →
      Derives words .value ("[" ++ (text ++ "]"))
  | emptyObject {spaces : Text} : IsSpaces spaces →
      Derives words .value ("\x7b" ++ (spaces ++ "\x7d"))
  | object {names : List Text} {text : Text} : Derives words (.members names) text →
      Derives words .value ("\x7b" ++ (text ++ "\x7d"))
  | element {before text after : Text} : IsSpaces before → Derives words .value text →
      IsSpaces after → Derives words .element (before ++ (text ++ after))
  | lastElement {text : Text} : Derives words .element text → Derives words .elements text
  | elements {text rest : Text} : Derives words .element text → Derives words .elements rest →
      Derives words .elements (text ++ ("," ++ rest))
  | member {before characters name after text : Text} : IsSpaces before → Spells characters name →
      IsSpaces after → Derives words .element text →
      Derives words (.member (Text.pairSurrogates name))
        (before ++ (quoted characters ++ (after ++ (":" ++ text))))
  | lastMember {name text : Text} : Derives words (.member name) text →
      Derives words (.members [name]) text
  | members {name text rest : Text} {names : List Text} : Derives words (.member name) text →
      Derives words (.members names) rest →
      Derives words (.members (name :: names)) (text ++ ("," ++ rest))

end Json

/-- The text is JSON: a value, perhaps with white space around it. -/
def IsJson (text : Text) : Prop := Json.Derives Json.plainWords .element text

end Schemata
