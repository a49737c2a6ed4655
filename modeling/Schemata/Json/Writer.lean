import Schemata.Json.Basic
import Schemata.Numeric.Layout

/-!
# JSON text

Two forms of the same text: on one line, with a space after each comma and colon, and indented by
four spaces for each level. Both consist of printable ASCII characters and, if indented, line
feeds: every other code point of a text is escaped by its UTF-16 units.
-/

namespace Schemata

namespace CodePoint

/-- The escape of one UTF-16 unit. -/
def unitEscape (unit : Nat) : Text := "\\u" ++ Text.hexadecimal 4 unit

/-- How a code point stands in a JSON string: by a letter escape if it has one, as it is if it is
printable ASCII, otherwise by its UTF-16 units. -/
def jsonEscaped (c : CodePoint) : Text :=
  if c = '"' then "\\\""
  else if c = '\\' then "\\\\"
  else if c = '\n' then "\\n"
  else if c = '\r' then "\\r"
  else if c = '\t' then "\\t"
  else if c.val = 0x08 then "\\b"
  else if c.val = 0x0C then "\\f"
  else if 0x20 ≤ c.val ∧ c.val ≤ 0x7E then [c]
  else if c.val < 0x10000 then unitEscape c.val
  else
    unitEscape (0xD800 + (c.val - 0x10000) / 0x400) ++
      unitEscape (0xDC00 + (c.val - 0x10000) % 0x400)

end CodePoint

namespace Json

/-- The space around the parts of a list or an object, by the level of its parts: after the opening
bracket, between neighbours, and before the closing bracket. -/
structure Style where
  opening : Nat → Text
  between : Nat → Text
  closing : Nat → Text

/-- Everything on one line. -/
def Style.line : Style := ⟨fun _ => "", fun _ => ", ", fun _ => ""⟩

/-- The start of a line at that level. -/
def newline (level : Nat) : Text := '\n' :: List.replicate (4 * level) (CodePoint.ofChar ' ')

/-- Every part on a line of its own, four spaces further in than its brackets. -/
def Style.block : Style :=
  ⟨newline, fun level => "," ++ newline level, fun level => newline (level - 1)⟩

/-- A text as a JSON string. -/
def writeString (text : Text) : Text := "\"" ++ text.flatMap CodePoint.jsonEscaped ++ "\""

mutual

/-- The text of a value whose brackets stand at that level. -/
def writeAt (style : Style) (level : Nat) : Json → Text
  | .null => "null"
  | .bool value => if value then "true" else "false"
  | .int value => Text.ofInt value
  | .float value => value.write .json
  | .str text => writeString text
  | .arr [] => "[]"
  | .arr (item :: rest) =>
    "[" ++ style.opening (level + 1) ++ writeAt style (level + 1) item ++
      writeItems style (level + 1) rest ++ style.closing (level + 1) ++ "]"
  | .obj [] => "\x7b\x7d"
  | .obj ((name, value) :: rest) =>
    "\x7b" ++ style.opening (level + 1) ++ writeString name ++ ": " ++
      writeAt style (level + 1) value ++ writeFields style (level + 1) rest ++
      style.closing (level + 1) ++ "\x7d"

/-- The items after the first. -/
def writeItems (style : Style) (level : Nat) : List Json → Text
  | [] => []
  | item :: rest => style.between level ++ writeAt style level item ++ writeItems style level rest

/-- The fields after the first. -/
def writeFields (style : Style) (level : Nat) : List (Text × Json) → Text
  | [] => []
  | (name, value) :: rest =>
    style.between level ++ writeString name ++ ": " ++ writeAt style level value ++
      writeFields style level rest

end

/-- The value on one line. -/
def compact (value : Json) : Text := writeAt .line 0 value

/-- The value over several lines; empty lists and objects stay on one. -/
def indented (value : Json) : Text := writeAt .block 0 value

end Json

end Schemata
