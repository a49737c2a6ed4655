import Schemata.Json.Basic
import Schemata.Numeric.Layout
import Schemata.Text.Quoted

/-!
# JSON values in messages

How a message shows a value that it is about: texts quoted, the literal words with a capital letter,
everything on one line. Integers of any size have digits, but a machine may turn no more than so many
into a text: `Json.prints` says whether it can show a value.
-/

namespace Schemata

namespace Json

mutual

/-- The value as a message shows it. -/
def display : Json → Text
  | .null => "None"
  | .bool value => if value then "True" else "False"
  | .int value => Text.ofInt value
  | .float value => value.write .message
  | .str text => text.quoted
  | .arr items => "[" ++ Text.joined ", " (displayItems items) ++ "]"
  | .obj fields => "\x7b" ++ Text.joined ", " (displayFields fields) ++ "\x7d"

/-- Each item as a message shows it. -/
def displayItems : List Json → List Text
  | [] => []
  | item :: rest => item.display :: displayItems rest

/-- Each field as a message shows it. -/
def displayFields : List (Text × Json) → List Text
  | [] => []
  | (name, value) :: rest =>
    (Text.quoted name ++ ": " ++ value.display) :: displayFields rest

end

/-- The value as a name: a text is one as it is, any other value as a message shows it. -/
def asName : Json → Text
  | .str text => text
  | value => value.display

mutual

/-- The integers in a value. -/
def integers : Json → List Int
  | .int value => [value]
  | .arr items => integersAmong items
  | .obj fields => integersOfFields fields
  | _ => []

/-- The integers in values. -/
def integersAmong : List Json → List Int
  | [] => []
  | item :: rest => item.integers ++ integersAmong rest

/-- The integers in the values of fields. -/
def integersOfFields : List (Text × Json) → List Int
  | [] => []
  | (_, value) :: rest => value.integers ++ integersOfFields rest

end

/-- Whether the value can be shown, with at most so many digits in an integer if a limit is given. -/
def prints (limit : Option Nat) (value : Json) : Bool := value.integers.all (Text.isWithin limit)

/-- Without a limit every value can be shown. -/
theorem prints_none (value : Json) : value.prints none = true := List.all_eq_true.mpr fun _ _ => rfl

end Json

end Schemata
