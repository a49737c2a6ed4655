import Schemata.Fields
import Schemata.Numeric.Binary64

/-!
# JSON values

Values as JSON text writes them. Integers are not bounded and are apart from floating-point numbers;
the fields of an object are in order.
-/

namespace Schemata

/-- A JSON value. -/
inductive Json where
  | null
  | bool (value : Bool)
  | int (value : Int)
  | float (value : Binary64)
  | str (text : Text)
  | arr (items : List Json)
  | obj (fields : List (Text × Json))

namespace Json

instance : Inhabited Json := ⟨.null⟩

/-- What a message calls a value of that sort. -/
def sortName : Json → Text
  | .null => "NoneType"
  | .bool _ => "bool"
  | .int _ => "int"
  | .float _ => "float"
  | .str _ => "string"
  | .arr _ => "list"
  | .obj _ => "object"

/-- Whether a value that stands for a switch turns it on: all values do but null, false, the zeros
and what is empty. -/
def isOn : Json → Bool
  | .null => false
  | .bool value => value
  | .int value => value ≠ 0
  | .float value => !value.isZero
  | .str text => !text.isEmpty
  | .arr items => !items.isEmpty
  | .obj fields => !fields.isEmpty

/-- Whether the value is that text. -/
def isText (name : Text) : Json → Bool
  | .str text => text = name
  | _ => false

/-- Whether a collection mentions a name: a list as one of its elements, an object as one of its
keys, a text as a part of it. Other values are no collections. -/
def mentions? (name : Text) : Json → Option Bool
  | .arr items => some (items.any (isText name))
  | .obj fields => some (Fields.get? fields name).isSome
  | .str text => some (name.occursIn text)
  | _ => none

theorem isText_iff {name : Text} {value : Json} : value.isText name = true ↔ value = .str name := by
  cases value <;> simp [isText]

/-- A list mentions the names that are its elements. -/
theorem mentions?_arr_iff {items : List Json} {name : Text} :
    (Json.arr items).mentions? name = some true ↔ .str name ∈ items := by
  simp [mentions?, isText_iff]

/-- The field of that name, if the value is an object that has one. -/
def field? (name : Text) : Json → Option Json
  | .obj fields => Fields.get? fields name
  | _ => none

end Json

end Schemata
