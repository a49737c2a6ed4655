import Schemata.Json.Basic

/-!
# Schemas

A `Schema` is a node of a tree of OpenAPI schemas. Which of its fields are set says what values it
describes. A schema with nothing set describes every value; one that is only nullable describes
null.
-/

namespace Schemata

/-- What an object schema says about the keys that it does not list. -/
inductive Additional (α : Type) where
  /-- They are allowed, or not. -/
  | allowed (value : Bool)
  /-- Their values are described by a schema. -/
  | schema (value : α)

/-- A node of a schema tree. -/
structure Schema where
  /-- Where the type was met; of no meaning for the values. -/
  context : Text := []
  /-- A pointer to a named schema. -/
  ref : Option Text := none
  /-- The primitive type: string, integer, number, boolean, object or array. -/
  type : Option Text := none
  /-- A refinement of the type: int64, double. -/
  format : Option Text := none
  /-- Whether null is described besides. -/
  nullable : Bool := false
  hasDefault : Bool := false
  /-- The default, if there is one. -/
  defaultValue : Json := .null
  /-- The schema of the elements of an array. -/
  items : Option Schema := none
  /-- The schemas of the fields of an object, in order. -/
  properties : Option (List (Text × Schema)) := none
  oneOf : Option (List Schema) := none
  anyOf : Option (List Schema) := none
  allOf : Option (List Schema) := none
  additional : Option (Additional Schema) := none
  /-- The names of the fields that must be there. -/
  required : Option (List Text) := none
  /-- Free text from a doc comment. -/
  description : Option Text := none
  minLength : Option Int := none
  maxLength : Option Int := none
  minimum : Option Int := none
  maximum : Option Int := none
  minItems : Option Int := none
  maxItems : Option Int := none
  /-- The values that are allowed. -/
  enum : Option (List Json) := none

namespace Schema

instance : Inhabited Schema := ⟨{}⟩

/-- The schema with a default. -/
def withDefault (schema : Schema) (value : Json) : Schema :=
  { schema with hasDefault := true, defaultValue := value }

/-- The schema of the integers of 64 bits. -/
def int64 : Schema := { type := some "integer", format := some "int64" }

end Schema

end Schemata
