import Schemata.Schema.Basic
import Schemata.Text.Blank

/-!
# Schemas as OpenAPI Schema Objects

A schema is written as an object with one keyword for each field that is set, always in the same
order. A keyword never has the value null.

A request parameter is written in another way at its root: without a description, since the
parameter has its own, and as 0 or 1 if it is boolean. `Schema.asParameter` is the schema that
says so; what is inside of it is written as ever.
-/

namespace Schemata

namespace Schema

/-- One keyword, if there is a value for it. -/
def keyword (name : Text) (value : Option Json) : Fields Json :=
  match value with
  | some value => [(name, value)]
  | none => []

/-- The value of the keyword `default`. There is none for the default null, which `nullable` says;
an object's default that is switched off is the empty object. -/
def defaultKeyword (type : Option Text) (hasDefault : Bool) : Json → Option Json
  | .null => none
  | value =>
    if !hasDefault then none
    else if type = some "object" ∧ !value.isOn then some (.obj [])
    else some value

/-- The value of the keyword `description`: the text without needless blanks, if there is text. -/
def descriptionKeyword : Option Text → Option Json
  | some (c :: rest) => some (.str (Text.normalizeSpace (c :: rest)))
  | _ => none

mutual

/-- The keywords of a schema, in order. -/
def keywords : Schema → Fields Json
  | { ref, type, format, nullable, hasDefault, defaultValue, items, properties, oneOf, anyOf, allOf,
      additional, required, description, minLength, maxLength, minimum, maximum, minItems, maxItems,
      enum, .. } =>
    keyword "$ref" (ref.map Json.str) ++
      keyword "type" (type.map Json.str) ++
      keyword "format" (format.map Json.str) ++
      keyword "nullable" (if nullable then some (.bool true) else none) ++
      keyword "default" (defaultKeyword type hasDefault defaultValue) ++
      keyword "enum" (enum.map Json.arr) ++
      keyword "description" (descriptionKeyword description) ++
      keyword "items" (itemObject items) ++
      keyword "minLength" (minLength.map Json.int) ++
      keyword "maxLength" (maxLength.map Json.int) ++
      keyword "minimum" (minimum.map Json.int) ++
      keyword "maximum" (maximum.map Json.int) ++
      keyword "minItems" (minItems.map Json.int) ++
      keyword "maxItems" (maxItems.map Json.int) ++
      keyword "required" (required.map fun names => .arr (names.map Json.str)) ++
      keyword "properties" (propertyObject properties) ++
      keyword "additionalProperties" (additionalValue additional) ++
      keyword "oneOf" (memberList oneOf) ++
      keyword "anyOf" (memberList anyOf) ++
      keyword "allOf" (memberList allOf)

/-- The object of an optional schema. -/
def itemObject : Option Schema → Option Json
  | some schema => some (.obj (keywords schema))
  | none => none

/-- The object of the properties. No properties are as good as an empty mapping of them. -/
def propertyObject : Option (List (Text × Schema)) → Option Json
  | some (property :: rest) => some (.obj (namedObjects (property :: rest)))
  | _ => none

/-- The objects of named schemas. -/
def namedObjects : List (Text × Schema) → Fields Json
  | [] => []
  | (name, schema) :: rest => (name, .obj (keywords schema)) :: namedObjects rest

/-- What is said about the keys that are not listed. -/
def additionalValue : Option (Additional Schema) → Option Json
  | some (.allowed value) => some (.bool value)
  | some (.schema schema) => some (.obj (keywords schema))
  | none => none

/-- The list of the objects of members. -/
def memberList : Option (List Schema) → Option Json
  | some members => some (.arr (objects members))
  | none => none

/-- The objects of schemas. -/
def objects : List Schema → List Json
  | [] => []
  | schema :: rest => .obj (keywords schema) :: objects rest

end

/-- The object of a schema. -/
def toJson (schema : Schema) : Json := .obj schema.keywords

/-- Whether a value is exactly the truth value true. -/
def isTrue : Json → Bool
  | .bool value => value
  | _ => false

/-- The schema of a request parameter. A truth value is sent as 0 or 1; its default is 1 only if
it is true. -/
def asParameter (schema : Schema) : Schema :=
  if schema.type = some "boolean" then
    { context := schema.context, type := some "integer", nullable := schema.nullable,
      hasDefault := schema.hasDefault,
      defaultValue :=
        if schema.hasDefault then .int (if isTrue schema.defaultValue then 1 else 0) else .null,
      enum := some [.int 0, .int 1] }
  else { schema with description := none }

/-- The object of a schema, in a request parameter or elsewhere. -/
def serialize (schema : Schema) (parameter : Bool) : Json :=
  if parameter then schema.asParameter.toJson else schema.toJson

end Schema

end Schemata
