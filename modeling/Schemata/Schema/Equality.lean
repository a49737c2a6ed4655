import Schemata.Json.Equality
import Schemata.Schema.Basic

/-!
# When two schemas are the same

Field by field, all the way down. Contexts do not count, and the order of the properties does not
either; defaults and allowed values are compared as JSON values.
-/

namespace Schemata

namespace Schema

/-- Whether two optional lists of allowed values are the same, one by one. -/
def sameEnum : Option (List Json) → Option (List Json) → Bool
  | none, none => true
  | some lefts, some rights => Json.sameItems lefts rights
  | _, _ => false

mutual

/-- Whether two schemas are the same. -/
def same : Schema → Schema → Bool
  | { ref, type, format, nullable, hasDefault, defaultValue, items, properties, oneOf, anyOf, allOf,
      additional, required, description, minLength, maxLength, minimum, maximum, minItems, maxItems,
      enum, .. }, other =>
    ref = other.ref && type = other.type && format = other.format && nullable = other.nullable &&
      hasDefault = other.hasDefault && defaultValue.same other.defaultValue &&
      sameItem items other.items && sameProperties properties other.properties &&
      sameMembers oneOf other.oneOf && sameMembers anyOf other.anyOf &&
      sameMembers allOf other.allOf && sameAdditional additional other.additional &&
      required = other.required && description = other.description &&
      minLength = other.minLength && maxLength = other.maxLength && minimum = other.minimum &&
      maximum = other.maximum && minItems = other.minItems && maxItems = other.maxItems &&
      sameEnum enum other.enum
termination_by structural left => left

/-- Whether two optional schemas are the same. -/
def sameItem : Option Schema → Option Schema → Bool
  | none, none => true
  | some left, some right => same left right
  | _, _ => false
termination_by structural left => left

/-- Whether two optional lists of schemas are the same, one by one. -/
def sameMembers : Option (List Schema) → Option (List Schema) → Bool
  | none, none => true
  | some lefts, some rights => sameList lefts rights
  | _, _ => false
termination_by structural left => left

/-- Whether two lists of schemas are the same, one by one. -/
def sameList : List Schema → List Schema → Bool
  | [], [] => true
  | left :: lefts, right :: rights => same left right && sameList lefts rights
  | _, _ => false
termination_by structural left => left

/-- Whether two optional mappings are the same. -/
def sameProperties : Option (List (Text × Schema)) → Option (List (Text × Schema)) → Bool
  | none, none => true
  | some lefts, some rights => sameNamed lefts rights
  | _, _ => false
termination_by structural left => left

/-- Whether two mappings are the same up to the order of different names. -/
def sameNamed : List (Text × Schema) → List (Text × Schema) → Bool
  | [], rights => rights.isEmpty
  | (name, left) :: lefts, rights =>
    match Fields.extract? rights name with
    | some (right, others) => same left right && sameNamed lefts others
    | none => false
termination_by structural left => left

/-- Whether two schemas say the same about keys that they do not list. -/
def sameAdditional : Option (Additional Schema) → Option (Additional Schema) → Bool
  | none, none => true
  | some (.allowed left), some (.allowed right) => left = right
  | some (.schema left), some (.schema right) => same left right
  | _, _ => false
termination_by structural left => left

end

/-- Nothing is left of null unless it is described. -/
theorem same_empty (context : Text) (description : Option Text) :
    ({ context, description } : Schema).same {} = description.isNone := by
  cases description <;>
    simp [same, sameItem, sameMembers, sameProperties, sameAdditional, sameEnum, Json.same]

end Schema

end Schemata
