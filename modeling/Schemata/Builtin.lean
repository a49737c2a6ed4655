import Schemata.Schema.Basic

/-!
# Built-in type names

The names that mean the same in every document, with the schemas they stand for. They take
precedence over definitions.
-/

namespace Schemata

/-- A built-in type. -/
inductive Builtin where
  | string | nonFalsyString | numericString | nonEmptyString
  | int | integer | nonNegativeInt | positiveInt | negativeInt | nonPositiveInt
  | bool | boolean | trueValue | falseValue
  | numeric | float | double
  | mixed | empty | array
  | object | stdClass
  | null
  deriving DecidableEq

namespace Builtin

/-- The name of a built-in type. -/
def name : Builtin → Text
  | .string => "string"
  | .nonFalsyString => "non-falsy-string"
  | .numericString => "numeric-string"
  | .nonEmptyString => "non-empty-string"
  | .int => "int"
  | .integer => "integer"
  | .nonNegativeInt => "non-negative-int"
  | .positiveInt => "positive-int"
  | .negativeInt => "negative-int"
  | .nonPositiveInt => "non-positive-int"
  | .bool => "bool"
  | .boolean => "boolean"
  | .trueValue => "true"
  | .falseValue => "false"
  | .numeric => "numeric"
  | .float => "float"
  | .double => "double"
  | .mixed => "mixed"
  | .empty => "empty"
  | .array => "array"
  | .object => "object"
  | .stdClass => "stdClass"
  | .null => "null"

/-- Every built-in type. -/
def all : List Builtin :=
  [.string, .nonFalsyString, .numericString, .nonEmptyString, .int, .integer, .nonNegativeInt,
    .positiveInt, .negativeInt, .nonPositiveInt, .bool, .boolean, .trueValue, .falseValue, .numeric,
    .float, .double, .mixed, .empty, .array, .object, .stdClass, .null]

/-- The built-in type of that name. -/
def ofName? (name : Text) : Option Builtin := all.find? fun builtin => builtin.name = name

/-- The schema of a built-in type. Integers are of 64 bits, and every floating-point number is
stored with double precision. -/
def schema : Builtin → Schema
  | .string | .nonFalsyString | .numericString => { type := some "string" }
  | .nonEmptyString => { type := some "string", minLength := some 1 }
  | .int | .integer => Schema.int64
  | .nonNegativeInt => { Schema.int64 with minimum := some 0 }
  | .positiveInt => { Schema.int64 with minimum := some 1 }
  | .negativeInt => { Schema.int64 with maximum := some (-1) }
  | .nonPositiveInt => { Schema.int64 with maximum := some 0 }
  | .bool | .boolean => { type := some "boolean" }
  | .trueValue => { type := some "boolean", enum := some [.bool true] }
  | .falseValue => { type := some "boolean", enum := some [.bool false] }
  | .numeric => { type := some "number" }
  | .float | .double => { type := some "number", format := some "double" }
  | .mixed | .empty | .array => { type := some "object" }
  | .object | .stdClass => { type := some "object", additional := some (.allowed true) }
  | .null => { nullable := true }

theorem mem_all (builtin : Builtin) : builtin ∈ all := by
  cases builtin <;> decide

/-- A name finds the built-in type that has it. -/
theorem ofName?_name (builtin : Builtin) : ofName? builtin.name = some builtin := by
  cases builtin <;> decide

theorem name_of_ofName? {name : Text} {builtin : Builtin} (h : ofName? name = some builtin) :
    builtin.name = name := by
  have hp := List.find?_some h
  simpa using hp

end Builtin

end Schemata
