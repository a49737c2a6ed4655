import Schemata.Json.Basic

/-!
# Type expressions

The types that declarations and doc comments write: names, `?T`, `A|B`, `A&B`, `T[]`, `list<T>`,
`array{id: int}`, literals, and a type with the description of a parameter.
-/

namespace Schemata

/-- A field of an array shape, `key: T`, or `key?: T` if it is optional. -/
structure ShapeField (α : Type) where
  key : Text
  type : α
  optional : Bool

/-- A type expression. -/
inductive TypeExpr where
  /-- A bare name: `int`, `non-empty-string`, `NotificationsItem`. -/
  | identifier (name : Text)
  /-- The name of a class by its parts, from the outermost namespace inwards. -/
  | qualified (parts : List Text)
  /-- A type or null, `?T`. -/
  | nullable (inner : TypeExpr)
  /-- Any of some types, `A|B|…`. -/
  | union (members : List TypeExpr)
  /-- All of some types, `A&B&…`. -/
  | intersection (members : List TypeExpr)
  /-- Lists of a type, `T[]`. -/
  | arrayOf (element : TypeExpr)
  /-- A name with arguments: `list<T>`, `array<K, V>`, `int<0, max>`. -/
  | generic (name : Text) (args : List TypeExpr)
  /-- Objects with the fields given, `array{id: int, name?: string}`. -/
  | shape (fields : List (ShapeField TypeExpr))
  /-- A literal: `'foo'`, `42`. Every JSON value can stand here; few can be resolved. -/
  | literal (value : Json)
  /-- The type of a parameter, with the text that describes it. -/
  | described (inner : TypeExpr) (description : Text)

namespace TypeExpr

instance : Inhabited TypeExpr := ⟨.identifier []⟩

/-- Whether the expression is that identifier, rooted or not. -/
def isIdentifier (name : Text) : TypeExpr → Bool
  | .identifier given => given.unrooted = name
  | _ => false

/-- The text of a text literal. -/
def textLiteral? : TypeExpr → Option Text
  | .literal (.str text) => some text
  | _ => none

/-- The value of an integer literal. Truth values are no integers. -/
def intLiteral? : TypeExpr → Option Int
  | .literal (.int value) => some value
  | _ => none

/-- The name by which a class is looked up: the innermost part of its qualified name, empty if it
has none. -/
def lastPart (parts : List Text) : Text := parts.getLastD []

end TypeExpr

end Schemata
