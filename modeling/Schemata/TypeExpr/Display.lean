import Schemata.Json.Display
import Schemata.TypeExpr.Basic

/-!
# Type expressions in messages

How a message shows an expression that it is about: the kind of the expression, and its parts by
name, all the way down.
-/

namespace Schemata

namespace TypeExpr

/-- A sequence of parts in round brackets; a single one is followed by a comma. -/
def displaySequence : List Text → Text
  | [part] => "(" ++ part ++ ",)"
  | parts => "(" ++ Text.joined ", " parts ++ ")"

mutual

/-- The expression as a message shows it. -/
def display : TypeExpr → Text
  | .identifier name => "IdentifierNode(name=" ++ name.quoted ++ ")"
  | .qualified parts =>
    "QualifiedNameNode(parts=" ++ displaySequence (parts.map Text.quoted) ++ ")"
  | .nullable inner => "NullableNode(type=" ++ inner.display ++ ")"
  | .union members => "UnionNode(types=" ++ displaySequence (displayAll members) ++ ")"
  | .intersection members =>
    "IntersectionNode(types=" ++ displaySequence (displayAll members) ++ ")"
  | .arrayOf element => "ArrayOfNode(type=" ++ element.display ++ ")"
  | .generic name args =>
    "GenericNode(name=" ++ name.quoted ++ ", args=" ++ displaySequence (displayAll args) ++ ")"
  | .shape fields => "ArrayShapeNode(items=" ++ displaySequence (displayFields fields) ++ ")"
  | .literal value => "ConstNode(value=" ++ value.display ++ ")"
  | .described inner description =>
    "ParamTagNode(type=" ++ inner.display ++ ", description=" ++ description.quoted ++ ")"

/-- Each expression as a message shows it. -/
def displayAll : List TypeExpr → List Text
  | [] => []
  | expr :: rest => expr.display :: displayAll rest

/-- Each field of a shape as a message shows it. -/
def displayFields : List (ShapeField TypeExpr) → List Text
  | [] => []
  | ⟨key, type, optional⟩ :: rest =>
    ("ArrayShapeItem(key=" ++ key.quoted ++ ", type=" ++ type.display ++ ", optional=" ++
      (Json.bool optional).display ++ ")") :: displayFields rest

end

mutual

/-- The integers in an expression, which are those in its literals. -/
def integers : TypeExpr → List Int
  | .identifier _ => []
  | .qualified _ => []
  | .nullable inner => inner.integers
  | .union members => integersAmong members
  | .intersection members => integersAmong members
  | .arrayOf element => element.integers
  | .generic _ args => integersAmong args
  | .shape fields => integersOfFields fields
  | .literal value => value.integers
  | .described inner _ => inner.integers

/-- The integers in expressions. -/
def integersAmong : List TypeExpr → List Int
  | [] => []
  | expr :: rest => expr.integers ++ integersAmong rest

/-- The integers in the types of fields. -/
def integersOfFields : List (ShapeField TypeExpr) → List Int
  | [] => []
  | ⟨_, type, _⟩ :: rest => type.integers ++ integersOfFields rest

end

end TypeExpr

end Schemata
