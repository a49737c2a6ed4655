import Schemata.TypeExpr.Decode

/-!
# Type expressions as JSON values

The plainest value that writes an expression: always an object, its kind first, every key given.
-/

namespace Schemata

namespace TypeExpr

/-- An object of that kind. -/
def kindObject (kind : Kind) (fields : List (Text × Json)) : Json :=
  .obj (("kind", .str kind.word) :: fields)

mutual

/-- The object that writes an expression. -/
def toJson : TypeExpr → Json
  | .identifier name => kindObject .identifier [("name", .str name)]
  | .qualified parts => kindObject .name [("parts", .arr (parts.map Json.str))]
  | .nullable inner => kindObject .nullable [("type", inner.toJson)]
  | .union members => kindObject .union [("types", .arr (allToJson members))]
  | .intersection members => kindObject .intersection [("types", .arr (allToJson members))]
  | .arrayOf element => kindObject .array [("type", element.toJson)]
  | .generic name args =>
    kindObject .generic [("name", .str name), ("args", .arr (allToJson args))]
  | .shape fields => kindObject .shape [("items", .arr (shapeToJson fields))]
  | .literal value => kindObject .const [("value", value)]
  | .described inner description =>
    kindObject .param [("type", inner.toJson), ("description", .str description)]

/-- The objects that write expressions. -/
def allToJson : List TypeExpr → List Json
  | [] => []
  | expr :: rest => expr.toJson :: allToJson rest

/-- The objects that write the fields of a shape. -/
def shapeToJson : List (ShapeField TypeExpr) → List Json
  | [] => []
  | ⟨key, type, optional⟩ :: rest =>
    .obj [("key", .str key), ("type", type.toJson), ("optional", .bool optional)] ::
      shapeToJson rest

end

end TypeExpr

end Schemata
