import Schemata.Builtin
import Schemata.Config
import Schemata.Report
import Schemata.Schema.Combine

/-!
# What resolution depends on, and its rules for single expressions

A `Resolver` holds the definitions that names may refer to, the configuration, and whether
recoverable problems are fatal. This module has the rules that do not look into the parts of an
expression: for names (`Resolver.resolveIdentifier`), for literals (`Schema.ofLiterals?`), for a
shape whose fields are resolved (`Schema.ofShape`), and for gathering resolved members
(`Members.add`).
-/

namespace Schemata

/-- What the resolution of a type depends on. -/
structure Resolver where
  /-- The names of the schemas that the document knows. -/
  definitions : Json := .arr []
  config : Config := {}
  /-- Whether recoverable problems are fatal. -/
  strict : Bool := config.isStrict

/-- The members of a union or an intersection: whether null is one of them, and the schemas of the
others. -/
structure Members where
  nullable : Bool
  schemas : List Schema

namespace Members

/-- The members with null. -/
def addNull (members : Members) : Members := ⟨true, members.schemas⟩

/-- The members with one more in front. If it is nullable then null is a member, and it is a member
without null, unless nothing is left of it. -/
def add (schema : Schema) (members : Members) : Members :=
  if schema.nullable then
    let rest := { schema with nullable := false }
    if rest.same {} then members.addNull else ⟨true, rest :: members.schemas⟩
  else ⟨members.nullable, schema :: members.schemas⟩

end Members

namespace Schema

/-- The schema of a string literal. The empty string is no value that a list of values may hold. -/
def ofTextLiterals (context : Text) (texts : List Text) : Schema :=
  if [] ∈ texts then { context, type := some "string" }
  else { context, type := some "string", enum := some (texts.map Json.str) }

/-- The schema of integer literals. -/
def ofIntLiterals (context : Text) (values : List Int) : Schema :=
  { int64 with context := context, enum := some (values.map Json.int) }

/-- The schema of a union of string literals alone, or of integer literals alone. -/
def ofLiterals? (context : Text) (members : List TypeExpr) : Option Schema :=
  if members.isEmpty then none
  else
    match members.mapM TypeExpr.textLiteral?, members.mapM TypeExpr.intLiteral? with
    | some texts, _ => some (ofTextLiterals context texts)
    | none, some values => some (ofIntLiterals context values)
    | none, none => none

/-- The schema of a literal on its own. -/
def ofLiteral? (context : Text) : Json → Option Schema
  | .str text => some (ofTextLiterals context [text])
  | .int value => some (ofIntLiterals context [value])
  | _ => none

/-- The schema of an array shape, from its fields and their schemas. A key that is given again keeps
its place and takes the last schema. -/
def ofShape (context : Text) (fields : List (ShapeField TypeExpr))
    (schemas : List (Text × Schema)) : Schema :=
  let required := (fields.filter fun field => !field.optional).map ShapeField.key
  { context, type := some "object", properties := some (Fields.ofList schemas),
    required := if required.isEmpty then none else some required }

end Schema

namespace Resolver

/-- Records a recoverable problem if there is cause for it. -/
def errorIf (r : Resolver) (cause : Bool) (context : Text) (problem : Problem) : Report Unit :=
  if cause then Report.error r.strict context problem else pure ()

/-- The schema of a name that is not built in: a reference to the definition of that name. -/
def resolveReference (r : Resolver) (context name : Text) : Report Schema :=
  match r.definitions.mentions? name with
  | none => Report.fail (.misuse .definitions)
  | some false => Report.panic context (.unknownIdentifier name)
  | some true =>
    match r.config.reference name with
    | .ok ref => pure { context, ref := some ref }
    | .error failure => Report.fail failure

/-- The schema of a name, rooted or not. -/
def resolveIdentifier (r : Resolver) (context name : Text) : Report Schema := do
  r.errorIf (name = "array") context .bareArray
  match Builtin.ofName? name.unrooted with
  | some builtin => return { builtin.schema with context := context }
  | none => r.resolveReference context name.unrooted

end Resolver

end Schemata
