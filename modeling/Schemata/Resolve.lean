import Schemata.Resolve.Basic

/-!
# Resolving type expressions to schemas

`Resolver.resolve` follows the expression: a name is built in or refers to a definition, a
container or a shape is resolved part by part, the members of a union or an intersection are
combined. What is recorded on the way is in the order in which the parts stand; the first fatal
problem ends it.

The context of a part is that of the whole, except for the elements of `T[]` and the values of a
map, which say so.
-/

namespace Schemata

namespace Resolver

mutual

/-- The schema of an expression. -/
def resolve (r : Resolver) (context : Text) : TypeExpr → Report Schema
  | .described inner description => do
    let schema ← resolve r context inner
    return { schema with description := some description }
  | .identifier name => r.resolveIdentifier context name
  | .qualified parts => r.resolveIdentifier context (TypeExpr.lastPart parts)
  | .nullable inner => do
    let schema ← resolve r context inner
    return { schema with nullable := true }
  | .arrayOf element => do
    let items ← resolve r (context ++ ": items") element
    return { context, type := some "array", items := some items }
  | .generic name args =>
    if name = "value-of" ∨ name = "key-of" then Report.panic context (.unsupportedGeneric name)
    else
      match args with
      | [argument] =>
        if name = "array" ∨ name = "list" then
          if argument.isIdentifier "empty" then
            pure { context, type := some "array", maxItems := some 0 }
          else do
            let items ← resolve r context argument
            return { context, type := some "array", items := some items }
        else Report.panic context (.noRule (.generic name args))
      | [first, second] =>
        if name = "array" then
          match first with
          | .identifier key =>
            if key = "string" then do
              let values ← resolve r (context ++ ": additionalProperties") second
              return { context, type := some "object", additional := some (.schema values) }
            else Report.panic context (.mapKey key)
          | _ => Report.panic context (.noRule (.generic name args))
        else if name = "int" then
          pure { Schema.int64 with
            context := context, minimum := first.intLiteral?, maximum := second.intLiteral? }
        else Report.panic context (.noRule (.generic name args))
      | _ => Report.panic context (.noRule (.generic name args))
  | .shape fields => do
    let schemas ← resolveFields r context fields
    return Schema.ofShape context fields schemas
  | .literal value =>
    match Schema.ofLiteral? context value with
    | some schema => pure schema
    | none => Report.panic context .unsupportedLiteral
  | .union members =>
    if members.isEmpty then Report.panic context .emptyUnion
    else
      match Schema.ofLiterals? context members with
      | some schema => pure schema
      | none => do
        let resolved ← resolveMembers r context members
        return Schema.combine context resolved.schemas resolved.nullable .union
  | .intersection members =>
    if members.isEmpty then Report.panic context .emptyIntersection
    else do
      let resolved ← resolveMembers r context members
      return Schema.combine context resolved.schemas resolved.nullable .intersection

/-- The schemas of the fields of a shape, by key. -/
def resolveFields (r : Resolver) (context : Text) :
    List (ShapeField TypeExpr) → Report (List (Text × Schema))
  | [] => pure []
  | ⟨key, type, _⟩ :: rest => do
    let schema ← resolve r context type
    let others ← resolveFields r context rest
    return (key, schema) :: others

/-- The members of a union or an intersection. -/
def resolveMembers (r : Resolver) (context : Text) : List TypeExpr → Report Members
  | [] => pure ⟨false, []⟩
  | member :: rest =>
    if member.isIdentifier "null" then do
      let others ← resolveMembers r context rest
      return others.addNull
    else do
      r.errorIf (member.isIdentifier "mixed") context .mixedMember
      let schema ← resolve r context member
      let others ← resolveMembers r context rest
      return others.add schema

end

/-- The name `null` is the schema of null, rooted or not, and nothing is recorded on the way. -/
theorem resolve_eq_of_null {r : Resolver} {context : Text} {expr : TypeExpr}
    (h : expr.isIdentifier "null" = true) :
    r.resolve context expr = pure { context, nullable := true } := by
  cases expr with
  | identifier name =>
      have hname : name.unrooted = "null" := by simpa [TypeExpr.isIdentifier] using h
      have hbare : name ≠ "array" := by
        rintro rfl
        exact absurd hname (by decide)
      have hbuiltin : Builtin.ofName? name.unrooted = some .null :=
        hname ▸ Builtin.ofName?_name .null
      rw [resolve, resolveIdentifier, hbuiltin, decide_eq_false hbare]
      rfl
  | _ => simp [TypeExpr.isIdentifier] at h

end Resolver

end Schemata
