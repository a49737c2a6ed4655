import Schemata.Proofs.Combination
import Schemata.Proofs.Resolution

/-!
# Where null comes from

Whether a resolved schema is nullable can be read off the expression, without resolving anything
(`TypeExpr.isNullable`): null is named, `?T` adds it, a union or an intersection has it from a member,
and a description lets it through. Nothing else is nullable, however nullable its parts are.

Null takes four ways to the root: a member that is the name is skipped, a nullable member hands its
flag over, a member of which nothing else is left is dropped, and the only member that remains takes
the flag of the whole. On all of them the flag is that of some member (`Members.gather_nullable`,
`Schema.combine_nullable`), so one induction over the rules is left (`Resolver.resolve_nullable`).
-/

namespace Schemata

namespace TypeExpr

mutual

/-- Whether null is one of the values, as far as the expression says. -/
def isNullable : TypeExpr → Bool
  | .identifier name => name.unrooted = "null"
  | .qualified parts => (lastPart parts).unrooted = "null"
  | .nullable _ => true
  | .union members => isAnyNullable members
  | .intersection members => isAnyNullable members
  | .described inner _ => isNullable inner
  | .arrayOf _ => false
  | .generic _ _ => false
  | .shape _ => false
  | .literal _ => false

/-- Whether one of the expressions is nullable. -/
def isAnyNullable : List TypeExpr → Bool
  | [] => false
  | member :: rest => isNullable member || isAnyNullable rest

end

theorem isAnyNullable_eq (members : List TypeExpr) :
    isAnyNullable members = members.any isNullable := by
  induction members with
  | nil => rfl
  | cons member rest ih => rw [isAnyNullable, List.any_cons, ih]

/-- Literals are not nullable, whatever is written in them. -/
theorem isAnyNullable_literals {α : Type} (write : α → Json) (values : List α) :
    isAnyNullable (values.map fun value => .literal (write value)) = false := by
  induction values with
  | nil => rfl
  | cons value rest ih =>
      rw [List.map_cons, isAnyNullable, ih]
      rfl

end TypeExpr

/-- The only nullable one of the built-in types is null. -/
theorem Builtin.schema_nullable (builtin : Builtin) :
    builtin.schema.nullable = decide (builtin.name = "null") := by
  cases builtin <;> rfl

namespace Schema

theorem nullable_of_literals {context : Text} {members : List TypeExpr} {schema : Schema}
    (h : ofLiterals? context members = some schema) : schema.nullable = false := by
  rw [eq_of_literals h]

/-- A combination is nullable exactly if one of the members that were gathered is. -/
theorem combine_gather_nullable (context : Text) (schemas : List Schema) (junction : Junction) :
    (combine context (Members.gather schemas).schemas (Members.gather schemas).nullable
      junction).nullable = schemas.any nullable := by
  rw [combine_nullable, Members.gather_nullable]

end Schema

namespace Resolver

open Schema

variable {r : Resolver} {context : Text}

/-- If the flags of the schemas are those of the members then so is the flag of the whole. -/
theorem any_eq_of_zip {members : List TypeExpr} {schemas : List Schema}
    (hlength : members.length = schemas.length)
    (h : ∀ pair ∈ members.zip schemas, pair.2.nullable = pair.1.isNullable) :
    schemas.any nullable = members.any TypeExpr.isNullable := by
  have hall : List.Forall₂ (fun (member : TypeExpr) (schema : Schema) =>
      schema.nullable = member.isNullable) members schemas :=
    List.forall₂_iff_zip.mpr ⟨hlength, fun hpair => h _ hpair⟩
  clear h hlength
  induction hall with
  | nil => rfl
  | cons hhead _ ih => rw [List.any_cons, List.any_cons, hhead, ih]

theorem Resolves.nullable_eq {expr : TypeExpr} {schema : Schema}
    (h : r.Resolves context expr schema) : schema.nullable = expr.isNullable := by
  induction h with
  | @builtin _ name builtin _ hbuiltin =>
      show builtin.schema.nullable = _
      rw [Builtin.schema_nullable, Builtin.name_of_ofName? hbuiltin, TypeExpr.isNullable]
  | @reference _ name _ hbuiltin _ =>
      -- the name null is built in, so this is another one
      have hname : name.unrooted ≠ "null" := by
        intro hnull
        rw [hnull, show Builtin.ofName? "null" = some .null from Builtin.ofName?_name .null]
          at hbuiltin
        exact absurd hbuiltin (by simp)
      rw [TypeExpr.isNullable, decide_eq_false hname]
  | qualified _ ih => exact ih
  | nullable _ _ => rw [TypeExpr.isNullable]
  | described _ ih =>
      rw [TypeExpr.isNullable]
      exact ih
  | literal hschema =>
      rw [TypeExpr.isNullable]
      exact nullable_of_literals (ofLiterals?_singleton hschema)
  | literals hschema =>
      rw [TypeExpr.isNullable, nullable_of_literals hschema]
      obtain ⟨-, ⟨texts, rfl, -⟩ | ⟨values, rfl, -⟩⟩ := ofLiterals?_eq_some_iff.mp hschema
      · exact (TypeExpr.isAnyNullable_literals _ _).symm
      · exact (TypeExpr.isAnyNullable_literals _ _).symm
  | union _ _ _ hlength _ ih | intersection _ _ hlength _ ih =>
      rw [combine_gather_nullable, TypeExpr.isNullable, TypeExpr.isAnyNullable_eq,
        any_eq_of_zip hlength ih]
  | arrayOf _ _ | emptyList _ _ | list _ _ _ _ | map _ _ | range | shape _ _ _ => rfl

/-- **What resolution returns is nullable exactly if the expression is.** -/
theorem resolve_nullable {expr : TypeExpr} {schema : Schema}
    (h : (r.resolve context expr).outcome = .ok schema) : schema.nullable = expr.isNullable :=
  (resolves_of_ok h).nullable_eq

/-- Null comes to the root from inside an intersection, past literals and lists of null. -/
theorem nullable_of_nested_null :
    let expr : TypeExpr := .union
      [.literal (.str "on"), .arrayOf (.nullable (.identifier "int")),
        .described (.intersection [.qualified ["Vendor", "\\null"], .identifier "bool"]) "flag"]
    ∃ schema, (({} : Resolver).resolve "$" expr).outcome = .ok schema ∧
      schema.nullable = expr.isNullable ∧ schema.nullable = true := by
  intro expr
  have hends : ∃ schema, (({} : Resolver).resolve "$" expr).outcome = .ok schema := ⟨_, rfl⟩
  obtain ⟨schema, h⟩ := hends
  have heq := resolve_nullable h
  exact ⟨schema, h, heq, heq.trans (by decide)⟩

end Resolver

end Schemata
