import Schemata.Proofs.Resolution

/-!
# The parts of an expression

Resolution goes down into the parts of an expression, and leaves out arguments that no rule looks
into (`TypeExpr.Within`). What has a schema has one in every such part (`Resolver.Resolves.of_within`).
-/

namespace Schemata

namespace TypeExpr

/-- The expression is the part, or resolution comes to the part on its way through the expression,
unless a problem ends it before. -/
inductive Within : TypeExpr → TypeExpr → Prop
  | refl (expr : TypeExpr) : Within expr expr
  | nullable {part inner : TypeExpr} : Within part inner → Within part (.nullable inner)
  | described {part inner : TypeExpr} {description : Text} : Within part inner →
      Within part (.described inner description)
  | arrayOf {part element : TypeExpr} : Within part element → Within part (.arrayOf element)
  | list {part argument : TypeExpr} {name : Text} : name = "array" ∨ name = "list" →
      Within part argument → Within part (.generic name [argument])
  | map {part element : TypeExpr} : Within part element →
      Within part (.generic "array" [.identifier "string", element])
  | shape {part : TypeExpr} {fields : List (ShapeField TypeExpr)} {field : ShapeField TypeExpr} :
      field ∈ fields → Within part field.type → Within part (.shape fields)
  | union {part member : TypeExpr} {members : List TypeExpr} : member ∈ members →
      Within part member → Within part (.union members)
  | intersection {part member : TypeExpr} {members : List TypeExpr} : member ∈ members →
      Within part member → Within part (.intersection members)

end TypeExpr

namespace Resolver

variable {r : Resolver} {context : Text}

/-- The name `empty` is built in. -/
theorem exists_resolves_of_empty {expr : TypeExpr} (h : expr.isIdentifier "empty" = true) :
    ∃ schema, r.Resolves context expr schema := by
  cases expr with
  | identifier name =>
      have hname : name.unrooted = "empty" := by simpa [TypeExpr.isIdentifier] using h
      have hbuiltin : Builtin.ofName? name.unrooted = some .empty := by
        rw [hname]
        exact Builtin.ofName?_name .empty
      refine ⟨_, .builtin (fun _ => ?_) hbuiltin⟩
      rintro rfl
      exact absurd hname (by decide)
  | _ => cases h

/-- Every literal of a union of literals is one on its own. -/
theorem exists_resolves_of_literals {members : List TypeExpr} {schema : Schema}
    (h : Schema.ofLiterals? context members = some schema) {member : TypeExpr}
    (hmember : member ∈ members) : ∃ schema, r.Resolves context member schema := by
  obtain ⟨-, ⟨texts, rfl, -⟩ | ⟨values, rfl, -⟩⟩ := Schema.ofLiterals?_eq_some_iff.mp h
  · obtain ⟨text, -, rfl⟩ := List.mem_map.mp hmember
    exact ⟨_, .literal rfl⟩
  · obtain ⟨value, -, rfl⟩ := List.mem_map.mp hmember
    exact ⟨_, .literal rfl⟩

/-- **What has a schema has one in every part.** -/
theorem Resolves.of_within {expr part : TypeExpr} {schema : Schema}
    (h : r.Resolves context expr schema) (hpart : part.Within expr) :
    ∃ place found, r.Resolves place part found := by
  induction hpart generalizing context schema with
  | refl => exact ⟨context, schema, h⟩
  | nullable _ ih =>
      cases h with
      | nullable hinner => exact ih hinner
  | described _ ih =>
      cases h with
      | described hinner => exact ih hinner
  | arrayOf _ ih =>
      cases h with
      | arrayOf helement => exact ih helement
  | list _ _ ih =>
      cases h with
      | emptyList _ hempty =>
          obtain ⟨found, hfound⟩ : ∃ found, r.Resolves context _ found :=
            exists_resolves_of_empty hempty
          exact ih hfound
      | list _ _ hitems => exact ih hitems
  | map _ ih =>
      cases h with
      | map hvalues => exact ih hvalues
  | shape hfield _ ih =>
      cases h with
      | shape hlength hall =>
          obtain ⟨found, hpair⟩ := exists_schema_of_mem hlength hfield
          exact ih (hall _ hpair)
  | union hmember _ ih =>
      cases h with
      | literals hliterals =>
          obtain ⟨found, hfound⟩ := exists_resolves_of_literals hliterals hmember
          exact ih hfound
      | union _ _ _ hlength hall =>
          obtain ⟨found, hpair⟩ := exists_schema_of_mem hlength hmember
          exact ih (hall _ hpair)
  | intersection hmember _ ih =>
      cases h with
      | intersection _ _ hlength hall =>
          obtain ⟨found, hpair⟩ := exists_schema_of_mem hlength hmember
          exact ih (hall _ hpair)

end Resolver

end Schemata
