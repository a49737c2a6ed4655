import Schemata.Proofs.MemberOrder

/-!
# Two ways of writing that null is allowed

`?T` and `T|null` mean the same, but they are resolved in two ways. The first resolves `T` and sets the
flag. The second resolves both members, takes null from `T`, and puts what is left through the steps of
a union before the flag is set:

* **gathering** — beside null, in either order, the only member is what is left of `T`
  (`Members.gather_beside_null`);
* **combining** — one member is returned as it is, unless it lists its values: then it is made anew,
  with its type and the list and nothing else (`Schema.remade`, `Schema.same_combine_rest`);
* **resolution** — one way ends well if the other does, and the schemas are the same but for what is
  left out there, the format of integers and a description (`Resolver.resolve_nullable_iff_union_null`).
-/

namespace Schemata

namespace Members

/-- Nothing is left of null. -/
theorem rest?_null (context : Text) : rest? { context, nullable := true } = none := by
  have hsame : ({ context } : Schema).same {} = true := Schema.same_empty context none
  simp [rest?, hsame]

/-- Beside null there is what is left of the other member, in either order. -/
theorem gather_beside_null (context : Text) (schema : Schema) :
    gather [schema, { context, nullable := true }] = ⟨true, (rest? schema).toList⟩ ∧
      gather [{ context, nullable := true }, schema] = ⟨true, (rest? schema).toList⟩ := by
  have hgather : ∀ schemas : List Schema,
      gather schemas = ⟨schemas.any Schema.nullable, schemas.filterMap rest?⟩ := by
    intro schemas
    rw [← gather_nullable, ← gather_schemas]
  rw [hgather, hgather]
  cases hrest : rest? schema <;> simp [rest?_null, hrest]

end Members

namespace Schema

/-- A schema that lists its values says their type and nothing else but its labels and a format. -/
theorem WellShaped.eq_of_enum {schema : Schema} {values : List Json} (h : schema.WellShaped)
    (hvalues : schema.enum = some values) :
    schema =
      { context := schema.context, type := schema.type, format := schema.format,
        nullable := schema.nullable, description := schema.description, enum := some values } := by
  obtain ⟨-, ⟨type, hliteral, htype, -⟩, hminimum, hmaximum, hminLength⟩ := h.enum values hvalues
  obtain ⟨-, harray, hobject⟩ := simple_of_mem_literalTypes hliteral
  obtain ⟨href, honeOf, hanyOf, hallOf⟩ := h.alone (by simp [htype])
  obtain ⟨hdefault, hvalue⟩ := h.noDefault
  obtain ⟨hmaxLength, hminItems⟩ := h.unused
  -- the parts of lists and objects go with types whose values are not listed
  have helements := h.elements
  have hfields := h.fields
  simp only [htype, Option.some.injEq, harray, hobject, imp_false, not_or, Bool.not_eq_true,
    Option.isSome_eq_false_iff, Option.isNone_iff_eq_none] at helements hfields
  obtain ⟨hitems, hmaxItems⟩ := helements
  obtain ⟨hproperties, hrequired, hadditional⟩ := hfields
  cases schema
  simp_all only

/-- What a union makes of a member that is alone: where values are listed, nothing else is said but
the type. -/
def remade (schema : Schema) : Schema :=
  if schema.enum.isSome then { schema with format := none, description := none } else schema

/-- The context does not count. -/
theorem same_relocated (context : Text) (schema : Schema) : Same { schema with context } schema := by
  have hself := same_iff.mp (same_equivalentAt schema).refl
  exact same_iff.mpr { hself with }

/-- A member that is alone and lists no values is returned as it is. -/
theorem combine_plain {schema : Schema} (context : Text) (nullable : Bool) (junction : Junction)
    (hplain : schema.enum = none) :
    combine context [schema] nullable junction = { schema with nullable } := by
  have htype : ∀ member ∈ [schema], member.type = schema.type := by simp
  have hmerged : mergedMembers context [schema] = [schema] := by
    show mergeEnums context [schema] = [schema]
    rw [mergeEnums_of_plain htype List.mem_cons_self hplain]
    simp [hplain]
  rw [combine_of_single hmerged]

/-- A member that is alone and lists its values keeps its type and the list. -/
theorem combine_listed {schema : Schema} {values : List Json} (context : Text) (nullable : Bool)
    (junction : Junction) (hvalues : schema.enum = some values) :
    combine context [schema] nullable junction =
      { context, type := schema.type, nullable, enum := some values } := by
  have htype : ∀ member ∈ [schema], member.type = schema.type := by simp
  have hpool : pool schema.type [schema] = values := by
    rw [pool, List.flatMap_singleton, literalsOf_self hvalues]
  have hmerged : mergedMembers context [schema] = [pooled context [schema] schema.type] := by
    show mergeEnums context [schema] = _
    exact mergeEnums_of_listed htype (List.cons_ne_nil _ _) (by simp [hvalues])
  rw [combine_of_single hmerged, pooled, hpool]

/-- Nothing that lists its values is the same as the empty schema. -/
theorem enum_eq_none_of_same_empty {schema : Schema} (h : Same schema {}) : schema.enum = none := by
  have henum := h.enum_isSome_eq
  simpa using henum

/-- **Beside null, a schema is made anew and becomes nullable.** -/
theorem same_combine_rest (context : Text) {schema : Schema} (h : schema.WellShaped) :
    Same (combine context (Members.rest? schema).toList true .union)
      (remade { schema with nullable := true }) := by
  unfold Members.rest?
  split
  · -- nothing is left, so the schema is that of null
    next hnull =>
    have hempty : Same { schema with nullable := false } {} := hnull.2
    have hplain := enum_eq_none_of_same_empty hempty
    dsimp only at hplain
    rw [remade, if_neg (by simp [hplain])]
    exact same_symm (same_iff.mpr { same_iff.mp hempty with nullable := rfl })
  · rw [Option.toList_some]
    rcases Option.eq_none_or_eq_some schema.enum with hplain | ⟨values, hvalues⟩
    · have hcombined : combine context [{ schema with nullable := false }] true .union =
          { schema with nullable := true } := combine_plain context true .union hplain
      rw [hcombined, remade, if_neg (by simp [hplain])]
      exact (same_equivalentAt _).refl
    · have hcombined : combine context [{ schema with nullable := false }] true .union =
          { context, type := schema.type, nullable := true, enum := some values } :=
        combine_listed context true .union hvalues
      rw [hcombined, remade, if_pos (by simp [hvalues]), h.eq_of_enum hvalues]
      exact same_relocated context { type := schema.type, nullable := true, enum := some values }

end Schema

namespace Resolver

open Schema

variable {r : Resolver} {context : Text}

/-- A union with null, in either order, resolves if the other member does, unless resolution is strict
about `mixed`. -/
theorem resolve_union_null_ok_iff {expr : TypeExpr} {members : List TypeExpr} {schema : Schema}
    (hmembers : members = [expr, .identifier "null"] ∨ members = [.identifier "null", expr]) :
    (r.resolve context (.union members)).outcome = .ok schema ↔
      (r.strict = true → expr.isIdentifier "mixed" = false) ∧
        ∃ inner, (r.resolve context expr).outcome = .ok inner ∧
          combine context (Members.rest? inner).toList true .union = schema := by
  have hname : (TypeExpr.identifier "null").isIdentifier "null" = true := by decide
  have hmixed := not_mixed_of_null hname
  -- the name null is no literal
  have hliterals : ofLiterals? context members = none := by
    refine Option.eq_none_iff_forall_ne_some.mpr fun found hfound => ?_
    have hmem : TypeExpr.identifier "null" ∈ members := by rcases hmembers with rfl | rfl <;> simp
    obtain ⟨-, ⟨texts, rfl, -⟩ | ⟨values, rfl, -⟩⟩ := ofLiterals?_eq_some_iff.mp hfound <;>
      simp at hmem
  have hne : members.isEmpty = false := by rcases hmembers with rfl | rfl <;> rfl
  rw [resolve, hne, hliterals]
  refine combined_ok_iff.trans (and_congr ?_ ?_)
  · rcases hmembers with rfl | rfl <;> simp [hmixed]
  · have hlast : (r.resolve context (.identifier "null")).outcome =
        .ok { context, nullable := true } := (resolve_null hname).mpr rfl
    constructor
    · intro hleft
      rcases hleft with ⟨schemas, hall, rfl⟩
      rcases hmembers with rfl | rfl
      · obtain ⟨inner, _, hinner, -, -⟩ := List.forall₂_cons_left_iff.mp hall
        obtain rfl := hall.unique (.cons hinner (.cons hlast .nil))
        exact ⟨inner, hinner, by rw [(Members.gather_beside_null context inner).1]⟩
      · obtain ⟨_, _, -, hrest, -⟩ := List.forall₂_cons_left_iff.mp hall
        obtain ⟨inner, _, hinner, -, -⟩ := List.forall₂_cons_left_iff.mp hrest
        obtain rfl := hall.unique (.cons hlast (.cons hinner .nil))
        exact ⟨inner, hinner, by rw [(Members.gather_beside_null context inner).2]⟩
    · intro hright
      rcases hright with ⟨inner, hinner, rfl⟩
      rcases hmembers with rfl | rfl
      · refine ⟨_, .cons hinner (.cons hlast .nil), ?_⟩
        rw [(Members.gather_beside_null context inner).1]
      · refine ⟨_, .cons hlast (.cons hinner .nil), ?_⟩
        rw [(Members.gather_beside_null context inner).2]

/-- **`?T` and `T|null` resolve to the same schema, but for what a list of values leaves out.** One
resolves if the other does, unless resolution is strict and `T` is the name `mixed`. The schema of the
union is that of the wrapper, without format and description where that lists its values. -/
theorem resolve_nullable_iff_union_null (r : Resolver) (context : Text) {expr : TypeExpr}
    (hmixed : r.strict = true → expr.isIdentifier "mixed" = false) {members : List TypeExpr}
    (hmembers : members = [expr, .identifier "null"] ∨ members = [.identifier "null", expr]) :
    ((∃ wrapped, (r.resolve context (.nullable expr)).outcome = .ok wrapped) ↔
        ∃ union, (r.resolve context (.union members)).outcome = .ok union) ∧
      ∀ wrapped union, (r.resolve context (.nullable expr)).outcome = .ok wrapped →
        (r.resolve context (.union members)).outcome = .ok union → union.Same wrapped.remade := by
  have hwrapped : ∀ {wrapped}, (r.resolve context (.nullable expr)).outcome = .ok wrapped ↔
      ∃ inner, (r.resolve context expr).outcome = .ok inner ∧
        { inner with nullable := true } = wrapped := by
    intro wrapped
    simp only [resolve, Report.outcome_bind_ok_iff, Report.outcome_pure_ok_iff]
  simp only [hwrapped, resolve_union_null_ok_iff hmembers]
  refine ⟨⟨?_, ?_⟩, ?_⟩
  · intro hleft
    obtain ⟨_, inner, hinner, -⟩ := hleft
    exact ⟨_, hmixed, inner, hinner, rfl⟩
  · intro hright
    obtain ⟨_, -, inner, hinner, -⟩ := hright
    exact ⟨_, inner, hinner, rfl⟩
  · rintro _ _ ⟨inner, hinner, rfl⟩ ⟨-, other, hother, rfl⟩
    -- resolution has one outcome
    obtain rfl : inner = other := by
      rw [hinner] at hother
      exact Except.ok.inj hother
    exact same_combine_rest context (resolves_of_ok hinner).wellShaped

/-- A described list of texts keeps its values in both ways, and its description in one. -/
theorem same_remade_of_described :
    let expr : TypeExpr :=
      .described (.union [.literal (.str "on"), .literal (.str "off"), .identifier "null"]) "state"
    let members : List TypeExpr := [.identifier "null", expr]
    ∃ wrapped union, (({} : Resolver).resolve "$" (.nullable expr)).outcome = .ok wrapped ∧
      (({} : Resolver).resolve "$" (.union members)).outcome = .ok union ∧
      union.Same wrapped.remade ∧ wrapped.description = some ("state" : Text) := by
  intro expr members
  have hwrapped : ∃ wrapped,
      (({} : Resolver).resolve "$" (.nullable expr)).outcome = .ok wrapped ∧
        wrapped.description = some ("state" : Text) := ⟨_, rfl, rfl⟩
  obtain ⟨wrapped, hwrapped, hdescription⟩ := hwrapped
  have hmembers : members = [expr, .identifier "null"] ∨ members = [.identifier "null", expr] :=
    .inr rfl
  obtain ⟨hends, hsame⟩ := resolve_nullable_iff_union_null {} "$" (fun _ => rfl) hmembers
  obtain ⟨union, hunion⟩ := hends.mp ⟨wrapped, hwrapped⟩
  exact ⟨wrapped, union, hwrapped, hunion, hsame wrapped union hwrapped hunion, hdescription⟩

/-- An integer beside null loses its format, and a strict resolution takes a rooted `mixed` for the
name, as a member only. -/
theorem nullable_differs_from_union_null :
    (∃ wrapped union,
      (({} : Resolver).resolve "$" (.nullable (.literal (.int 5)))).outcome = .ok wrapped ∧
      (({} : Resolver).resolve "$"
        (.union [.literal (.int 5), .identifier "null"])).outcome = .ok union ∧
      union.same wrapped = false) ∧
    (∃ wrapped, (({ strict := true } : Resolver).resolve "$"
      (.nullable (.identifier "\\mixed"))).outcome = .ok wrapped) ∧
    ¬ ∃ union, (({ strict := true } : Resolver).resolve "$"
      (.union [.identifier "\\mixed", .identifier "null"])).outcome = .ok union := by
  refine ⟨⟨_, _, rfl, rfl, by decide⟩, ⟨_, rfl⟩, ?_⟩
  rintro ⟨union, hunion⟩
  have hfails := (resolve_union_null_ok_iff (.inl rfl)).mp hunion
  exact absurd (hfails.1 rfl) (by decide)

end Resolver

end Schemata
