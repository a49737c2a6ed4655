import Schemata.Proofs.Invariants
import Schemata.Proofs.Meaning

/-!
# The member lists of resolved schemas

Wherever a schema that resolution returns holds a list of members, it holds one such list only, and
the list is as short as it can be made (`Schema.WellCombined`):

* **members** — there are at least two, no two are the same, none is nullable, and the values of one
  type are listed in one place (`Schema.MemberList`);
* **the form** — the members of `oneOf` have types with different names, so that no value is described
  by two of them; in `anyOf` the names do not tell all members apart.

A list comes into being at a combination only. A combination that is left with one member returns it,
with the list that the member may hold itself, and makes no list of its own.
-/

namespace Schemata

namespace Schema

/-- A list of members with nothing in it that could be left out. -/
structure MemberList (members : List Schema) : Prop where
  several : 2 ≤ members.length
  distinct : members.Pairwise fun left right => left.same right = false ∧ right.same left = false
  notNullable : ∀ member ∈ members, member.nullable = false
  /-- Where values are listed, nothing else is said but the type. -/
  listed : ∀ member ∈ members, member.enum.isSome = true →
    member = { context := member.context, type := member.type, enum := member.enum }
  /-- A member that lists its values is the only one of its type. -/
  types : members.Pairwise fun left right =>
    left.enum.isSome = true ∨ right.enum.isSome = true → left.type ≠ right.type

/-- The lists of members at a root. -/
structure WellCombined (schema : Schema) : Prop where
  single : [schema.oneOf.isSome, schema.anyOf.isSome, schema.allOf.isSome].count true ≤ 1
  oneOf : ∀ members ∈ schema.oneOf, MemberList members ∧
    (∀ member ∈ members, member.typeName.isSome = true) ∧ (members.map typeName).Nodup ∧
    ∀ refs value, members.Pairwise fun left right =>
      ¬ (value ∈ left.values refs ∧ value ∈ right.values refs)
  anyOf : ∀ members ∈ schema.anyOf, MemberList members ∧
    ((∃ member ∈ members, member.typeName = none) ∨ ¬ (members.map typeName).Nodup)
  allOf : ∀ members ∈ schema.allOf, MemberList members

/-- Members are told apart by their types if each has a name and no two share one. -/
theorem areDistinguished_iff {members : List Schema} :
    areDistinguished members = true ↔
      (∀ member ∈ members, member.typeName.isSome = true) ∧ (members.map typeName).Nodup := by
  simp [areDistinguished]

/-- **No value is described by two members that their types tell apart.** -/
theorem pairwise_disjoint {members : List Schema} (h : areDistinguished members = true)
    (hnotNull : ∀ member ∈ members, member.nullable = false) (refs : Text → Set Json)
    (value : Json) :
    members.Pairwise fun left right =>
      ¬ (value ∈ left.values refs ∧ value ∈ right.values refs) := by
  obtain ⟨hnamed, hnames⟩ := areDistinguished_iff.mp h
  have hdistinct : members.Pairwise fun left right => left.typeName ≠ right.typeName :=
    List.pairwise_map.mp hnames
  refine hdistinct.imp_of_mem ?_
  rintro left right hleft hright hne ⟨hvalue, hvalue'⟩
  exact disjoint_of_typeName_ne (hnamed left hleft) (hnamed right hright) hne (hnotNull left hleft)
    (hnotNull right hright) hvalue hvalue'

theorem not_nullable_of_mem_merged {context : Text} {schemas : List Schema} {member : Schema}
    (h : member ∈ mergedMembers context (Members.gather schemas).schemas) :
    member.nullable = false := by
  rcases mem_merged_cases h with ⟨schema, -, rfl⟩ | ⟨type, -, rfl⟩
  · rfl
  · rfl

/-- Members that are gathered and merged make up such a list, if there are two of them. -/
theorem memberList_merged (context : Text) (schemas : List Schema)
    (hlength : 2 ≤ (mergedMembers context (Members.gather schemas).schemas).length) :
    MemberList (mergedMembers context (Members.gather schemas).schemas) := by
  have hdistinct := mergeEnums_pairwise_same context
    (deduplicate_pairwise (Members.gather schemas).schemas)
  refine ⟨hlength, hdistinct.imp ?_, ?_, ?_, mergeEnums_pairwise_type context _⟩
  · intro left right hdiffer
    exact ⟨hdiffer, Bool.eq_false_iff.mpr fun hsame =>
      Bool.eq_false_iff.mp hdiffer (same_symm hsame)⟩
  · exact fun member hmember => not_nullable_of_mem_merged hmember
  · intro member hmember hlisted
    rcases mem_mergeEnums_iff.mp hmember with ⟨-, hnone⟩ | ⟨type, -, rfl⟩
    · rw [hnone] at hlisted
      exact absurd hlisted (by simp)
    · rfl

namespace WellCombined

/-- Without a list there is nothing to check. -/
theorem of_none {schema : Schema} (honeOf : schema.oneOf = none) (hanyOf : schema.anyOf = none)
    (hallOf : schema.allOf = none) : WellCombined schema := by
  constructor <;> simp [honeOf, hanyOf, hallOf]

theorem relabel {schema : Schema} (context : Text) (nullable : Bool) (description : Option Text)
    (h : WellCombined schema) : WellCombined { schema with context, nullable, description } :=
  ⟨h.single, h.oneOf, h.anyOf, h.allOf⟩

theorem oneOf_merged (context : Text) (nullable : Bool) (schemas : List Schema)
    (hlength : 2 ≤ (mergedMembers context (Members.gather schemas).schemas).length)
    (htold : areDistinguished (mergedMembers context (Members.gather schemas).schemas) = true) :
    WellCombined
      { context, nullable,
        oneOf := some (mergedMembers context (Members.gather schemas).schemas) } := by
  have hlist := memberList_merged context schemas hlength
  refine ⟨by simp, fun members hmembers => ?_, by simp, by simp⟩
  obtain rfl := Option.mem_some.mp hmembers
  obtain ⟨hnamed, hnames⟩ := areDistinguished_iff.mp htold
  exact ⟨hlist, hnamed, hnames, pairwise_disjoint htold hlist.notNullable⟩

theorem anyOf_merged (context : Text) (nullable : Bool) (schemas : List Schema)
    (hlength : 2 ≤ (mergedMembers context (Members.gather schemas).schemas).length)
    (htold : areDistinguished (mergedMembers context (Members.gather schemas).schemas) = false) :
    WellCombined
      { context, nullable,
        anyOf := some (mergedMembers context (Members.gather schemas).schemas) } := by
  refine ⟨by simp, by simp, fun members hmembers => ?_, by simp⟩
  obtain rfl := Option.mem_some.mp hmembers
  refine ⟨memberList_merged context schemas hlength, ?_⟩
  -- otherwise the types would tell the members apart
  by_contra hneither
  obtain ⟨hnamed, hnames⟩ := not_or.mp hneither
  refine Bool.eq_false_iff.mp htold (areDistinguished_iff.mpr ⟨fun member hmember => ?_,
    not_not.mp hnames⟩)
  exact Option.isSome_iff_ne_none.mpr fun hnone => hnamed ⟨member, hmember, hnone⟩

/-- The state of the lists is an invariant of resolution. -/
theorem invariant : Invariant WellCombined where
  relabel := relabel
  builtin builtin := by cases builtin <;> exact of_none rfl rfl rfl
  reference context target := of_none rfl rfl rfl
  emptyList context := of_none rfl rfl rfl
  list context items := of_none rfl rfl rfl
  map context values := of_none rfl rfl rfl
  range context minimum maximum := of_none rfl rfl rfl
  shape context fields schemas _ := of_none rfl rfl rfl
  texts context texts _ := by
    unfold ofTextLiterals
    split <;> exact of_none rfl rfl rfl
  ints context values _ := of_none rfl rfl rfl
  pooled context members type _ _ := of_none rfl rfl rfl
  null context nullable := of_none rfl rfl rfl
  allOf context nullable schemas hlength := by
    refine ⟨by simp, by simp, by simp, fun members hmembers => ?_⟩
    obtain rfl := Option.mem_some.mp hmembers
    exact memberList_merged context schemas hlength
  oneOf := oneOf_merged
  anyOf := anyOf_merged

end WellCombined

end Schema

namespace Resolver

open Schema

/-- **The lists of members in what resolution returns are in that state, at the root and everywhere
inside.** -/
theorem resolve_wellCombined {r : Resolver} {context : Text} {expr : TypeExpr} {schema : Schema}
    (h : (r.resolve context expr).outcome = .ok schema) :
    ∀ part, Subtree part schema → WellCombined part :=
  (resolves_of_ok h).throughout WellCombined.invariant

/-- A union in which an intersection stands beside literals of two types and null. -/
theorem wellCombined_of_union :
    let expr : TypeExpr := .union
      [.nullable (.intersection [.identifier "string", .arrayOf (.identifier "int")]),
        .literal (.str "on"), .identifier "true", .literal (.str "off"), .identifier "null"]
    ∃ schema, (({} : Resolver).resolve "$" expr).outcome = .ok schema ∧
      ∀ part, Subtree part schema → WellCombined part := by
  intro expr
  have hends : ∃ schema, (({} : Resolver).resolve "$" expr).outcome = .ok schema := ⟨_, rfl⟩
  obtain ⟨schema, h⟩ := hends
  exact ⟨schema, h, resolve_wellCombined h⟩

end Resolver

end Schemata
