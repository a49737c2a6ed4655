import Schemata.Proofs.Combinators
import Schemata.Proofs.WellShaped

/-!
# What a union describes

A union describes what its members describe, put together from what `Schema.combine` leaves of them:

* **merging** — a member without a list covers the listed values of its type, unless they are
  integers, for which it may have bounds (`Schema.WellShaped.covers`). So merged members describe what
  the members describe, but for lists of integers beside a range (`Schema.IsDropped`);
* **gathering** — without null, a schema is a member unless nothing is left of it
  (`Schema.mem_gather_iff`). A resolved schema that does not say what it describes is null under some
  label (`Resolver.Resolves.regular`), and a label is enough to be left;
* **the form** — whatever the form, the union describes null if a member does, and what its merged
  members describe (`Schema.mem_combine_values_iff`). In `oneOf` this is because the types tell the
  members apart.

The values that are left are those that survive (`Schema.Survives`).
-/

namespace Schemata

open List (Forall₂)

namespace Schema

variable {refs : Text → Set Json}

/-! ## Labels, null and types -/

/-- The context, the description and null do not count for the keywords. -/
theorem admits_relabel {schema : Schema} {context : Text} {nullable : Bool}
    {description : Option Text} {value : Json} :
    ({ schema with context, nullable, description } : Schema).Admits refs value ↔
      schema.Admits refs value := by
  constructor <;> intro h <;>
    exact ⟨h.ref, h.type, h.enum, h.minimum, h.maximum, h.minLength, h.maxItems, h.required, h.items,
      h.properties, h.additional, h.oneOf, h.anyOf, h.allOf⟩

theorem mem_values_of_not_nullable {schema : Schema} (h : schema.nullable = false) {value : Json} :
    value ∈ schema.values refs ↔ schema.Admits refs value := by
  simp [mem_values_iff, h]

/-- Without keywords every value is admitted. -/
theorem admits_empty (context : Text) (description : Option Text) (value : Json) :
    ({ context, description } : Schema).Admits refs value := by
  constructor <;> simp [additionalValues]

theorem admits_oneOf {context : Text} {nullable : Bool} {members : List Schema} {value : Json} :
    ({ context, nullable, oneOf := some members } : Schema).Admits refs value ↔
      InExactlyOne (members.map (values refs)) value := by
  refine ⟨fun h => h.oneOf members rfl, fun h => ?_⟩
  constructor <;> simp [additionalValues, h]

theorem admits_anyOf {context : Text} {nullable : Bool} {members : List Schema} {value : Json} :
    ({ context, nullable, anyOf := some members } : Schema).Admits refs value ↔
      ∃ member ∈ members, value ∈ member.values refs := by
  refine ⟨fun h => h.anyOf members rfl, fun h => ?_⟩
  constructor <;> simp [additionalValues]
  exact h

/-- The type of null, under some label. -/
def IsNull (schema : Schema) : Prop :=
  ∃ context description, schema = { context, nullable := true, description }

theorem IsNull.mem_values_iff {schema : Schema} (h : schema.IsNull) {value : Json} :
    value ∈ schema.values refs ↔ value = .null := by
  obtain ⟨context, description, rfl⟩ := h
  simp [Schema.mem_values_iff, isConstrained]

/-- For a type without parts, only the bounds and the list of values count beside the type. -/
theorem WellShaped.admits_iff {schema : Schema} {type : Text} (h : schema.WellShaped)
    (htype : schema.type = some type) (harray : type ≠ "array") (hobject : type ≠ "object")
    {value : Json} :
    schema.Admits refs value ↔ value.hasType type = true ∧
      (∀ allowed ∈ schema.enum, ∃ literal ∈ allowed, literal.same value = true) ∧
      (∀ bound ∈ schema.minimum, value.isAtLeast bound = true) ∧
      (∀ bound ∈ schema.maximum, value.isAtMost bound = true) ∧
      ∀ length ∈ schema.minLength, value.isAsLongAs length = true := by
  constructor
  · intro hadmits
    exact ⟨hadmits.type type htype, hadmits.enum, hadmits.minimum, hadmits.maximum,
      hadmits.minLength⟩
  · intro hright
    rcases hright with ⟨hvalue, henum, hminimum, hmaximum, hminLength⟩
    -- the other fields go with another kind of schema or with another type
    obtain ⟨href, honeOf, hanyOf, hallOf⟩ := h.alone (by simp [htype])
    have helements := h.elements
    have hfields := h.fields
    simp only [htype, Option.some.injEq, harray, hobject, imp_false, not_or, Bool.not_eq_true,
      Option.isSome_eq_false_iff, Option.isNone_iff_eq_none] at helements hfields
    obtain ⟨hitems, hmaxItems⟩ := helements
    obtain ⟨hproperties, hrequired, hadditional⟩ := hfields
    have htyped : ∀ name ∈ schema.type, value.hasType name = true := by simpa [htype] using hvalue
    constructor <;> first | assumption | simp_all [additionalValues]

/-! ## Lists of values and ranges -/

/-- A member that lists integers. -/
def ListsIntegers (schema : Schema) : Prop :=
  schema.type = some ("integer" : Text) ∧ schema.enum.isSome = true

/-- A member that describes integers without a list, perhaps within bounds. -/
def IsIntegerRange (schema : Schema) : Prop :=
  schema.type = some ("integer" : Text) ∧ schema.enum = none

/-- Among these members, the list of one of them is dropped for a range. -/
def IsDropped (members : List Schema) (member : Schema) : Prop :=
  member.ListsIntegers ∧ ∃ range ∈ members, range.IsIntegerRange

/-- Listed values need their type and their place in the list. -/
theorem WellShaped.admits_listed_iff {schema : Schema} {values : List Json} (h : schema.WellShaped)
    (hvalues : schema.enum = some values) {value : Json} :
    schema.Admits refs value ↔ ∃ type ∈ literalTypes, schema.type = some type ∧
      value.hasType type = true ∧ ∃ literal ∈ values, literal.same value = true := by
  obtain ⟨-, ⟨type, htype, hschema, -⟩, hminimum, hmaximum, hminLength⟩ := h.enum values hvalues
  obtain ⟨-, harray, hobject⟩ := simple_of_mem_literalTypes htype
  rw [h.admits_iff hschema harray hobject]
  simp [hvalues, hminimum, hmaximum, hminLength, hschema, htype]

/-- **A member without a list covers the values of its type that others list, unless they are
integers.** A text that may be listed is not empty. -/
theorem WellShaped.covers {left right : Schema} (hleft : left.WellShaped)
    (hright : right.WellShaped) (hlisted : left.enum.isSome = true) (hplain : right.enum = none)
    (htypes : right.type = left.type) (hinteger : ¬ left.ListsIntegers) {value : Json}
    (h : left.Admits refs value) : right.Admits refs value := by
  obtain ⟨values, hvalues⟩ := Option.isSome_iff_exists.mp hlisted
  obtain ⟨type, hliteral, htype, hvalue, literal, hmem, hsame⟩ :=
    (hleft.admits_listed_iff hvalues).mp h
  have hnotInteger : type ≠ "integer" := by
    rintro rfl
    exact hinteger ⟨htype, hlisted⟩
  have hright' : right.type = some type := htypes.trans htype
  have hbounds : right.minimum = none ∧ right.maximum = none := by
    have hbounds := hright.bounds
    simpa [hright', hnotInteger] using hbounds
  obtain ⟨-, harray, hobject⟩ := simple_of_mem_literalTypes hliteral
  rw [hright.admits_iff hright' harray hobject]
  refine ⟨hvalue, by simp [hplain], by simp [hbounds], by simp [hbounds], fun length hlength => ?_⟩
  -- the only length that occurs is one
  obtain ⟨hstring, rfl⟩ := hright.minLength length hlength
  rw [hright', Option.some.injEq] at hstring
  subst hstring
  cases value with
  | str text =>
      obtain ⟨-, ⟨name, -, hname, hall⟩, -⟩ := hleft.enum values hvalues
      rw [htype, Option.some.injEq] at hname
      have hback := (Json.same_equivalentAt literal).symm hsame
      rw [Json.same_str_iff.mp hback] at hmem
      have hliteral := hall _ hmem
      simp only [Json.isLiteralOf, Bool.and_eq_true, Bool.not_eq_true', List.isEmpty_eq_false_iff]
        at hliteral
      exact Json.isAsLongAs_one_iff.mpr hliteral.2
  | _ => simp [Json.isAsLongAs]

/-! ## Merging -/

/-- A pool describes what the members that are pooled describe. -/
theorem pooled_admits_iff {context : Text} {members : List Schema} {type : Option Text}
    (hshape : ∀ member ∈ members, member.WellShaped) (hopen : type ∈ openTypes members)
    {value : Json} :
    (pooled context members type).Admits refs value ↔
      ∃ member ∈ members, member.enum.isSome = true ∧ member.type = type ∧
        member.Admits refs value := by
  rw [(WellShaped.pooled context members type hshape hopen).admits_listed_iff rfl]
  constructor
  · intro hleft
    rcases hleft with ⟨name, hname, rfl, hvalue, literal, hliteral, hsame⟩
    obtain ⟨member, hmem, htype, values, hvalues, hliteral⟩ := mem_pool.mp hliteral
    exact ⟨member, hmem, by simp [Option.mem_def.mp hvalues], htype,
      ((hshape member hmem).admits_listed_iff hvalues).mpr
        ⟨name, hname, htype, hvalue, literal, hliteral, hsame⟩⟩
  · intro hright
    rcases hright with ⟨member, hmem, hlisted, rfl, hadmits⟩
    obtain ⟨values, hvalues⟩ := Option.isSome_iff_exists.mp hlisted
    obtain ⟨name, hname, htype, hvalue, literal, hliteral, hsame⟩ :=
      ((hshape member hmem).admits_listed_iff hvalues).mp hadmits
    exact ⟨name, hname, htype, hvalue, literal,
      mem_pool.mpr ⟨member, hmem, rfl, values, hvalues, hliteral⟩, hsame⟩

/-- **Merged members describe what the members describe, but for integers that are listed beside a
range.** -/
theorem exists_admits_mergeEnums_iff {context : Text} {members : List Schema}
    (hshape : ∀ member ∈ members, member.WellShaped) {value : Json} :
    (∃ merged ∈ mergeEnums context members, merged.Admits refs value) ↔
      ∃ member ∈ members, member.Admits refs value ∧ ¬ IsDropped members member := by
  constructor
  · intro hleft
    rcases hleft with ⟨merged, hmerged, hvalue⟩
    rcases mem_mergeEnums_iff.mp hmerged with ⟨hmem, hplain⟩ | ⟨type, hopen, rfl⟩
    · refine ⟨merged, hmem, hvalue, fun hdropped => ?_⟩
      have hlisted := hdropped.1.2
      simp [hplain] at hlisted
    · obtain ⟨member, hmem, -, rfl, hadmits⟩ := (pooled_admits_iff hshape hopen).mp hvalue
      refine ⟨member, hmem, hadmits, ?_⟩
      intro hdropped
      rcases hdropped with ⟨⟨hinteger, -⟩, range, hrange, hrangeType, hplain⟩
      exact (mem_openTypes.mp hopen).2 range hrange hplain (hrangeType.trans hinteger.symm)
  · intro hright
    rcases hright with ⟨member, hmem, hvalue, hkept⟩
    by_cases hlisted : member.enum.isSome = true
    · by_cases hopen : member.type ∈ openTypes members
      · exact ⟨_, mem_mergeEnums_iff.mpr (.inr ⟨_, hopen, rfl⟩),
          (pooled_admits_iff hshape hopen).mpr ⟨member, hmem, hlisted, rfl, hvalue⟩⟩
      · -- a member without a list has the type, and this one is not dropped for it
        obtain ⟨plain, hplain, hnone, htype⟩ := exists_plain_of_not_open hmem hlisted hopen
        refine ⟨plain, mem_mergeEnums_iff.mpr (.inl ⟨hplain, hnone⟩), ?_⟩
        refine (hshape member hmem).covers (hshape plain hplain) hlisted hnone htype ?_ hvalue
        exact fun hlists => hkept ⟨hlists, plain, hplain, htype.trans hlists.1, hnone⟩
    · exact ⟨member, mem_mergeEnums_iff.mpr (.inl ⟨hmem, by simpa using hlisted⟩), hvalue⟩

/-- Repetitions do not count. -/
theorem isDropped_deduplicate_iff {members : List Schema} {member kept : Schema}
    (hsame : Same member kept) : IsDropped (deduplicate members) kept ↔ IsDropped members member := by
  have hlists : kept.ListsIntegers ↔ member.ListsIntegers := by
    rw [ListsIntegers, ListsIntegers, (same_iff.mp hsame).type, hsame.enum_isSome_eq]
  refine and_congr hlists ⟨?_, ?_⟩
  · intro hleft
    rcases hleft with ⟨range, hmem, hrange⟩
    exact ⟨range, mem_of_mem_deduplicate hmem, hrange⟩
  · intro hright
    rcases hright with ⟨range, hmem, htype, hplain⟩
    obtain ⟨other, hother, hsame⟩ := exists_same_of_mem hmem
    have henum := hsame.enum_isSome_eq
    rw [hplain] at henum
    exact ⟨other, hother, (same_iff.mp hsame).type ▸ htype, by simpa using henum.symm⟩

theorem exists_admits_merged_iff {context : Text} {members : List Schema}
    (hshape : ∀ member ∈ members, member.WellShaped) {value : Json} :
    (∃ merged ∈ mergedMembers context members, merged.Admits refs value) ↔
      ∃ member ∈ members, member.Admits refs value ∧ ¬ IsDropped members member := by
  rw [mergedMembers, exists_admits_mergeEnums_iff fun kept hkept =>
    hshape kept (mem_of_mem_deduplicate hkept)]
  constructor
  · intro hleft
    rcases hleft with ⟨kept, hkept, hvalue, hleft⟩
    have hself : Same kept kept := (same_equivalentAt kept).refl
    exact ⟨kept, mem_of_mem_deduplicate hkept, hvalue,
      mt (isDropped_deduplicate_iff hself).mpr hleft⟩
  · intro hright
    rcases hright with ⟨member, hmem, hvalue, hleft⟩
    obtain ⟨kept, hkept, hsame⟩ := exists_same_of_mem hmem
    exact ⟨kept, hkept, hsame.admits_iff.mp hvalue, mt (isDropped_deduplicate_iff hsame).mp hleft⟩

/-! ## Gathering -/

/-- Literals have a type. -/
theorem isConstrained_of_literals {context : Text} {members : List TypeExpr} {schema : Schema}
    (h : ofLiterals? context members = some schema) : schema.isConstrained = true := by
  obtain ⟨-, ⟨texts, -, rfl⟩ | ⟨values, -, rfl⟩⟩ := ofLiterals?_eq_some_iff.mp h
  · simp [isConstrained, ofTextLiterals_type]
  · simp [isConstrained, ofIntLiterals, int64]

/-- A schema that does not say what it describes describes null. -/
structure Regular (schema : Schema) : Prop where
  shape : schema.WellShaped
  null : schema.isConstrained = false → schema.IsNull

theorem Regular.mem_values_iff {schema : Schema} (h : schema.Regular) {value : Json} :
    value ∈ schema.values refs ↔
      schema.nullable = true ∧ value = .null ∨
        schema.isConstrained = true ∧ schema.Admits refs value := by
  rw [Schema.mem_values_iff]
  refine or_congr_right (and_congr_left fun _ =>
    ⟨fun himp => ?_, fun hconstrained _ => hconstrained⟩)
  by_contra hfree
  obtain ⟨context, description, rfl⟩ := h.null (by simpa using hfree)
  exact hfree (himp rfl)

/-- A schema that is made nullable describes null besides. -/
theorem Regular.values_nullable {schema : Schema} (h : schema.Regular) :
    ({ schema with nullable := true } : Schema).values refs = insert .null (schema.values refs) := by
  ext value
  rw [Schema.mem_values_iff, Set.mem_insert_iff, h.mem_values_iff]
  constructor
  · intro hleft
    rcases hleft with ⟨-, rfl⟩ | ⟨hconstrained, hadmits⟩
    · exact .inl rfl
    · exact .inr (.inr ⟨hconstrained rfl, admits_relabel.mp hadmits⟩)
  · intro hright
    rcases hright with rfl | ⟨-, rfl⟩ | ⟨hconstrained, hadmits⟩
    · exact .inl ⟨rfl, rfl⟩
    · exact .inl ⟨rfl, rfl⟩
    · exact .inr ⟨fun _ => hconstrained, admits_relabel.mpr hadmits⟩

/-- Something is left of a schema without null. -/
def HasRest (schema : Schema) : Prop :=
  schema.isConstrained = true ∨ schema.description.isSome = true

/-- What makes a schema constrained tells it from the empty schema. -/
theorem not_same_empty {schema : Schema} (h : schema.isConstrained = true) :
    schema.same {} = false := by
  refine Bool.eq_false_iff.mpr fun hsame => ?_
  have hfree : schema.isConstrained = false := (same_iff.mp hsame).isConstrained_eq
  exact Bool.false_ne_true (hfree.symm.trans h)

/-- The members are what is left of the schemas without null. -/
theorem mem_gather_iff {schemas : List Schema} (h : ∀ schema ∈ schemas, schema.Regular)
    {member : Schema} :
    member ∈ (Members.gather schemas).schemas ↔
      ∃ schema ∈ schemas, schema.HasRest ∧ member = { schema with nullable := false } := by
  have hrest : ∀ schema ∈ schemas, ((schema.nullable = true →
      ({ schema with nullable := false } : Schema).same {} = false) ↔ schema.HasRest) := by
    intro schema hschema
    by_cases hfree : schema.isConstrained = false
    · obtain ⟨context, description, rfl⟩ := (h schema hschema).null hfree
      simp [HasRest, isConstrained, same_empty]
    · have hconstrained : schema.isConstrained = true := by simpa using hfree
      exact iff_of_true (fun _ => not_same_empty hconstrained) (.inl hconstrained)
  rw [Members.mem_gather]
  constructor
  · intro hleft
    rcases hleft with ⟨schema, hschema, rfl, hleft⟩
    exact ⟨schema, hschema, (hrest schema hschema).mp hleft, rfl⟩
  · intro hright
    rcases hright with ⟨schema, hschema, hleft, rfl⟩
    exact ⟨schema, hschema, rfl, (hrest schema hschema).mpr hleft⟩

theorem wellShaped_of_mem_gather {schemas : List Schema} (h : ∀ schema ∈ schemas, schema.Regular) :
    ∀ member ∈ (Members.gather schemas).schemas, member.WellShaped := by
  intro member hmember
  obtain ⟨schema, hschema, -, rfl⟩ := (mem_gather_iff h).mp hmember
  exact (h schema hschema).shape.relabel _ _ _

/-- Null does not count. -/
theorem isDropped_gather_iff {schemas : List Schema} (h : ∀ schema ∈ schemas, schema.Regular)
    {schema : Schema} :
    IsDropped (Members.gather schemas).schemas { schema with nullable := false } ↔
      IsDropped schemas schema := by
  refine and_congr_right fun _ => ⟨?_, ?_⟩
  · intro hleft
    rcases hleft with ⟨range, hmem, hrange⟩
    obtain ⟨other, hother, -, rfl⟩ := (mem_gather_iff h).mp hmem
    exact ⟨other, hother, hrange⟩
  · intro hright
    rcases hright with ⟨range, hmem, hrange⟩
    have hrest : range.HasRest := .inl (by simp [isConstrained, hrange.1])
    exact ⟨_, (mem_gather_iff h).mpr ⟨range, hmem, hrest, rfl⟩, hrange⟩

theorem exists_admits_gathered_iff {context : Text} {schemas : List Schema}
    (h : ∀ schema ∈ schemas, schema.Regular) {value : Json} :
    (∃ merged ∈ mergedMembers context (Members.gather schemas).schemas,
        merged.Admits refs value) ↔
      ∃ schema ∈ schemas, schema.HasRest ∧ schema.Admits refs value ∧
        ¬ IsDropped schemas schema := by
  rw [exists_admits_merged_iff (wellShaped_of_mem_gather h)]
  constructor
  · intro hleft
    rcases hleft with ⟨member, hmem, hvalue, hleft⟩
    obtain ⟨schema, hschema, hrest, rfl⟩ := (mem_gather_iff h).mp hmem
    exact ⟨schema, hschema, hrest, admits_relabel.mp hvalue, mt (isDropped_gather_iff h).mpr hleft⟩
  · intro hright
    rcases hright with ⟨schema, hschema, hrest, hvalue, hleft⟩
    exact ⟨_, (mem_gather_iff h).mpr ⟨schema, hschema, hrest, rfl⟩, admits_relabel.mpr hvalue,
      mt (isDropped_gather_iff h).mp hleft⟩

/-! ## The form -/

/-- A schema that says what it describes leaves a member that does. -/
theorem exists_constrained_merged (context : Text) {schemas : List Schema}
    (h : ∀ schema ∈ schemas, schema.Regular)
    (hconstrained : ∃ schema ∈ schemas, schema.isConstrained = true) :
    ∃ merged ∈ mergedMembers context (Members.gather schemas).schemas,
      merged.isConstrained = true := by
  obtain ⟨schema, hschema, hconstrained⟩ := hconstrained
  have hmem := (mem_gather_iff h).mpr ⟨schema, hschema, .inl hconstrained, rfl⟩
  obtain ⟨kept, hkept, hsame⟩ := exists_same_of_mem hmem
  obtain ⟨merged, hmerged, htype, hplain⟩ := exists_merged_of_mem context hkept
  have hkeptConstrained : kept.isConstrained = true :=
    (same_iff.mp hsame).isConstrained_eq.symm.trans hconstrained
  refine ⟨merged, hmerged, ?_⟩
  cases hlisted : kept.enum with
  | none => rwa [hplain hlisted]
  | some values =>
      have hshape := wellShaped_of_mem_gather h kept (mem_of_mem_deduplicate hkept)
      obtain ⟨-, ⟨type, -, hkeptType, -⟩, -⟩ := hshape.enum values hlisted
      simp [isConstrained, htype, hkeptType]

/-- What null alone is combined to is null. -/
theorem isNull_combine {context : Text} {schemas : List Schema} {junction : Junction}
    (hne : schemas ≠ []) (h : ∀ schema ∈ schemas, schema.Regular)
    (hfree : (combine context (Members.gather schemas).schemas (Members.gather schemas).nullable
      junction).isConstrained = false) :
    (combine context (Members.gather schemas).schemas (Members.gather schemas).nullable
      junction).IsNull := by
  have hnull : ∀ schema ∈ schemas, schema.isConstrained = false →
      (Members.gather schemas).nullable = true := by
    intro schema hschema hschemaFree
    obtain ⟨_, _, rfl⟩ := (h schema hschema).null hschemaFree
    rw [Members.gather_nullable, List.any_eq_true]
    exact ⟨_, hschema, rfl⟩
  rcases combine_cases context (Members.gather schemas).schemas (Members.gather schemas).nullable
    junction with ⟨hnone, heq⟩ | ⟨member, hmem, -, heq⟩ |
      ⟨-, ⟨-, heq⟩ | ⟨-, -, heq⟩ | ⟨-, -, heq⟩⟩ <;> rw [heq] at hfree ⊢
  · obtain ⟨schema, hschema⟩ := List.exists_mem_of_ne_nil schemas hne
    rw [hnull schema hschema]
    · exact ⟨context, none, rfl⟩
    · by_contra hconstrained
      obtain ⟨merged, hmerged, -⟩ := exists_constrained_merged context h
        ⟨schema, hschema, by simpa using hconstrained⟩
      simp [hnone] at hmerged
  · rcases mem_merged_cases hmem with ⟨schema, hschema, rfl⟩ | ⟨type, hopen, rfl⟩
    · rw [hnull schema hschema hfree]
      obtain ⟨context, description, rfl⟩ := (h schema hschema).null hfree
      exact ⟨context, description, rfl⟩
    · -- a pool has a type
      have hshape := WellShaped.pooled context _ type
        (fun kept hkept => wellShaped_of_mem_gather h kept (mem_of_mem_deduplicate hkept)) hopen
      obtain ⟨-, ⟨name, -, htype, -⟩, -⟩ := hshape.enum _ rfl
      simp [isConstrained, htype] at hfree
  all_goals simp [isConstrained] at hfree

/-- **A union describes null if one of its members is nullable, and else what its merged members
describe.** -/
theorem mem_combine_values_iff {context : Text} {schemas : List Schema}
    (h : ∃ merged ∈ mergedMembers context (Members.gather schemas).schemas,
      merged.isConstrained = true) {value : Json} :
    value ∈ (combine context (Members.gather schemas).schemas (Members.gather schemas).nullable
        .union).values refs ↔
      (∃ schema ∈ schemas, schema.nullable = true) ∧ value = .null ∨
        ∃ merged ∈ mergedMembers context (Members.gather schemas).schemas,
          merged.Admits refs value := by
  have hnull : (Members.gather schemas).nullable = true ↔
      ∃ schema ∈ schemas, schema.nullable = true := by
    simp [Members.gather_nullable]
  have hmember : (∃ merged ∈ mergedMembers context (Members.gather schemas).schemas,
      value ∈ merged.values refs) ↔
        ∃ merged ∈ mergedMembers context (Members.gather schemas).schemas,
          merged.Admits refs value :=
    exists_congr fun merged => and_congr_right fun hmem =>
      mem_values_of_not_nullable (not_nullable_of_mem_merged hmem)
  rcases combine_cases context (Members.gather schemas).schemas (Members.gather schemas).nullable
    .union with ⟨hnone, heq⟩ | ⟨member, -, hsingle, heq⟩ |
      ⟨-, ⟨hjunction, -⟩ | ⟨-, htold, heq⟩ | ⟨-, -, heq⟩⟩
  · simp [hnone] at h
  · -- the only member is no null type, so the flag adds null and nothing else
    obtain ⟨only, honly, hconstrained⟩ := h
    rw [hsingle, List.mem_singleton] at honly
    subst honly
    rw [heq, mem_values_iff, hnull]
    simp only [hsingle, List.mem_singleton, exists_eq_left]
    refine or_congr_right (Iff.trans (and_iff_right fun _ => hconstrained) ?_)
    exact admits_relabel
  · cases hjunction
  · -- the types tell the members apart, so no value is in two of them
    have hdisjoint := pairwise_disjoint htold (fun _ hmem => not_nullable_of_mem_merged hmem) refs
      value
    rw [heq, mem_values_iff, hnull, admits_oneOf,
      inExactlyOne_iff_of_pairwise (List.pairwise_map.mpr hdisjoint), ← hmember]
    simp [isConstrained]
  · rw [heq, mem_values_iff, hnull, admits_anyOf, ← hmember]
    simp [isConstrained]

/-- What a union leaves of its members describes the value: null is hoisted, and a member that admits
the value is not dropped. -/
def Survives (refs : Text → Set Json) (schemas : List Schema) (value : Json) : Prop :=
  (∃ schema ∈ schemas, schema.nullable = true) ∧ value = .null ∨
    ∃ schema ∈ schemas, schema.HasRest ∧ schema.Admits refs value ∧ ¬ IsDropped schemas schema

/-- **A union describes the values that survive**, unless all its members are null. -/
theorem mem_combine_iff_survives {context : Text} {schemas : List Schema}
    (h : ∀ schema ∈ schemas, schema.Regular)
    (hconstrained : ∃ schema ∈ schemas, schema.isConstrained = true) {value : Json} :
    value ∈ (combine context (Members.gather schemas).schemas (Members.gather schemas).nullable
        .union).values refs ↔ Survives refs schemas value := by
  rw [mem_combine_values_iff (exists_constrained_merged context h hconstrained),
    exists_admits_gathered_iff h, Survives]

end Schema

namespace Resolver

open Schema

/-! ## Resolved schemas -/

variable {r : Resolver} {context : Text}

theorem Resolves.wellShaped {expr : TypeExpr} {schema : Schema}
    (h : r.Resolves context expr schema) : schema.WellShaped :=
  h.throughout WellShaped.invariant schema (.refl schema)

/-- What is resolved says what it describes, or it describes null. -/
theorem Resolves.regular {expr : TypeExpr} {schema : Schema}
    (h : r.Resolves context expr schema) : schema.Regular := by
  refine ⟨h.wellShaped, fun hfree => ?_⟩
  induction h with
  | builtin _ _ =>
      rename_i builtin _ _
      cases builtin <;> simp [Builtin.schema, isConstrained, int64] at hfree
      exact ⟨_, none, rfl⟩
  | qualified _ ih => exact ih hfree
  | nullable _ ih =>
      obtain ⟨context, description, rfl⟩ := ih hfree
      exact ⟨context, description, rfl⟩
  | described _ ih =>
      obtain ⟨context, description, rfl⟩ := ih hfree
      exact ⟨context, _, rfl⟩
  | literal hschema => simp [isConstrained_of_literals (ofLiterals?_singleton hschema)] at hfree
  | literals hschema => simp [isConstrained_of_literals hschema] at hfree
  | union hne _ _ hlength hall ih | intersection hne _ hlength hall ih =>
      refine isNull_combine ?_ (fun schema hschema => ?_) hfree
      · rw [← List.length_pos_iff, ← hlength]
        exact List.length_pos_iff.mpr hne
      · obtain ⟨member, hpair⟩ := exists_part_of_mem hlength hschema
        exact ⟨(hall _ hpair).wellShaped, ih _ hpair⟩
  | _ => simp [isConstrained, ofShape, int64] at hfree

end Resolver

end Schemata
