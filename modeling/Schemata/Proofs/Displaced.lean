import Schemata.Proofs.Unions

/-!
# What a union loses

A union that resolution returns describes whatever its members describe, with one exception, which
the rule for lists of values beside a member without a list makes: an integer that is listed and is
out of the bounds of the range beside it.

* **literals** — a union of literals alone is one list; it loses nothing
  (`Resolver.mem_ofLiterals_iff`);
* **displaced integers** — those that only lists describe, in a union with a range
  (`Schema.Displaced`). Texts, truth values and null are never displaced, and a range without bounds
  displaces nothing (`Schema.not_displaced_of_unbounded`);
* **the law** — of what its members describe, a union describes exactly what is not displaced
  (`Resolver.mem_union_iff_not_displaced`), and nothing else, unless a member is null with a
  description (`Resolver.exists_mem_of_mem_union`).
-/

namespace Schemata

open List (Forall₂)

namespace Schema

variable {refs : Text → Set Json}

/-! ## Literals and ranges -/

theorem mem_ofTextLiterals_iff {context : Text} {texts : List Text} (hne : texts ≠ [])
    {value : Json} :
    value ∈ (ofTextLiterals context texts).values refs ↔
      ∃ text, value = .str text ∧ (text ∈ texts ∨ [] ∈ texts) := by
  have hshape := WellShaped.texts context texts hne
  have htype := ofTextLiterals_type context texts
  unfold ofTextLiterals at hshape htype ⊢
  split
  · next hempty =>
    rw [if_pos hempty] at hshape htype
    rw [mem_values_of_not_nullable rfl, hshape.admits_iff htype (by simp) (by simp),
      Json.hasType_string_iff]
    simp [hempty]
  · next hempty =>
    rw [if_neg hempty] at hshape htype
    rw [mem_values_of_not_nullable rfl, hshape.admits_iff htype (by simp) (by simp),
      Json.hasType_string_iff]
    constructor
    · intro hleft
      rcases hleft with ⟨⟨text, rfl⟩, hlisted, -⟩
      obtain ⟨literal, hliteral, hsame⟩ := hlisted _ rfl
      obtain ⟨other, hother, rfl⟩ := List.mem_map.mp hliteral
      exact ⟨text, rfl, .inl (Json.same_str_str_iff.mp hsame ▸ hother)⟩
    · intro hright
      rcases hright with ⟨text, rfl, hmem⟩
      refine ⟨⟨text, rfl⟩, ?_, by simp, by simp, by simp⟩
      simpa using hmem.resolve_right hempty

theorem mem_ofIntLiterals_iff {context : Text} {values : List Int} (hne : values ≠ [])
    {value : Json} :
    value ∈ (ofIntLiterals context values).values refs ↔
      ∃ number ∈ values, value = .int number := by
  have hshape := WellShaped.ints context values hne
  rw [mem_values_of_not_nullable rfl, hshape.admits_iff rfl (by simp) (by simp),
    Json.hasType_integer_iff]
  constructor
  · intro hleft
    rcases hleft with ⟨⟨number, rfl⟩, hlisted, -⟩
    obtain ⟨literal, hliteral, hsame⟩ := hlisted _ rfl
    obtain ⟨other, hother, rfl⟩ := List.mem_map.mp hliteral
    exact ⟨number, Json.same_int_int_iff.mp hsame ▸ hother, rfl⟩
  · intro hright
    rcases hright with ⟨number, hmem, rfl⟩
    refine ⟨⟨number, rfl⟩, ?_, by simp [ofIntLiterals, int64], by simp [ofIntLiterals, int64],
      by simp [ofIntLiterals, int64]⟩
    simpa [ofIntLiterals] using hmem

theorem mem_range_iff {context : Text} {minimum maximum : Option Int} {value : Json} :
    value ∈ ({ int64 with context, minimum, maximum } : Schema).values refs ↔
      ∃ number, value = .int number ∧ (∀ bound ∈ minimum, bound ≤ number) ∧
        ∀ bound ∈ maximum, number ≤ bound := by
  rw [mem_values_of_not_nullable rfl,
    (WellShaped.invariant.range context minimum maximum).admits_iff rfl (by simp) (by simp),
    Json.hasType_integer_iff]
  constructor
  · intro hleft
    rcases hleft with ⟨⟨number, rfl⟩, -, hminimum, hmaximum, -⟩
    exact ⟨number, rfl, by simpa [Json.isAtLeast] using hminimum,
      by simpa [Json.isAtMost] using hmaximum⟩
  · intro hright
    rcases hright with ⟨number, rfl, hminimum, hmaximum⟩
    exact ⟨⟨number, rfl⟩, by simp [int64], by simpa [Json.isAtLeast] using hminimum,
      by simpa [Json.isAtMost] using hmaximum, by simp [int64]⟩

/-! ## Displaced integers -/

/-- An integer that no member describes but those that list it, where another member stands for all
integers, or for those within bounds: the lists are dropped for it. -/
structure Displaced (refs : Text → Set Json) (schemas : List Schema) (value : Json) : Prop where
  integer : ∃ number, value = .int number
  described : ∃ schema ∈ schemas, value ∈ schema.values refs
  listed : ∀ schema ∈ schemas, value ∈ schema.values refs → schema.ListsIntegers
  range : ∃ schema ∈ schemas, schema.IsIntegerRange
  /-- Without null, a described null is left that describes everything. -/
  bare : ∀ schema ∈ schemas, schema.IsNull → schema.description = none

/-- A range without bounds displaces nothing: it describes every integer that is listed. -/
theorem not_displaced_of_unbounded {schemas : List Schema}
    (h : ∀ schema ∈ schemas, schema.Regular)
    (hbounds : ∀ listed ∈ schemas, listed.ListsIntegers → ∀ range ∈ schemas, range.IsIntegerRange →
      range.minimum = none ∧ range.maximum = none) (value : Json) :
    ¬ Displaced refs schemas value := by
  intro hdisplaced
  obtain ⟨listed, hlisted, hvalue⟩ := hdisplaced.described
  obtain ⟨range, hrange, htype, hplain⟩ := hdisplaced.range
  obtain ⟨hminimum, hmaximum⟩ :=
    hbounds listed hlisted (hdisplaced.listed listed hlisted hvalue) range hrange ⟨htype, hplain⟩
  have hshape := (h range hrange).shape
  have hlength : range.minLength = none := by
    by_contra hsome
    obtain ⟨length, hlength⟩ := Option.ne_none_iff_exists'.mp hsome
    have hstring := (hshape.minLength length hlength).1
    simp [htype] at hstring
  have hadmits : range.Admits refs value := by
    rw [hshape.admits_iff htype (by simp) (by simp)]
    exact ⟨Json.hasType_integer_iff.mpr hdisplaced.integer, by simp [hplain], by simp [hminimum],
      by simp [hmaximum], by simp [hlength]⟩
  have hlists := hdisplaced.listed range hrange
    ((h range hrange).mem_values_iff.mpr (.inr ⟨by simp [isConstrained, htype], hadmits⟩))
  have hsome := hlists.2
  simp [hplain] at hsome

/-- A displaced integer does not survive: the lists that have it are dropped. -/
theorem Survives.not_displaced {schemas : List Schema} (h : ∀ schema ∈ schemas, schema.Regular)
    {value : Json} (hsurvives : Survives refs schemas value) : ¬ Displaced refs schemas value := by
  intro hdisplaced
  rcases hsurvives with ⟨-, rfl⟩ | ⟨schema, hschema, hrest, hadmits, hkept⟩
  · obtain ⟨number, hnumber⟩ := hdisplaced.integer
    cases hnumber
  · refine hkept ⟨?_, hdisplaced.range⟩
    by_cases hconstrained : schema.isConstrained = true
    · exact hdisplaced.listed schema hschema
        ((h schema hschema).mem_values_iff.mpr (.inr ⟨hconstrained, hadmits⟩))
    · have hnull := (h schema hschema).null (by simpa using hconstrained)
      have hlabel := hrest.resolve_left hconstrained
      simp [hdisplaced.bare schema hschema hnull] at hlabel

/-- What members describe survives or is displaced. -/
theorem survives_or_displaced {schemas : List Schema} (h : ∀ schema ∈ schemas, schema.Regular)
    {value : Json} (hvalue : ∃ schema ∈ schemas, value ∈ schema.values refs) :
    Survives refs schemas value ∨ Displaced refs schemas value := by
  refine or_iff_not_imp_left.mpr fun hlost => ?_
  obtain ⟨hnotNull, hnone⟩ := not_or.mp hlost
  -- whatever is left with the value is dropped
  have hdropped : ∀ schema ∈ schemas, schema.HasRest → schema.Admits refs value →
      IsDropped schemas schema := by
    intro schema hschema hrest hadmits
    by_contra hleft
    exact hnone ⟨schema, hschema, hrest, hadmits, hleft⟩
  have hadmitted : ∀ schema ∈ schemas, value ∈ schema.values refs →
      schema.isConstrained = true ∧ schema.Admits refs value := by
    intro schema hschema hmem
    refine ((h schema hschema).mem_values_iff.mp hmem).resolve_left fun hnull => hnotNull ?_
    exact ⟨⟨schema, hschema, hnull.1⟩, hnull.2⟩
  obtain ⟨schema, hschema, hmem⟩ := hvalue
  obtain ⟨hconstrained, hadmits⟩ := hadmitted schema hschema hmem
  obtain ⟨⟨htype, -⟩, hrange⟩ := hdropped schema hschema (.inl hconstrained) hadmits
  refine ⟨Json.hasType_integer_iff.mp (hadmits.type _ htype), ⟨schema, hschema, hmem⟩,
    fun other hother hother' => ?_, hrange, fun other hother hnull => ?_⟩
  · obtain ⟨hconstrained, hadmits⟩ := hadmitted other hother hother'
    exact (hdropped other hother (.inl hconstrained) hadmits).1
  · -- a described null would be left, and it admits everything
    obtain ⟨context, description, rfl⟩ := hnull
    by_contra hlabel
    have hlists := hdropped _ hother (.inr (Option.isSome_iff_ne_none.mpr hlabel))
      (admits_relabel.mpr (admits_empty context description value))
    simp [IsDropped, ListsIntegers] at hlists

/-- **Of what members describe, all but the displaced integers survives.** -/
theorem survives_iff_not_displaced {schemas : List Schema} (h : ∀ schema ∈ schemas, schema.Regular)
    {value : Json} (hvalue : ∃ schema ∈ schemas, value ∈ schema.values refs) :
    Survives refs schemas value ↔ ¬ Displaced refs schemas value :=
  ⟨fun hsurvives => hsurvives.not_displaced h, (survives_or_displaced h hvalue).resolve_right⟩

end Schema

namespace Resolver

open Schema

variable {r : Resolver} {context : Text}

/-! ## Unions -/

/-- Literals of one sort resolve one by one. -/
theorem schemas_of_literals {α : Type} {write : α → TypeExpr} (schemaOf : α → Schema)
    (h : ∀ literal, r.resolve context (write literal) = pure (schemaOf literal)) {literals : List α}
    {schemas : List Schema}
    (hall : r.ResolvesAll context (literals.map write) schemas) :
    literals.map schemaOf = schemas := by
  rw [ResolvesAll, List.forall₂_map_left_iff] at hall
  rw [← List.forall₂_eq_eq_eq, List.forall₂_map_left_iff]
  refine hall.imp fun literal schema hliteral => ?_
  rw [h literal] at hliteral
  exact Report.outcome_pure_ok_iff.mp hliteral

/-- A union of literals describes what the literals describe. -/
theorem mem_ofLiterals_iff {members : List TypeExpr} {schemas : List Schema} {schema : Schema}
    (hschema : ofLiterals? context members = some schema)
    (hall : r.ResolvesAll context members schemas) {refs : Text → Set Json} {value : Json} :
    value ∈ schema.values refs ↔ ∃ part ∈ schemas, value ∈ part.values refs := by
  obtain ⟨hne, ⟨texts, rfl, rfl⟩ | ⟨values, rfl, rfl⟩⟩ := ofLiterals?_eq_some_iff.mp hschema
  · obtain rfl := schemas_of_literals (fun text => ofTextLiterals context [text])
      (fun _ => rfl) hall
    have hone : ∀ text, value ∈ (ofTextLiterals context [text]).values refs ↔
        ∃ found, value = .str found ∧ (found = text ∨ [] = text) := by
      simp [mem_ofTextLiterals_iff]
    rw [mem_ofTextLiterals_iff (by simpa using hne)]
    constructor
    · intro hleft
      rcases hleft with ⟨found, rfl, hfound | hempty⟩
      · exact ⟨_, List.mem_map_of_mem hfound, (hone found).mpr ⟨found, rfl, .inl rfl⟩⟩
      · exact ⟨_, List.mem_map_of_mem hempty, (hone []).mpr ⟨found, rfl, .inr rfl⟩⟩
    · intro hright
      rcases hright with ⟨_, hpart, hvalue⟩
      obtain ⟨text, htext, rfl⟩ := List.mem_map.mp hpart
      obtain ⟨found, rfl, rfl | rfl⟩ := (hone text).mp hvalue
      · exact ⟨found, rfl, .inl htext⟩
      · exact ⟨found, rfl, .inr htext⟩
  · obtain rfl := schemas_of_literals (fun value => ofIntLiterals context [value])
      (fun _ => rfl) hall
    have hone : ∀ number, value ∈ (ofIntLiterals context [number]).values refs ↔
        value = .int number := by simp [mem_ofIntLiterals_iff]
    rw [mem_ofIntLiterals_iff (by simpa using hne)]
    simp [hone]

/-- Among literals of one sort there is no range. -/
theorem not_displaced_of_literals {members : List TypeExpr} {schemas : List Schema}
    {schema : Schema} (hschema : ofLiterals? context members = some schema)
    (hall : r.ResolvesAll context members schemas) {refs : Text → Set Json} {value : Json} :
    ¬ Displaced refs schemas value := by
  intro hdisplaced
  obtain ⟨range, hrange, htype, hplain⟩ := hdisplaced.range
  obtain ⟨hne, ⟨texts, rfl, rfl⟩ | ⟨values, rfl, rfl⟩⟩ := ofLiterals?_eq_some_iff.mp hschema
  · obtain rfl := schemas_of_literals (fun text => ofTextLiterals context [text])
      (fun _ => rfl) hall
    obtain ⟨text, -, rfl⟩ := List.mem_map.mp hrange
    simp [ofTextLiterals_type] at htype
  · obtain rfl := schemas_of_literals (fun value => ofIntLiterals context [value])
      (fun _ => rfl) hall
    obtain ⟨value, -, rfl⟩ := List.mem_map.mp hrange
    simp [ofIntLiterals] at hplain

/-- A union has a schema, unless resolution is strict about `mixed`. -/
theorem exists_union_iff {members : List TypeExpr} {schemas : List Schema} (hne : members ≠ [])
    (hall : r.ResolvesAll context members schemas) :
    (∃ schema, (r.resolve context (.union members)).outcome = .ok schema) ↔
      (r.strict = true → ∀ member ∈ members, member.isIdentifier "mixed" = false) := by
  simp only [resolve_union_ok_iff hne hall, exists_and_left]
  refine and_iff_left ?_
  cases ofLiterals? context members with
  | some schema => exact ⟨schema, .inl rfl⟩
  | none => exact ⟨_, .inr ⟨rfl, rfl⟩⟩

/-- A union of members without a description has none. -/
theorem description_union {members : List TypeExpr} {schemas : List Schema} {schema : Schema}
    (hne : members ≠ []) (hall : r.ResolvesAll context members schemas)
    (hbare : ∀ part ∈ schemas, part.description = none)
    (h : (r.resolve context (.union members)).outcome = .ok schema) :
    schema.description = none := by
  obtain ⟨-, hliterals | ⟨-, rfl⟩⟩ := (resolve_union_ok_iff hne hall).mp h
  · obtain ⟨-, ⟨texts, -, rfl⟩ | ⟨values, -, rfl⟩⟩ := ofLiterals?_eq_some_iff.mp hliterals
    · exact ofTextLiterals_description context texts
    · rfl
  · rcases combine_cases context (Members.gather schemas).schemas (Members.gather schemas).nullable
      .union with ⟨-, heq⟩ | ⟨member, hmember, -, heq⟩ |
        ⟨-, ⟨-, heq⟩ | ⟨-, -, heq⟩ | ⟨-, -, heq⟩⟩ <;> rw [heq]
    rcases mem_merged_cases hmember with ⟨part, hpart, rfl⟩ | ⟨type, -, rfl⟩
    · exact hbare part hpart
    · rfl

theorem regular_of_forall₂ {members : List TypeExpr} {schemas : List Schema}
    (hall : r.ResolvesAll context members schemas) : ∀ schema ∈ schemas, schema.Regular := by
  intro schema hschema
  obtain ⟨member, -, hmember⟩ := exists_right_of_mem hall.flip hschema
  exact (resolves_of_ok hmember).regular

/-- **Of the values that its members describe, a union describes those that are not displaced.** -/
theorem mem_union_iff_not_displaced {members : List TypeExpr} {schemas : List Schema}
    {schema : Schema} (hne : members ≠ [])
    (hall : r.ResolvesAll context members schemas)
    (h : (r.resolve context (.union members)).outcome = .ok schema) {refs : Text → Set Json}
    {value : Json} (hvalue : ∃ part ∈ schemas, value ∈ part.values refs) :
    value ∈ schema.values refs ↔ ¬ Displaced refs schemas value := by
  have hregular := regular_of_forall₂ hall
  obtain ⟨-, hliterals | ⟨-, rfl⟩⟩ := (resolve_union_ok_iff hne hall).mp h
  · exact iff_of_true ((mem_ofLiterals_iff hliterals hall).mpr hvalue)
      (not_displaced_of_literals hliterals hall)
  · by_cases hconstrained : ∃ part ∈ schemas, part.isConstrained = true
    · rw [mem_combine_iff_survives hregular hconstrained]
      exact survives_iff_not_displaced hregular hvalue
    · -- all members describe null, and nothing else
      obtain ⟨part, hpart, hmem⟩ := hvalue
      have hnull : part.IsNull :=
        (hregular part hpart).null (by simpa using fun h => hconstrained ⟨part, hpart, h⟩)
      obtain rfl := hnull.mem_values_iff.mp hmem
      refine iff_of_true (mem_values_iff.mpr (.inl ⟨?_, rfl⟩)) fun hdisplaced => ?_
      · obtain ⟨_, _, rfl⟩ := hnull
        rw [combine_nullable, Members.gather_nullable, List.any_eq_true]
        exact ⟨_, hpart, rfl⟩
      · obtain ⟨number, hnumber⟩ := hdisplaced.integer
        cases hnumber

/-- If no member is a described null then a union describes nothing that no member describes. -/
theorem exists_mem_of_mem_union {members : List TypeExpr} {schemas : List Schema}
    {schema : Schema} (hne : members ≠ []) (hall : r.ResolvesAll context members schemas)
    (hbare : ∀ part ∈ schemas, part.description = none)
    (h : (r.resolve context (.union members)).outcome = .ok schema) {refs : Text → Set Json}
    {value : Json} (hvalue : value ∈ schema.values refs) :
    ∃ part ∈ schemas, value ∈ part.values refs := by
  have hregular := regular_of_forall₂ hall
  obtain ⟨-, hliterals | ⟨-, rfl⟩⟩ := (resolve_union_ok_iff hne hall).mp h
  · exact (mem_ofLiterals_iff hliterals hall).mp hvalue
  · by_cases hconstrained : ∃ part ∈ schemas, part.isConstrained = true
    · rw [mem_combine_iff_survives hregular hconstrained] at hvalue
      rcases hvalue with ⟨⟨part, hpart, hnullable⟩, rfl⟩ | ⟨part, hpart, hrest, hadmits, -⟩
      · exact ⟨part, hpart, mem_values_iff.mpr (.inl ⟨hnullable, rfl⟩)⟩
      · have hconstrained := hrest.resolve_right (by simp [hbare part hpart])
        exact ⟨part, hpart, (hregular part hpart).mem_values_iff.mpr (.inr ⟨hconstrained, hadmits⟩)⟩
    · -- nothing is left of the members but null
      have hfree : ∀ part ∈ schemas, part.isConstrained = false := fun part hpart => by
        simpa using fun h => hconstrained ⟨part, hpart, h⟩
      have hgathered : (Members.gather schemas).schemas = [] := by
        refine List.eq_nil_iff_forall_not_mem.mpr fun member hmember => ?_
        obtain ⟨part, hpart, hrest, -⟩ := (mem_gather_iff hregular).mp hmember
        simp [HasRest, hfree part hpart, hbare part hpart] at hrest
      have hschemas : schemas ≠ [] := hall.ne_nil hne
      obtain ⟨part, hpart⟩ := List.exists_mem_of_ne_nil schemas hschemas
      have hnull := (hregular part hpart).null (hfree part hpart)
      have hunion : IsNull (combine context (Members.gather schemas).schemas
          (Members.gather schemas).nullable .union) := by
        refine isNull_combine hschemas hregular ?_
        rw [hgathered]
        rfl
      exact ⟨part, hpart, hnull.mem_values_iff.mpr (hunion.mem_values_iff.mp hvalue)⟩

/-- **A union has a schema, unless resolution is strict about `mixed`, and the schema describes what
the members describe, but for displaced integers.** -/
theorem union_keeps_members {members : List TypeExpr} {schemas : List Schema} (hne : members ≠ [])
    (hall : r.ResolvesAll context members schemas) :
    ((∃ schema, (r.resolve context (.union members)).outcome = .ok schema) ↔
        (r.strict = true → ∀ member ∈ members, member.isIdentifier "mixed" = false)) ∧
      ∀ schema, (r.resolve context (.union members)).outcome = .ok schema →
        ∀ (refs : Text → Set Json) (value : Json), (∃ part ∈ schemas, value ∈ part.values refs) →
          (value ∈ schema.values refs ↔ ¬ Displaced refs schemas value) :=
  ⟨exists_union_iff hne hall, fun _ h _ _ => mem_union_iff_not_displaced hne hall h⟩

/-- A listed integer within the bounds of the range beside it is kept. -/
theorem union_keeps_five :
    let members : List TypeExpr := [.literal (.int 5), .identifier "positive-int"]
    ∃ schema, (({} : Resolver).resolve "$" (.union members)).outcome = .ok schema ∧
      ∀ refs, .int 5 ∈ schema.values refs := by
  intro members
  let schemas : List Schema :=
    [ofIntLiterals "$" [5], { int64 with context := "$", minimum := some 1 }]
  have hall : ResolvesAll {} "$" members schemas := .cons rfl (.cons rfl .nil)
  obtain ⟨hends, hkeeps⟩ := union_keeps_members (List.cons_ne_nil _ _) hall
  obtain ⟨schema, h⟩ := hends.mpr (by decide)
  refine ⟨schema, h, fun refs => (hkeeps schema h refs _ ⟨_, List.mem_cons_self, ?_⟩).mpr ?_⟩
  · exact (mem_ofIntLiterals_iff (List.cons_ne_nil _ _)).mpr ⟨5, List.mem_cons_self, rfl⟩
  · intro hdisplaced
    -- the range describes it too
    have hrange := hdisplaced.listed _ (List.mem_cons_of_mem _ List.mem_cons_self)
      (mem_range_iff.mpr ⟨5, rfl, by simp, by simp [int64]⟩)
    exact Bool.false_ne_true hrange.2

/-- An integer below the range beside it is lost, although it is listed. -/
theorem union_loses_listed_integer :
    ∃ listed union : Schema,
      (({} : Resolver).resolve "$" (.literal (.int (-5)))).outcome = .ok listed ∧
      (∃ range, (({} : Resolver).resolve "$" (.identifier "positive-int")).outcome = .ok range) ∧
      (({} : Resolver).resolve "$"
        (.union [.literal (.int (-5)), .identifier "positive-int"])).outcome = .ok union ∧
      ∀ refs, .int (-5) ∈ listed.values refs ∧ .int (-5) ∉ union.values refs := by
  let range : Schema := { int64 with context := "$", minimum := some 1 }
  refine ⟨ofIntLiterals "$" [-5], range, rfl, ⟨range, rfl⟩, rfl, fun refs => ⟨?_, fun h => ?_⟩⟩
  · exact (mem_ofIntLiterals_iff (List.cons_ne_nil _ _)).mpr ⟨-5, List.mem_cons_self, rfl⟩
  · obtain ⟨number, hnumber, hbound, -⟩ := mem_range_iff.mp h
    obtain rfl := Json.int.inj hnumber
    simp at hbound

end Resolver

end Schemata
