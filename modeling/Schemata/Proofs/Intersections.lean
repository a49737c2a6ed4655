import Schemata.Proofs.Displaced
import Schemata.Proofs.Leftovers

/-!
# What an intersection describes

An intersection is put together by the steps of a union, and the first two of them are made for
unions: the values that members list of one type go into one list, and a member of the type without a
list takes the place of all of them. So an intersection describes too much rather than too little:

* **sharing** — a value is shared by members if each that lists no values accepts it, and of each type
  that some member has, one member does (`Schema.SharedBy`). A value in all members is shared;
* **merging** — merged members all admit a value exactly if the members share it
  (`Schema.forall_admits_mergeEnums_iff`), which neither repetitions nor null change;
* **the form** — beside null, an intersection describes what its members share
  (`Schema.mem_combine_iff_sharedBy`).

Two consequences are stated for what resolution returns: no common value is lost
(`Resolver.intersection_keeps_common`), and members are widened as far as sharing allows
(`Resolver.mem_intersection_iff_sharedBy`), which may be too far
(`Resolver.intersection_accepts_either_literal`).
-/

namespace Schemata

open List (Forall₂)

namespace Schema

variable {refs : Text → Set Json}

/-! ## Sharing -/

/-- Members that list their values stand in for one another if they have one type, and a member of
the type without a list stands in for all of them. -/
structure SharedBy (accepts : Schema → Prop) (members : List Schema) : Prop where
  plain : ∀ member ∈ members, member.enum = none → accepts member
  typed : ∀ member ∈ members, ∃ other ∈ members, other.type = member.type ∧ accepts other

namespace SharedBy

variable {accepts admits : Schema → Prop} {members : List Schema}

/-- What all members accept is shared. -/
theorem of_forall (h : ∀ member ∈ members, accepts member) : SharedBy accepts members :=
  ⟨fun member hmember _ => h member hmember,
    fun member hmember => ⟨member, hmember, rfl, h member hmember⟩⟩

theorem imp_of_mem (himp : ∀ member ∈ members, accepts member → admits member)
    (h : SharedBy accepts members) : SharedBy admits members := by
  refine ⟨fun member hmember hplain => himp member hmember (h.plain member hmember hplain), ?_⟩
  intro member hmember
  obtain ⟨other, hother, htype, haccepts⟩ := h.typed member hmember
  exact ⟨other, hother, htype, himp other hother haccepts⟩

theorem congr_of_mem (hiff : ∀ member ∈ members, accepts member ↔ admits member) :
    SharedBy accepts members ↔ SharedBy admits members :=
  ⟨imp_of_mem fun member hmember => (hiff member hmember).mp,
    imp_of_mem fun member hmember => (hiff member hmember).mpr⟩

/-- A change of members that keeps their types and lists keeps what is shared. -/
theorem map_iff (change : Schema → Schema) (htype : ∀ member, (change member).type = member.type)
    (henum : ∀ member, (change member).enum = member.enum) :
    SharedBy accepts (members.map change) ↔
      SharedBy (fun member => accepts (change member)) members := by
  constructor
  · intro h
    refine ⟨fun member hmember hplain => ?_, fun member hmember => ?_⟩
    · exact h.plain _ (List.mem_map_of_mem hmember) ((henum member).trans hplain)
    · obtain ⟨_, hchanged, hsame, haccepts⟩ := h.typed _ (List.mem_map_of_mem hmember)
      obtain ⟨other, hother, rfl⟩ := List.mem_map.mp hchanged
      rw [htype, htype] at hsame
      exact ⟨other, hother, hsame, haccepts⟩
  · intro h
    refine ⟨fun changed hchanged hplain => ?_, fun changed hchanged => ?_⟩
    · obtain ⟨member, hmember, rfl⟩ := List.mem_map.mp hchanged
      exact h.plain member hmember ((henum member).symm.trans hplain)
    · obtain ⟨member, hmember, rfl⟩ := List.mem_map.mp hchanged
      obtain ⟨other, hother, hsame, haccepts⟩ := h.typed member hmember
      exact ⟨_, List.mem_map_of_mem hother, by rw [htype, htype, hsame], haccepts⟩

/-- Repetitions do not count. -/
theorem deduplicate_iff
    (hsame : ∀ {left right : Schema}, Same left right → (accepts left ↔ accepts right)) :
    SharedBy accepts (deduplicate members) ↔ SharedBy accepts members := by
  constructor
  · intro h
    refine ⟨fun member hmember hplain => ?_, fun member hmember => ?_⟩
    · obtain ⟨kept, hkept, hkeptSame⟩ := exists_same_of_mem hmember
      have henum := hkeptSame.enum_isSome_eq
      rw [hplain] at henum
      exact (hsame hkeptSame).mpr (h.plain kept hkept (by simpa using henum.symm))
    · obtain ⟨kept, hkept, hkeptSame⟩ := exists_same_of_mem hmember
      obtain ⟨other, hother, htype, haccepts⟩ := h.typed kept hkept
      exact ⟨other, mem_of_mem_deduplicate hother, htype.trans (same_iff.mp hkeptSame).type.symm,
        haccepts⟩
  · intro h
    refine ⟨fun member hmember => h.plain member (mem_of_mem_deduplicate hmember), ?_⟩
    intro member hmember
    obtain ⟨other, hother, htype, haccepts⟩ := h.typed member (mem_of_mem_deduplicate hmember)
    obtain ⟨kept, hkept, hkeptSame⟩ := exists_same_of_mem hother
    exact ⟨kept, hkept, (same_iff.mp hkeptSame).type.symm.trans htype,
      (hsame hkeptSame).mp haccepts⟩

end SharedBy

/-! ## Merging -/

/-- **Merged members all admit a value exactly if the members share it.** -/
theorem forall_admits_mergeEnums_iff {context : Text} {members : List Schema}
    (hshape : ∀ member ∈ members, member.WellShaped) {value : Json} :
    (∀ merged ∈ mergeEnums context members, merged.Admits refs value) ↔
      SharedBy (fun member => member.Admits refs value) members := by
  constructor
  · intro h
    have hplain : ∀ member ∈ members, member.enum = none → member.Admits refs value :=
      fun member hmember hnone => h member (mem_mergeEnums_iff.mpr (.inl ⟨hmember, hnone⟩))
    refine ⟨hplain, fun member hmember => ?_⟩
    by_cases hlisted : member.enum.isSome = true
    · by_cases hopen : member.type ∈ openTypes members
      · -- the pool of the type admits the value, so a member that is pooled does
        obtain ⟨other, hother, -, htype, hadmits⟩ := (pooled_admits_iff hshape hopen).mp
          (h _ (mem_mergeEnums_iff.mpr (.inr ⟨_, hopen, rfl⟩)))
        exact ⟨other, hother, htype, hadmits⟩
      · obtain ⟨plain, hmem, hnone, htype⟩ := exists_plain_of_not_open hmember hlisted hopen
        exact ⟨plain, hmem, htype, hplain plain hmem hnone⟩
    · exact ⟨member, hmember, rfl, hplain member hmember (by simpa using hlisted)⟩
  · intro h merged hmerged
    rcases mem_mergeEnums_iff.mp hmerged with ⟨hmember, hnone⟩ | ⟨type, hopen, rfl⟩
    · exact h.plain merged hmember hnone
    · obtain ⟨⟨member, hmember, -, rfl⟩, hnoPlain⟩ := mem_openTypes.mp hopen
      obtain ⟨other, hother, htype, hadmits⟩ := h.typed member hmember
      -- the type has a pool, so the one that admits the value has a list
      have hlisted : other.enum.isSome = true :=
        Option.isSome_iff_ne_none.mpr fun hnone => hnoPlain other hother hnone htype
      exact (pooled_admits_iff hshape hopen).mpr ⟨other, hother, hlisted, htype, hadmits⟩

/-- Of members that say what they describe, nothing is taken but null. -/
theorem gather_eq_map {schemas : List Schema}
    (h : ∀ schema ∈ schemas, schema.isConstrained = true) :
    (Members.gather schemas).schemas =
      schemas.map fun schema => { schema with nullable := false } := by
  induction schemas with
  | nil => rfl
  | cons schema schemas ih =>
      obtain ⟨hschema, hschemas⟩ := List.forall_mem_cons.mp h
      show (Members.add schema (Members.gather schemas)).schemas = _
      rw [List.map_cons, ← ih hschemas, Members.add]
      cases hn : schema.nullable with
      | true =>
          have hdiffers : ({ schema with nullable := false } : Schema).same {} = false :=
            not_same_empty hschema
          simp [hdiffers]
      | false => simp [eq_of_not_nullable hn]

/-- Without null, and without repetitions, members share what they shared before. -/
theorem forall_admits_merged_iff {context : Text} {schemas : List Schema}
    (h : ∀ schema ∈ schemas, schema.Regular)
    (hconstrained : ∀ schema ∈ schemas, schema.isConstrained = true) {value : Json} :
    (∀ merged ∈ mergedMembers context (Members.gather schemas).schemas,
        merged.Admits refs value) ↔
      SharedBy (fun schema => schema.Admits refs value) schemas := by
  have hgathered : (Members.gather schemas).schemas =
      schemas.map fun schema => { schema with nullable := false } :=
    gather_eq_map hconstrained
  have hkept : ∀ kept ∈ deduplicate (Members.gather schemas).schemas, kept.WellShaped :=
    fun kept hkept => wellShaped_of_mem_gather h kept (mem_of_mem_deduplicate hkept)
  rw [mergedMembers, forall_admits_mergeEnums_iff hkept,
    SharedBy.deduplicate_iff fun hsame => hsame.admits_iff, hgathered,
    SharedBy.map_iff (fun schema => { schema with nullable := false }) (fun _ => rfl) fun _ => rfl]
  exact SharedBy.congr_of_mem fun schema _ => admits_relabel

/-! ## The form -/

theorem admits_allOf {context : Text} {nullable : Bool} {members : List Schema} {value : Json} :
    ({ context, nullable, allOf := some members } : Schema).Admits refs value ↔
      ∀ member ∈ members, value ∈ member.values refs := by
  refine ⟨fun h => h.allOf members rfl, fun h => ?_⟩
  constructor <;> simp [additionalValues]
  exact h

/-- Whatever the form, an intersection admits what its merged members all admit. -/
theorem combine_admits_iff {context : Text} {schemas : List Schema} {value : Json} :
    (combine context (Members.gather schemas).schemas (Members.gather schemas).nullable
        .intersection).Admits refs value ↔
      ∀ merged ∈ mergedMembers context (Members.gather schemas).schemas,
        merged.Admits refs value := by
  rcases combine_cases context (Members.gather schemas).schemas (Members.gather schemas).nullable
    .intersection with ⟨hnone, heq⟩ | ⟨member, -, hsingle, heq⟩ |
      ⟨-, ⟨-, heq⟩ | ⟨hjunction, -⟩ | ⟨hjunction, -⟩⟩
  · rw [heq, hnone]
    exact iff_of_true (admits_relabel.mpr (admits_empty context none value)) (by simp)
  · rw [heq, hsingle]
    simpa using admits_relabel
  · rw [heq, admits_allOf]
    exact forall₂_congr fun merged hmem =>
      mem_values_of_not_nullable (not_nullable_of_mem_merged hmem)
  · cases hjunction
  · cases hjunction

/-- **An intersection describes null if one of its members is nullable, and else what its members
share**, if they all say what they describe. -/
theorem mem_combine_iff_sharedBy {context : Text} {schemas : List Schema} (hne : schemas ≠ [])
    (h : ∀ schema ∈ schemas, schema.Regular)
    (hconstrained : ∀ schema ∈ schemas, schema.isConstrained = true) {value : Json} :
    value ∈ (combine context (Members.gather schemas).schemas (Members.gather schemas).nullable
        .intersection).values refs ↔
      (∃ schema ∈ schemas, schema.nullable = true) ∧ value = .null ∨
        SharedBy (fun schema => schema.Admits refs value) schemas := by
  have hcombined : (combine context (Members.gather schemas).schemas
      (Members.gather schemas).nullable .intersection).isConstrained = true := by
    by_contra hfree
    obtain ⟨schema, hschema⟩ := List.exists_mem_of_ne_nil schemas hne
    have hschemaFree := not_isConstrained_of_combine h (by simpa using hfree) schema hschema
    rw [hconstrained schema hschema] at hschemaFree
    exact Bool.false_ne_true hschemaFree.symm
  rw [mem_values_iff, combine_nullable, combine_admits_iff,
    forall_admits_merged_iff h hconstrained]
  refine or_congr (and_congr_left fun _ => ?_) (and_iff_right fun _ => hcombined)
  rw [Members.gather_nullable, List.any_eq_true]

end Schema

namespace Resolver

open Schema

variable {r : Resolver} {context : Text}

/-- **No value is lost that all members describe.** An intersection has a schema, unless resolution is
strict about `mixed`. -/
theorem intersection_keeps_common {members : List TypeExpr} {schemas : List Schema}
    (hne : members ≠ []) (hall : r.ResolvesAll context members schemas) :
    ((∃ schema, (r.resolve context (.intersection members)).outcome = .ok schema) ↔
        (r.strict = true → ∀ member ∈ members, member.isIdentifier "mixed" = false)) ∧
      ∀ schema, (r.resolve context (.intersection members)).outcome = .ok schema →
        ∀ (refs : Text → Set Json) (value : Json), (∀ part ∈ schemas, value ∈ part.values refs) →
          value ∈ schema.values refs := by
  have hregular := regular_of_forall₂ hall
  simp only [resolve_intersection_ok_iff hne hall]
  refine ⟨by simp, ?_⟩
  rintro _ ⟨-, rfl⟩ refs value hcommon
  by_cases hnull : (∃ part ∈ schemas, part.nullable = true) ∧ value = .null
  · -- null is hoisted, whatever else the members are
    refine mem_values_iff.mpr (.inl ⟨?_, hnull.2⟩)
    rw [combine_nullable, Members.gather_nullable, List.any_eq_true]
    exact hnull.1
  · have hadmitted : ∀ part ∈ schemas, part.isConstrained = true ∧ part.Admits refs value := by
      intro part hpart
      refine ((hregular part hpart).mem_values_iff.mp (hcommon part hpart)).resolve_left ?_
      exact fun hpartNull => hnull ⟨⟨part, hpart, hpartNull.1⟩, hpartNull.2⟩
    exact (mem_combine_iff_sharedBy (hall.ne_nil hne) hregular fun part hpart =>
      (hadmitted part hpart).1).mpr (.inr (.of_forall fun part hpart => (hadmitted part hpart).2))

/-- Five is one of two lists and in the range. -/
theorem intersection_keeps_five :
    let members : List TypeExpr :=
      [.literal (.int 5), .union [.literal (.int 7), .literal (.int 5)],
        .generic "int" [.literal (.int 0), .identifier "max"]]
    ∃ schema, (({} : Resolver).resolve "$" (.intersection members)).outcome = .ok schema ∧
      ∀ refs, .int 5 ∈ schema.values refs := by
  intro members
  let schemas : List Schema :=
    [ofIntLiterals "$" [5], ofIntLiterals "$" [7, 5],
      { int64 with context := "$", minimum := some 0 }]
  have hall : ResolvesAll {} "$" members schemas := .cons rfl (.cons rfl (.cons rfl .nil))
  obtain ⟨hends, hkeeps⟩ := intersection_keeps_common (List.cons_ne_nil _ _) hall
  obtain ⟨schema, h⟩ := hends.mpr (by decide)
  refine ⟨schema, h, fun refs => hkeeps schema h refs _ ?_⟩
  simp only [schemas, List.forall_mem_cons, List.not_mem_nil, IsEmpty.forall_iff, implies_true,
    and_true]
  refine ⟨?_, ?_, ?_⟩
  · exact (mem_ofIntLiterals_iff (List.cons_ne_nil _ _)).mpr ⟨5, by simp, rfl⟩
  · exact (mem_ofIntLiterals_iff (List.cons_ne_nil _ _)).mpr ⟨5, by simp, rfl⟩
  · exact mem_range_iff.mpr ⟨5, rfl, by simp, by simp [int64]⟩

/-- **Of the values other than null, an intersection describes those that its members share**, if none
of them is null. -/
theorem mem_intersection_iff_sharedBy {members : List TypeExpr} {schemas : List Schema}
    {schema : Schema} (hne : members ≠ []) (hall : r.ResolvesAll context members schemas)
    (hnull : ∀ part ∈ schemas, ¬ part.IsNull)
    (h : (r.resolve context (.intersection members)).outcome = .ok schema) {refs : Text → Set Json}
    {value : Json} (hvalue : value ≠ .null) :
    value ∈ schema.values refs ↔ SharedBy (fun part => value ∈ part.values refs) schemas := by
  have hregular := regular_of_forall₂ hall
  have hconstrained : ∀ part ∈ schemas, part.isConstrained = true := by
    intro part hpart
    by_contra hfree
    exact hnull part hpart ((hregular part hpart).null (by simpa using hfree))
  obtain ⟨-, rfl⟩ := (resolve_intersection_ok_iff hne hall).mp h
  rw [mem_combine_iff_sharedBy (hall.ne_nil hne) hregular hconstrained,
    or_iff_right fun hnull => hvalue hnull.2]
  refine SharedBy.congr_of_mem fun part hpart => ?_
  rw [(hregular part hpart).mem_values_iff, or_iff_right fun hnull => hvalue hnull.2,
    and_iff_right (hconstrained part hpart)]

/-- Seven is in the range, which stands in for the list without it. Nothing stands in for the range. -/
theorem shared_seven :
    let members : List TypeExpr :=
      [.literal (.int 5), .generic "int" [.literal (.int 0), .identifier "max"]]
    ∃ schema, (({} : Resolver).resolve "$" (.intersection members)).outcome = .ok schema ∧
      ∀ refs, .int 7 ∈ schema.values refs ∧ .int (-1) ∉ schema.values refs := by
  intro members
  let range : Schema := { int64 with context := "$", minimum := some 0 }
  have hall : ResolvesAll {} "$" members [ofIntLiterals "$" [5], range] :=
    .cons rfl (.cons rfl .nil)
  have hnull : ∀ part ∈ [ofIntLiterals "$" [5], range], ¬ part.IsNull := by
    simp [IsNull, ofIntLiterals, int64, range]
  have hends : ∃ schema,
      (({} : Resolver).resolve "$" (.intersection members)).outcome = .ok schema := ⟨_, rfl⟩
  obtain ⟨schema, h⟩ := hends
  refine ⟨schema, h, fun refs => ⟨?_, fun hvalue => ?_⟩⟩
  · have hseven : .int 7 ∈ range.values refs := mem_range_iff.mpr ⟨7, rfl, by simp, by simp [int64]⟩
    refine (mem_intersection_iff_sharedBy (List.cons_ne_nil _ _) hall hnull h (by simp)).mpr ⟨?_, ?_⟩
    · simp [ofIntLiterals, hseven]
    · intro part hpart
      refine ⟨range, by simp, ?_, hseven⟩
      simp only [List.mem_cons, List.not_mem_nil, or_false] at hpart
      rcases hpart with rfl | rfl <;> rfl
  · have hshared := (mem_intersection_iff_sharedBy (List.cons_ne_nil _ _) hall hnull h
      (by simp)).mp hvalue
    obtain ⟨number, hnumber, hbound, -⟩ := mem_range_iff.mp
      (hshared.plain range (List.mem_cons_of_mem _ List.mem_cons_self) rfl)
    obtain rfl := Json.int.inj hnumber
    simp at hbound

/-- Two literals have no value in common, but their intersection describes both. -/
theorem intersection_accepts_either_literal :
    ∃ left right both : Schema,
      (({} : Resolver).resolve "$" (.literal (.str "a"))).outcome = .ok left ∧
      (({} : Resolver).resolve "$" (.literal (.str "b"))).outcome = .ok right ∧
      (({} : Resolver).resolve "$"
        (.intersection [.literal (.str "a"), .literal (.str "b")])).outcome = .ok both ∧
      ¬ left.IsNull ∧ ¬ right.IsNull ∧
      ∀ refs, .str "a" ∈ both.values refs ∧ .str "a" ∉ right.values refs := by
  have htyped : ∀ texts, ¬ (ofTextLiterals "$" texts).IsNull := by
    rintro texts ⟨context, description, heq⟩
    have htype := ofTextLiterals_type "$" texts
    simp [heq] at htype
  refine ⟨ofTextLiterals "$" ["a"], ofTextLiterals "$" ["b"], ofTextLiterals "$" ["a", "b"], rfl, rfl,
    rfl, htyped _, htyped _, fun refs => ⟨?_, fun h => ?_⟩⟩
  · exact (mem_ofTextLiterals_iff (List.cons_ne_nil _ _)).mpr ⟨"a", rfl, .inl List.mem_cons_self⟩
  · obtain ⟨text, htext, hlisted⟩ := (mem_ofTextLiterals_iff (List.cons_ne_nil _ _)).mp h
    obtain rfl := Json.str.inj htext
    revert hlisted
    decide

end Resolver

end Schemata
