import Schemata.Proofs.Combination
import Schemata.Proofs.Resolution

/-!
# Unions of literals

A union of nothing but string literals, or of nothing but integer literals, is resolved at one stroke:
its values are listed as they stand, and an empty string makes it a plain string. The literals could as
well be resolved one by one and be combined. That goes another way about it: repetitions are dropped, an
empty string is a member without a list, and such a member closes the pool of its type. Both come to the
same choice of values:

* **lists** — a list has the values of its first occurrences, and these come first in the same order
  (`Json.listedAlike_eraseDups`);
* **literals** — they resolve to the same schema only if they are equal, so what deduplication keeps of
  them are their first occurrences. These have one type, and are merged to one list
  (`Schema.combine_literals`), or the empty string is among them and stays alone
  (`Schema.combine_empty_text`).

`Resolver.literals_agree` compares the two ways.
-/

namespace Schemata

/-! ## Lists -/

namespace Json

/-- Two lists have the same values, and these come first in the same order. -/
structure ListedAlike (left right : List Json) : Prop where
  mem_iff : ∀ value, value ∈ left ↔ value ∈ right
  firsts : left.eraseDupsBy same = right.eraseDupsBy same

/-- Where different elements are written as different values, the first occurrences of the values are
those of the elements. -/
theorem eraseDupsBy_map {α : Type} [BEq α] [LawfulBEq α] {f : α → Json}
    (hf : ∀ a b, Same (f a) (f b) ↔ a = b) (elements : List α) :
    (elements.map f).eraseDupsBy same = elements.eraseDups.map f := by
  match elements with
  | [] => rfl
  | element :: rest =>
      -- what is the same as the head is dropped first, so the induction is on the length
      have hlength := List.length_filter_le (fun other => !other == element) rest
      have hfilter : (rest.map f).filter (fun other => decide (same other (f element) = false)) =
          (rest.filter fun other => !other == element).map f := by
        rw [List.filter_map]
        refine congrArg (List.map f) (List.filter_congr fun other _ => ?_)
        rw [Bool.eq_iff_iff]
        simpa [Same] using not_congr (hf other element)
      rw [List.map_cons, List.eraseDupsBy_cons, hfilter, eraseDupsBy_map hf, List.eraseDups_cons,
        List.map_cons]
termination_by elements.length
decreasing_by simp only [List.length_cons]; omega

/-- So a list is alike with the list of its first occurrences. -/
theorem listedAlike_eraseDups {α : Type} [BEq α] [LawfulBEq α] {f : α → Json}
    (hf : ∀ a b, Same (f a) (f b) ↔ a = b) (elements : List α) :
    ListedAlike (elements.map f) (elements.eraseDups.map f) where
  mem_iff := fun value => by simp [List.mem_eraseDups]
  firsts := by
    rw [eraseDupsBy_map hf, eraseDupsBy_map hf,
      eraseDups_of_nodup (nodup_eraseDups elements)]

end Json

namespace Schema

/-! ## Literals -/

theorem same_texts_iff (context : Text) (left right : Text) :
    Same (ofTextLiterals context [left]) (ofTextLiterals context [right]) ↔ left = right := by
  constructor
  · intro h
    have henum := (same_iff.mp h).enum
    by_cases hleft : left = [] <;> by_cases hright : right = [] <;>
      simp_all [ofTextLiterals]
  · rintro rfl
    exact (same_equivalentAt _).refl

theorem same_ints_iff (context : Text) (left right : Int) :
    Same (ofIntLiterals context [left]) (ofIntLiterals context [right]) ↔ left = right := by
  constructor
  · intro h
    simpa [ofIntLiterals] using (same_iff.mp h).enum
  · rintro rfl
    exact (same_equivalentAt _).refl

/-! ## The two ways -/

/-- **Different literals of one type are combined to the list of their first occurrences.** -/
theorem combine_literals {α : Type} [BEq α] [LawfulBEq α] {f : α → Schema} {write : α → Json}
    (hf : ∀ a b, Same (f a) (f b) ↔ a = b) {elements : List α} (hne : elements ≠ [])
    {type : Option Text} (htype : ∀ element, (f element).type = type)
    (henum : ∀ element ∈ elements, (f element).enum = some [write element]) (context : Text) :
    combine context (elements.map f) false .union =
      { context, type, enum := some (elements.eraseDups.map write) } := by
  have hkept : elements.eraseDups ≠ [] := by
    obtain ⟨element, helement⟩ := List.exists_mem_of_ne_nil elements hne
    exact List.ne_nil_of_mem (List.mem_eraseDups.mpr helement)
  have htypes : ∀ member ∈ elements.eraseDups.map f, member.type = type := by simp [htype]
  have hlisted : ∀ member ∈ elements.eraseDups.map f, member.enum ≠ none := by
    intro member hmember
    obtain ⟨element, helement, rfl⟩ := List.mem_map.mp hmember
    rw [henum element (List.mem_eraseDups.mp helement)]
    exact Option.some_ne_none _
  have hpool : pool type (elements.eraseDups.map f) = elements.eraseDups.map write := by
    rw [pool, List.flatMap_map, List.map_eq_flatMap]
    refine List.flatMap_congr fun element helement => ?_
    rw [← htype element, literalsOf_self (henum element (List.mem_eraseDups.mp helement))]
  have hmerged : mergedMembers context (elements.map f) =
      [pooled context (elements.eraseDups.map f) type] := by
    rw [mergedMembers, deduplicate_map hf, mergeEnums_of_listed htypes (by simpa using hkept) hlisted]
  rw [combine_of_single hmerged, pooled, hpool]

/-- The empty string takes the lists of the others away. -/
theorem combine_empty_text (context own : Text) {texts : List Text} (hempty : [] ∈ texts) :
    combine context (texts.map fun text => ofTextLiterals own [text]) false .union =
      { context := own, type := some "string" } := by
  have hmem := List.mem_eraseDups.mpr hempty
  have htypes : ∀ member ∈ texts.eraseDups.map fun text => ofTextLiterals own [text],
      member.type = some ("string" : Text) := by
    simp [ofTextLiterals_type]
  have hplain : ∀ text : Text, (ofTextLiterals own [text]).enum.isNone = (text == []) := by
    rintro (_ | ⟨c, rest⟩)
    · rfl
    · rw [ofTextLiterals, if_neg (by simp)]
      rfl
  have hmerged : mergedMembers context (texts.map fun text => ofTextLiterals own [text]) =
      [ofTextLiterals own [[]]] := by
    rw [mergedMembers, deduplicate_map (same_texts_iff own),
      mergeEnums_of_plain htypes (List.mem_map_of_mem hmem) rfl, List.filter_map]
    simp only [Function.comp_def, hplain]
    rw [List.filter_beq, List.count_eq_one_of_mem (nodup_eraseDups texts) hmem]
    rfl
  rw [combine_of_single hmerged]
  rfl

/-- Neither null nor a combination is described. -/
structure IsPlainChoice (schema : Schema) : Prop where
  nullable : schema.nullable = false
  oneOf : schema.oneOf = none
  anyOf : schema.anyOf = none
  allOf : schema.allOf = none

/-- Two schemas leave the choice of the same values of one type. -/
structure SameChoice (left right : Schema) : Prop where
  type_eq : left.type = right.type
  left_plain : left.IsPlainChoice
  right_plain : right.IsPlainChoice
  enum : Option.Rel Json.ListedAlike left.enum right.enum

theorem sameChoice_texts (context own : Text) {texts : List Text} (hne : texts ≠ []) :
    SameChoice (ofTextLiterals context texts)
      (combine context (texts.map fun text => ofTextLiterals own [text]) false .union) := by
  by_cases hempty : [] ∈ texts
  · rw [combine_empty_text context own hempty, ofTextLiterals, if_pos hempty]
    exact ⟨rfl, ⟨rfl, rfl, rfl, rfl⟩, ⟨rfl, rfl, rfl, rfl⟩, .none⟩
  · have henum : ∀ text ∈ texts, (ofTextLiterals own [text]).enum = some [Json.str text] := by
      intro text htext
      have hfilled : ¬ [] ∈ [text] := fun h => hempty (List.mem_singleton.mp h ▸ htext)
      rw [ofTextLiterals, if_neg hfilled]
      rfl
    rw [combine_literals (same_texts_iff own) hne (fun text => ofTextLiterals_type own [text]) henum,
      ofTextLiterals, if_neg hempty]
    exact ⟨rfl, ⟨rfl, rfl, rfl, rfl⟩, ⟨rfl, rfl, rfl, rfl⟩,
      .some (Json.listedAlike_eraseDups (fun _ _ => Json.same_str_str_iff) texts)⟩

theorem sameChoice_ints (context own : Text) {values : List Int} (hne : values ≠ []) :
    SameChoice (ofIntLiterals context values)
      (combine context (values.map fun value => ofIntLiterals own [value]) false .union) := by
  rw [combine_literals (same_ints_iff own) hne (fun _ => rfl) (fun _ _ => rfl)]
  exact ⟨rfl, ⟨rfl, rfl, rfl, rfl⟩, ⟨rfl, rfl, rfl, rfl⟩,
    .some (Json.listedAlike_eraseDups (fun _ _ => Json.same_int_int_iff) values)⟩

end Schema

namespace Resolver

open Schema

theorem mapM_literals {α : Type} (r : Resolver) (context : Text) {write : α → Json}
    {schemas : α → Schema}
    (h : ∀ source, ofLiteral? context (write source) = some (schemas source)) (sources : List α) :
    (sources.map fun source => TypeExpr.literal (write source)).mapM (r.resolve context) =
      pure (sources.map schemas) := by
  have hresolve : r.resolve context ∘ (fun source => TypeExpr.literal (write source)) =
      fun source => pure (schemas source) := by
    funext source
    rw [Function.comp_apply, resolve, h source]
  rw [List.mapM_map, hresolve, List.mapM_pure]

/-- **Listing literals at one stroke agrees with combining them one by one.** The literals of a union
that are all strings, or all integers, are listed by `Schema.ofLiterals?`. Each of them resolves on its
own, and the schemas are combined to one of the same type, not nullable and no combination either; and
both list the same values, in the same order of their first occurrences, or none of them lists any. -/
theorem literals_agree (r : Resolver) (context own : Text) {members : List TypeExpr}
    (hne : members ≠ [])
    (h : (∀ member ∈ members, ∃ text, member = .literal (.str text)) ∨
      ∀ member ∈ members, ∃ value, member = .literal (.int value)) :
    ∃ listed schemas, ofLiterals? context members = some listed ∧
      members.mapM (r.resolve own) = pure schemas ∧
      SameChoice listed (combine context schemas false .union) := by
  rcases h with h | h
  · obtain ⟨texts, rfl⟩ := exists_map_of_forall h
    exact ⟨_, _, ofLiterals?_eq_some_iff.mpr ⟨hne, .inl ⟨texts, rfl, rfl⟩⟩,
      mapM_literals r own (fun _ => rfl) texts, sameChoice_texts context own (by simpa using hne)⟩
  · obtain ⟨values, rfl⟩ := exists_map_of_forall h
    exact ⟨_, _, ofLiterals?_eq_some_iff.mpr ⟨hne, .inr ⟨values, rfl, rfl⟩⟩,
      mapM_literals r own (fun _ => rfl) values, sameChoice_ints context own (by simpa using hne)⟩

/-- Three literals, two of them equal, listed as they stand and combined one by one. -/
theorem three_literals_agree :
    let text := fun value : Text => TypeExpr.literal (.str value)
    let members := [text "b", text "a", text "b"]
    (members ≠ [] ∧ ∀ member ∈ members, ∃ value, member = text value) ∧
      ∃ schemas, members.mapM (({} : Resolver).resolve "$") = pure schemas ∧
        SameChoice
          { context := "$", type := some "string", enum := some [.str "b", .str "a", .str "b"] }
          (combine "$" schemas false .union) := by
  intro text members
  have hne : members ≠ [] := List.cons_ne_nil _ _
  have htexts : ∀ member ∈ members, ∃ value, member = text value := by
    simp [members]
  obtain ⟨listed, schemas, hlisted, hschemas, hsame⟩ :=
    literals_agree {} "$" "$" hne (.inl htexts)
  refine ⟨⟨hne, htexts⟩, schemas, hschemas, ?_⟩
  obtain rfl : _ = listed := Option.some.inj hlisted
  exact hsame

end Resolver

end Schemata
