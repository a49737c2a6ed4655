import Mathlib.Data.List.Nodup
import Mathlib.Data.List.Pairwise
import Schemata.Proofs.Invariants
import Schemata.Proofs.Parts

/-!
# Repeated values in lists

A list of allowed values is made in one of three ways, and in two of them a value may come again. A
union of nothing but literals lists them as they stand. Where lists of one type are put together,
members that are the same count once; but members that are not may share a value.

* **pools** — what is put together has no value twice exactly if no member lists one twice and no two
  members share one (`Schema.pool_different_iff`). Members that are the same do not count as two
  (`Schema.pool_of_deduplicate_different`, `Schema.Overlap.repeats`);
* **combining** — a list inside of what is combined is inside of a member, or a pool
  (`Schema.exists_merged_of_part`);
* **a run** — so a value comes again only if somewhere inside of the expression two literals or two
  lists collide (`Resolver.Resolves.listsOnce`), and where they do it does
  (`Resolver.Collides.repeats`).

`Resolver.repeats_only_where_lists_collide` puts them together.
-/

namespace Schemata

open List (Forall₂)

namespace Json

/-- No value is the same as one before it. -/
def Different (values : List Json) : Prop :=
  values.Pairwise fun left right => left.same right = false

instance (values : List Json) : Decidable (Different values) :=
  inferInstanceAs (Decidable (values.Pairwise fun left right => left.same right = false))

theorem different_map_iff {α : Type} {f : α → Json} (hf : ∀ left right, Same (f left) (f right) ↔
    left = right) {values : List α} : Different (values.map f) ↔ values.Nodup := by
  have hne : ∀ {left right}, (f left).same (f right) = false ↔ left ≠ right := by
    intro left right
    rw [Bool.eq_false_iff]
    exact not_congr (hf left right)
  rw [Different, List.pairwise_map, List.nodup_iff_pairwise_ne]
  exact ⟨fun h => h.imp hne.mp, fun h => h.imp hne.mpr⟩

end Json

namespace Schema

/-- The values that the schema lists are different. -/
def ListsOnce (schema : Schema) : Prop := ∀ values ∈ schema.enum, Json.Different values

theorem ListsOnce.of_none {schema : Schema} (h : schema.enum = none) : schema.ListsOnce := by
  intro values hvalues
  rw [h] at hvalues
  cases hvalues

/-! ## Pools -/

/-- The two members list one value of the type. -/
def Share (type : Option Text) (left right : Schema) : Prop :=
  ∃ value ∈ literalsOf type left, ∃ other ∈ literalsOf type right, Json.Same value other

/-- Two members that are not the same list one value of a type, and no member has the type and lists
no values. -/
def Overlap (members : List Schema) : Prop :=
  ∃ type ∈ openTypes members, ∃ left ∈ members, ∃ right ∈ members, ¬ Same left right ∧
    Share type left right

theorem Share.symm {type : Option Text} {left right : Schema} (h : Share type left right) :
    Share type right left := by
  obtain ⟨value, hvalue, other, hother, hsame⟩ := h
  exact ⟨other, hother, value, hvalue, (Json.same_equivalentAt value).symm hsame⟩

/-- **A pool has no value twice** exactly if no member lists one twice and no two members share
one. -/
theorem pool_different_iff {type : Option Text} {members : List Schema} :
    Json.Different (pool type members) ↔
      (∀ member ∈ members, Json.Different (literalsOf type member)) ∧
        members.Pairwise fun left right => ¬ Share type left right := by
  have hshare : ∀ {left right : Schema}, ¬ Share type left right ↔ ∀ value ∈ literalsOf type left,
      ∀ other ∈ literalsOf type right, value.same other = false := by
    simp [Share, Json.Same]
  simp only [hshare]
  exact List.pairwise_flatMap

/-- Members that are the same list the same values. -/
theorem literalsOf_of_same {type : Option Text} {left right : Schema} (h : Same left right) :
    Forall₂ Json.Same (literalsOf type left) (literalsOf type right) := by
  have hnode := same_iff.mp h
  have henum := hnode.enum
  unfold literalsOf
  rw [hnode.type]
  split
  · cases hleft : left.enum <;> cases hright : right.enum <;> rw [hleft, hright] at henum <;>
      simp_all
  · exact .nil

theorem Share.of_same {type : Option Text} {left right left' right' : Schema}
    (h : Share type left right) (hleft : Same left left') (hright : Same right right') :
    Share type left' right' := by
  obtain ⟨value, hvalue, other, hother, hsame⟩ := h
  obtain ⟨value', hvalue', hsameValue⟩ := exists_right_of_mem (literalsOf_of_same hleft) hvalue
  obtain ⟨other', hother', hsameOther⟩ := exists_right_of_mem (literalsOf_of_same hright) hother
  refine ⟨value', hvalue', other', hother', ?_⟩
  have hback := (Json.same_equivalentAt value).symm hsameValue
  exact (Json.same_equivalentAt value').trans hback
    ((Json.same_equivalentAt value).trans hsame hsameOther)

theorem mem_openTypes_deduplicate_iff {members : List Schema} {type : Option Text} :
    type ∈ openTypes (deduplicate members) ↔ type ∈ openTypes members := by
  -- a member and the one that is kept for it have one type, and both list values or none does
  have hkept : ∀ member ∈ members, ∃ kept ∈ deduplicate members, kept.type = member.type ∧
      kept.enum.isSome = member.enum.isSome := by
    intro member hmember
    obtain ⟨kept, hkept, hsame⟩ := exists_same_of_mem hmember
    exact ⟨kept, hkept, (same_iff.mp hsame).type.symm, hsame.enum_isSome_eq.symm⟩
  rw [mem_openTypes, mem_openTypes]
  constructor
  · rintro ⟨⟨member, hmember, hlisted⟩, hplain⟩
    refine ⟨⟨member, mem_of_mem_deduplicate hmember, hlisted⟩, fun plain hmem hnone => ?_⟩
    obtain ⟨kept, hkept, htype, henum⟩ := hkept plain hmem
    rw [← htype]
    exact hplain kept hkept (by simpa [hnone] using henum)
  · rintro ⟨⟨member, hmember, hlisted, htype⟩, hplain⟩
    obtain ⟨kept, hkept, hkeptType, henum⟩ := hkept member hmember
    exact ⟨⟨kept, hkept, henum.trans hlisted, hkeptType.trans htype⟩,
      fun plain hmem => hplain plain (mem_of_mem_deduplicate hmem)⟩

/-- Members without an overlap have pools without repetitions, if their own lists have none. -/
theorem pool_of_deduplicate_different {members : List Schema}
    (honce : ∀ member ∈ members, member.ListsOnce) (hnone : ¬ Overlap members) {type : Option Text}
    (htype : type ∈ openTypes members) : Json.Different (pool type (deduplicate members)) := by
  rw [pool_different_iff]
  constructor
  · intro member hmember
    unfold literalsOf
    split
    · cases henum : member.enum with
      | none => exact .nil
      | some values => exact honce member (mem_of_mem_deduplicate hmember) values henum
    · exact .nil
  · refine (deduplicate_pairwise members).imp_of_mem fun hleft hright hdiffer hshare => ?_
    exact hnone ⟨type, htype, _, mem_of_mem_deduplicate hleft, _, mem_of_mem_deduplicate hright,
      Bool.eq_false_iff.mp hdiffer, hshare⟩

/-- **Where members overlap a pool has a value twice.** -/
theorem Overlap.repeats {members : List Schema} (h : Overlap members) :
    ∃ type ∈ openTypes members, ¬ Json.Different (pool type (deduplicate members)) := by
  obtain ⟨type, htype, left, hleft, right, hright, hdiffer, hshare⟩ := h
  refine ⟨type, htype, fun hpool => ?_⟩
  obtain ⟨left', hleft', hsameLeft⟩ := exists_same_of_mem hleft
  obtain ⟨right', hright', hsameRight⟩ := exists_same_of_mem hright
  have hne : left' ≠ right' := by
    rintro rfl
    exact hdiffer ((same_equivalentAt left).trans hsameLeft (same_symm hsameRight))
  have : Std.Symm fun left right : Schema => ¬ Share type left right :=
    ⟨fun _ _ hnot hshare => hnot hshare.symm⟩
  exact (pool_different_iff.mp hpool).2.forall hleft' hright' hne
    (hshare.of_same hsameLeft hsameRight)

/-! ## Combining -/

/-- What is listed inside of a relabelled schema is listed inside of the schema. -/
theorem enum_of_part_of_relabel {part schema : Schema} {context : Text} {nullable : Bool}
    {description : Option Text} (h : Subtree part { schema with context, nullable, description }) :
    ∃ inner, Subtree inner schema ∧ inner.enum = part.enum := by
  cases h with
  | refl => exact ⟨schema, .refl schema, rfl⟩
  | child hchild hpart => exact ⟨part, .child hchild hpart, rfl⟩

theorem listsOnce_relabel {schema : Schema} {context : Text} {nullable : Bool}
    {description : Option Text} (h : ∀ part, Subtree part schema → part.ListsOnce) :
    ∀ part, Subtree part { schema with context, nullable, description } → part.ListsOnce := by
  intro part hpart
  obtain ⟨inner, hinner, henum⟩ := enum_of_part_of_relabel hpart
  rw [ListsOnce, ← henum]
  exact h inner hinner

/-- What is listed inside of what is combined is listed inside of a member that was merged. -/
theorem exists_merged_of_part {part : Schema} {context : Text} {members : List Schema}
    {nullable : Bool} {junction : Junction}
    (h : Subtree part (combine context members nullable junction)) (hlisted : part.enum ≠ none) :
    ∃ member ∈ mergedMembers context members, ∃ inner, Subtree inner member ∧
      inner.enum = part.enum := by
  rcases combine_cases context members nullable junction with ⟨-, heq⟩ | ⟨member, hmember, -, heq⟩ |
    ⟨-, ⟨-, heq⟩ | ⟨-, -, heq⟩ | ⟨-, -, heq⟩⟩ <;> rw [heq] at h
  · cases h with
    | refl => exact absurd rfl hlisted
    | child hchild => exact absurd hchild List.not_mem_nil
  · exact ⟨member, hmember, enum_of_part_of_relabel h⟩
  all_goals
    cases h with
    | refl => exact absurd rfl hlisted
    | child hchild hpart => exact ⟨_, by simpa [mem_children] using hchild, part, hpart, rfl⟩

/-- What a member that was merged lists is listed inside of what is combined. -/
theorem exists_part_of_merged {member : Schema} {context : Text} {members : List Schema}
    (h : member ∈ mergedMembers context members) (nullable : Bool) (junction : Junction) :
    ∃ part, Subtree part (combine context members nullable junction) ∧ part.enum = member.enum := by
  rcases combine_cases context members nullable junction with
    ⟨hnone, -⟩ | ⟨only, -, hmerged, heq⟩ | ⟨-, ⟨-, heq⟩ | ⟨-, -, heq⟩ | ⟨-, -, heq⟩⟩
  · rw [hnone] at h
    exact absurd h List.not_mem_nil
  · rw [hmerged, List.mem_singleton] at h
    exact ⟨_, .refl _, by rw [heq, h]⟩
  all_goals
    rw [heq]
    exact ⟨member, .child (by simpa [mem_children] using h) (.refl member), rfl⟩

/-- **A combination lists no value twice** if the schemas do not and their members do not overlap. -/
theorem listsOnce_combine {context : Text} {schemas : List Schema} {nullable : Bool}
    {junction : Junction}
    (h : ∀ schema ∈ schemas, ∀ part, Subtree part schema → part.ListsOnce)
    (hnone : ¬ Overlap (Members.gather schemas).schemas) :
    ∀ part, Subtree part (combine context (Members.gather schemas).schemas nullable junction) →
      part.ListsOnce := by
  intro part hpart values hvalues
  have hlisted : part.enum = some values := hvalues
  obtain ⟨member, hmember, inner, hinner, henum⟩ :=
    exists_merged_of_part hpart (by rw [hlisted]; exact Option.some_ne_none values)
  rw [hlisted] at henum
  rcases mem_merged_cases hmember with ⟨schema, hschema, rfl⟩ | ⟨type, htype, rfl⟩
  · obtain ⟨original, horiginal, heq⟩ := enum_of_part_of_relabel hinner
    exact h schema hschema original horiginal values (heq.trans henum)
  · -- a pool has no children
    cases hinner with
    | child hchild => exact absurd hchild List.not_mem_nil
    | refl =>
        obtain rfl := Option.some.inj henum
        refine pool_of_deduplicate_different (fun member hmember => ?_) hnone
          (mem_openTypes_deduplicate_iff.mp htype)
        obtain ⟨schema, hschema, rfl, -⟩ := Members.mem_gather.mp hmember
        exact h schema hschema schema (.refl schema)

/-- **Where members overlap, what they are combined to lists a value twice.** -/
theorem Overlap.exists_part {context : Text} {members : List Schema} (h : Overlap members)
    (nullable : Bool) (junction : Junction) :
    ∃ part, Subtree part (combine context members nullable junction) ∧ ¬ part.ListsOnce := by
  obtain ⟨type, htype, hrepeats⟩ := h.repeats
  have hmember : pooled context (deduplicate members) type ∈ mergedMembers context members :=
    mem_mergeEnums_iff.mpr (.inr ⟨type, mem_openTypes_deduplicate_iff.mpr htype, rfl⟩)
  obtain ⟨part, hpart, henum⟩ := exists_part_of_merged hmember nullable junction
  exact ⟨part, hpart, fun honce => hrepeats (honce _ henum)⟩

end Schema

/-! ## A run -/

namespace Resolver

open Schema TypeExpr

/-- Two literals collide in a union of literals, or two lists do where members are put together. -/
inductive Collides (r : Resolver) (context : Text) : TypeExpr → Prop
  | texts {texts : List Text} : [] ∉ texts → ¬ texts.Nodup →
      Collides r context (.union (texts.map fun text => .literal (.str text)))
  | ints {values : List Int} : ¬ values.Nodup →
      Collides r context (.union (values.map fun value => .literal (.int value)))
  | union {members : List TypeExpr} {schemas : List Schema} :
      Schema.ofLiterals? context members = none → r.ResolvesAll context members schemas →
      Overlap (Members.gather schemas).schemas → Collides r context (.union members)
  | intersection {members : List TypeExpr} {schemas : List Schema} :
      r.ResolvesAll context members schemas → Overlap (Members.gather schemas).schemas →
      Collides r context (.intersection members)

variable {r : Resolver} {context : Text} {expr : TypeExpr} {schema : Schema}

theorem listsOnce_texts_iff {texts : List Text} :
    (ofTextLiterals context texts).ListsOnce ↔ [] ∈ texts ∨ texts.Nodup := by
  unfold ofTextLiterals
  split
  · next hempty => exact iff_of_true (.of_none rfl) (.inl hempty)
  · next hempty =>
    rw [or_iff_right hempty, ← Json.different_map_iff fun _ _ => Json.same_str_str_iff]
    simp [ListsOnce]

theorem listsOnce_ints_iff {values : List Int} :
    (ofIntLiterals context values).ListsOnce ↔ values.Nodup := by
  rw [← Json.different_map_iff fun _ _ => Json.same_int_int_iff]
  simp [ListsOnce, ofIntLiterals]

theorem listsOnce_of_children (hroot : schema.enum = none)
    (h : ∀ child ∈ schema.children, ∀ part, Subtree part child → part.ListsOnce) :
    ∀ part, Subtree part schema → part.ListsOnce :=
  throughout_iff.mpr ⟨.of_none hroot, h⟩

/-- The schemas of members that stand beside them are those that the members resolve to. -/
theorem resolvesAll_of_zip {members : List TypeExpr} {schemas : List Schema}
    (hlength : members.length = schemas.length)
    (hall : ∀ pair ∈ members.zip schemas, r.Resolves context pair.1 pair.2) :
    r.ResolvesAll context members schemas :=
  List.forall₂_iff_zip.mpr ⟨hlength, fun hpair => (hall _ hpair).resolve_ok⟩

/-- **Where nothing collides no list repeats a value.** -/
theorem Resolves.listsOnce (h : r.Resolves context expr schema)
    (hnone : ∀ place inner, Within inner expr → ¬ r.Collides place inner) :
    ∀ part, Subtree part schema → part.ListsOnce := by
  induction h with
  | @builtin _ _ builtin _ _ =>
      refine throughout_of_no_children ?_ (by cases builtin <;> rfl)
      cases builtin <;> simp [ListsOnce, Json.Different, Builtin.schema, int64]
  | reference | emptyList | range => exact throughout_of_no_children (.of_none rfl) rfl
  | qualified _ ih =>
      refine ih fun place inner hinner hcollides => ?_
      cases hinner
      cases hcollides
  | nullable _ ih =>
      exact listsOnce_relabel (ih fun place inner hinner => hnone place inner (.nullable hinner))
  | described _ ih =>
      exact listsOnce_relabel (ih fun place inner hinner => hnone place inner (.described hinner))
  | arrayOf _ ih =>
      refine listsOnce_of_children rfl fun child hchild => ?_
      obtain rfl : _ = child := by simpa [mem_children] using hchild
      exact ih fun place inner hinner => hnone place inner (.arrayOf hinner)
  | list hname _ _ ih =>
      refine listsOnce_of_children rfl fun child hchild => ?_
      obtain rfl : _ = child := by simpa [mem_children] using hchild
      exact ih fun place inner hinner => hnone place inner (.list hname hinner)
  | map _ ih =>
      refine listsOnce_of_children rfl fun child hchild => ?_
      obtain rfl : _ = child := by simpa [mem_children] using hchild
      exact ih fun place inner hinner => hnone place inner (.map hinner)
  | shape hlength _ ih =>
      refine listsOnce_of_children rfl fun child hchild => ?_
      obtain ⟨field, hpair⟩ := exists_field_of_child hlength hchild
      exact ih _ hpair fun place inner hinner =>
        hnone place inner (.shape (List.of_mem_zip hpair).1 hinner)
  | literal hliteral =>
      obtain ⟨text, -, rfl⟩ | ⟨value, -, rfl⟩ := ofLiteral?_eq_some_iff.mp hliteral
      · exact throughout_of_texts (listsOnce_texts_iff.mpr (.inr (List.nodup_singleton text)))
      · exact throughout_of_no_children (listsOnce_ints_iff.mpr (List.nodup_singleton value)) rfl
  | @literals context members _ hliterals =>
      obtain ⟨-, ⟨texts, rfl, rfl⟩ | ⟨values, rfl, rfl⟩⟩ := ofLiterals?_eq_some_iff.mp hliterals
      · refine throughout_of_texts (listsOnce_texts_iff.mpr ?_)
        by_contra hrepeats
        rw [not_or] at hrepeats
        exact hnone context _ (.refl _) (.texts hrepeats.1 hrepeats.2)
      · refine throughout_of_no_children (listsOnce_ints_iff.mpr ?_) rfl
        by_contra hrepeats
        exact hnone context _ (.refl _) (.ints hrepeats)
  | @union context _ _ _ hliterals _ hlength hall ih =>
      refine listsOnce_combine (fun schema hschema => ?_) fun hoverlap => ?_
      · obtain ⟨member, hpair⟩ := exists_part_of_mem hlength hschema
        exact ih _ hpair fun place inner hinner =>
          hnone place inner (.union (List.of_mem_zip hpair).1 hinner)
      · exact hnone context _ (.refl _)
          (.union hliterals (resolvesAll_of_zip hlength hall) hoverlap)
  | @intersection context _ _ _ _ hlength hall ih =>
      refine listsOnce_combine (fun schema hschema => ?_) fun hoverlap => ?_
      · obtain ⟨member, hpair⟩ := exists_part_of_mem hlength hschema
        exact ih _ hpair fun place inner hinner =>
          hnone place inner (.intersection (List.of_mem_zip hpair).1 hinner)
      · exact hnone context _ (.refl _)
          (.intersection (resolvesAll_of_zip hlength hall) hoverlap)

/-- **Where something collides a list repeats a value.** -/
theorem Collides.repeats (h : r.Collides context expr) (hresolves : r.Resolves context expr schema) :
    ∃ part, Subtree part schema ∧ ¬ part.ListsOnce := by
  cases h with
  | @texts texts hempty hrepeats =>
      have hne : texts ≠ [] := by
        rintro rfl
        exact hrepeats List.nodup_nil
      obtain rfl := hresolves.unique (.literals (ofLiterals?_eq_some_iff.mpr
        ⟨by simpa using hne, .inl ⟨texts, rfl, rfl⟩⟩))
      exact ⟨_, .refl _, fun honce => (listsOnce_texts_iff.mp honce).elim hempty hrepeats⟩
  | @ints values hrepeats =>
      have hne : values ≠ [] := by
        rintro rfl
        exact hrepeats List.nodup_nil
      obtain rfl := hresolves.unique (.literals (ofLiterals?_eq_some_iff.mpr
        ⟨by simpa using hne, .inr ⟨values, rfl, rfl⟩⟩))
      exact ⟨_, .refl _, fun honce => hrepeats (listsOnce_ints_iff.mp honce)⟩
  | union hliterals hall hoverlap =>
      cases hresolves with
      | literals hfound =>
          rw [hliterals] at hfound
          cases hfound
      | union _ _ _ hlength hzip =>
          obtain rfl := hall.unique (resolvesAll_of_zip hlength hzip)
          exact hoverlap.exists_part _ _
  | intersection hall hoverlap =>
      cases hresolves with
      | intersection _ _ hlength hzip =>
          obtain rfl := hall.unique (resolvesAll_of_zip hlength hzip)
          exact hoverlap.exists_part _ _

/-- **A list repeats a value only where literals or lists collide.** If a value comes again in a list
inside of what an expression resolves to then somewhere in the expression a union of literals has a
literal twice, or two members of a union or an intersection that are not the same list one value, of a
type that no member has without a list. And each such union or intersection resolves to something with
a list in which a value comes again. -/
theorem repeats_only_where_lists_collide (h : (r.resolve context expr).outcome = .ok schema) :
    (∀ part, Subtree part schema → ¬ part.ListsOnce →
      ∃ place inner, Within inner expr ∧ r.Collides place inner) ∧
    (r.Collides context expr → ∃ part, Subtree part schema ∧ ¬ part.ListsOnce) := by
  refine ⟨fun part hpart hrepeats => ?_, fun hcollides => hcollides.repeats (resolves_of_ok h)⟩
  by_contra hnone
  refine hrepeats ((resolves_of_ok h).listsOnce (fun place inner hinner hcollides => ?_) part hpart)
  exact hnone ⟨place, inner, hinner, hcollides⟩

/-- A list of `('a'|'b')|('b'|'c')`: the two unions share a value, and it is listed twice. -/
theorem nested_unions_collide :
    let r : Resolver := {}
    let literals := fun texts : List Text => TypeExpr.union (texts.map fun text => .literal (.str text))
    let expr : TypeExpr := .union [literals ["a", "b"], literals ["b", "c"]]
    (∃ place inner, Within inner (.arrayOf expr) ∧ r.Collides place inner) ∧
      ∃ schema, (r.resolve "$" expr).outcome = .ok schema ∧
        ∃ part, Subtree part schema ∧ ¬ part.ListsOnce := by
  intro r literals expr
  have hlist : ∃ schema, (r.resolve "$" (.arrayOf expr)).outcome = .ok schema ∧
      ∃ part, Subtree part schema ∧ ¬ part.ListsOnce := by
    refine ⟨_, rfl, _, .child List.mem_cons_self (.refl _), fun honce => ?_⟩
    exact absurd (honce _ rfl) (by decide)
  have hcollides : r.Collides "$" expr := by
    refine .union rfl (.cons rfl (.cons rfl .nil)) ?_
    refine ⟨some "string", by decide, _, List.mem_cons_self, _,
      List.mem_cons_of_mem _ List.mem_cons_self, by decide, ?_⟩
    exact ⟨.str "b", .tail _ (.head _), .str "b", .head _, by decide⟩
  obtain ⟨schema, hschema, part, hpart, hrepeats⟩ := hlist
  exact ⟨(repeats_only_where_lists_collide hschema).1 part hpart hrepeats, _, rfl,
    (repeats_only_where_lists_collide rfl).2 hcollides⟩

/-- `'a'|'a'` lists its value twice. -/
theorem union_of_literals_repeats_value :
    let literal := TypeExpr.literal (.str "a")
    ∃ schema, (({} : Resolver).resolve "$" (.union [literal, literal])).outcome = .ok schema ∧
      schema.enum = some [.str "a", .str "a"] ∧ ¬ schema.ListsOnce := by
  intro literal
  exact ⟨_, rfl, rfl, fun honce => absurd (honce _ rfl) (by decide)⟩

end Resolver

end Schemata
