import Mathlib.Data.List.Perm.Basic
import Schemata.Proofs.Unions

/-!
# The order of members

A union or an intersection means the same in whatever order its members are written. Every step looks
at the members one after the other, but what it returns depends on the order by an order only:

* **lists** — two lists agree up to their order if one can be permuted so that its elements are
  related to those of the other one by one (`Reordered`). Lists without repetitions do if they have
  the same classes (`Reordered.of_pairwise`);
* **members** — deduplication keeps other members of the same classes (`Schema.deduplicate_reordered`),
  and merging makes pools with the same values (`Schema.mergeEnums_reordered`);
* **the form** — it depends on how many members are left and on their types
  (`Schema.combine_rearranged`);
* **resolution** — one order resolves if the other one does, to schemas that agree in this way, and
  records the same (`Resolver.resolve_perm`).
-/

namespace Schemata

open List (Forall₂)

/-! ## Lists up to their order -/

theorem forall₂_imp_of_mem_both {α β : Type} {R S : α → β → Prop} {as : List α} {bs : List β}
    (h : ∀ a ∈ as, ∀ b ∈ bs, R a b → S a b) (hall : Forall₂ R as bs) : Forall₂ S as bs := by
  have hright : Forall₂ (fun a b => b ∈ bs ∧ R a b) as bs :=
    ((List.forall₂_and_left bs as).mpr ⟨fun _ hb => hb, hall.flip⟩).flip
  exact forall₂_imp_of_mem (fun a ha b hab => h a ha b hab.1 hab.2) hright

/-- The lists agree up to their order, if related elements are taken for equal. -/
def Reordered {α : Type} (R : α → α → Prop) (left right : List α) : Prop :=
  ∃ middle, left.Perm middle ∧ Forall₂ R middle right

namespace Reordered

variable {α β : Type} {R S : α → α → Prop} {left right : List α}

theorem of_forall₂ (h : Forall₂ R left right) : Reordered R left right := ⟨left, .refl left, h⟩

theorem length_eq (h : Reordered R left right) : left.length = right.length := by
  obtain ⟨middle, hperm, hall⟩ := h
  rw [hperm.length_eq, hall.length_eq]

theorem imp_of_mem (himp : ∀ a ∈ left, ∀ b ∈ right, R a b → S a b) (h : Reordered R left right) :
    Reordered S left right := by
  obtain ⟨middle, hperm, hall⟩ := h
  exact ⟨middle, hperm,
    forall₂_imp_of_mem_both (fun a ha => himp a (hperm.mem_iff.mpr ha)) hall⟩

theorem append {lefts rights : List α} (h : Reordered R left right)
    (h' : Reordered R lefts rights) : Reordered R (left ++ lefts) (right ++ rights) := by
  obtain ⟨middle, hperm, hall⟩ := h
  obtain ⟨middles, hperm', hall'⟩ := h'
  exact ⟨middle ++ middles, hperm.append hperm', List.rel_append hall hall'⟩

/-- A test that does not tell related elements apart takes elements that agree. -/
theorem filter {p : α → Bool} (hp : ∀ {a b}, R a b → p a = p b) (h : Reordered R left right) :
    Reordered R (left.filter p) (right.filter p) := by
  obtain ⟨middle, hperm, hall⟩ := h
  refine ⟨middle.filter p, hperm.filter p, List.rel_filter ?_ hall⟩
  intro a b hab
  show p a = true ↔ p b = true
  rw [hp hab]

/-- What related elements have in common is the same list up to its order. -/
theorem map_perm {f : α → β} (hf : ∀ {a b}, R a b → f a = f b) (h : Reordered R left right) :
    (left.map f).Perm (right.map f) := by
  obtain ⟨middle, hperm, hall⟩ := h
  have heq : middle.map f = right.map f := by
    rw [← List.forall₂_eq_eq_eq, List.forall₂_map_left_iff, List.forall₂_map_right_iff]
    exact hall.imp fun _ _ hab => hf hab
  rw [← heq]
  exact hperm.map f

/-- **Lists without repetitions agree up to their order if they have the same classes.** -/
theorem of_pairwise (heq : Equivalence R) (hleft : left.Pairwise fun a b => ¬ R a b)
    (hright : right.Pairwise fun a b => ¬ R a b) (h : ∀ a ∈ left, ∃ b ∈ right, R a b)
    (h' : ∀ b ∈ right, ∃ a ∈ left, R a b) : Reordered R left right := by
  induction right generalizing left with
  | nil =>
      have hnil : left = [] := by
        refine List.eq_nil_iff_forall_not_mem.mpr fun a ha => ?_
        obtain ⟨b, hb, -⟩ := h a ha
        exact absurd hb List.not_mem_nil
      subst hnil
      exact of_forall₂ .nil
  | cons b rest ih =>
      -- the one element of the class of the head is taken out of the left list
      obtain ⟨a, ha, hab⟩ := h' b List.mem_cons_self
      obtain ⟨before, after, rfl⟩ := List.append_of_mem ha
      have hperm : (before ++ a :: after).Perm (a :: (before ++ after)) := List.perm_middle
      have hsymm : ∀ {x y : α}, ¬ R x y → ¬ R y x := fun hxy hyx => hxy (heq.symm hyx)
      obtain ⟨hother, hleft⟩ := List.pairwise_cons.mp ((hperm.pairwise_iff hsymm).mp hleft)
      obtain ⟨hnew, hright⟩ := List.pairwise_cons.mp hright
      have hothers : Reordered R (before ++ after) rest := by
        refine ih hleft hright ?_ ?_
        · intro x hx
          obtain ⟨y, hy, hxy⟩ := h x (hperm.mem_iff.mpr (List.mem_cons_of_mem a hx))
          rcases List.mem_cons.mp hy with rfl | hy
          · exact absurd (heq.trans hab (heq.symm hxy)) (hother x hx)
          · exact ⟨y, hy, hxy⟩
        · intro y hy
          obtain ⟨x, hx, hxy⟩ := h' y (List.mem_cons_of_mem b hy)
          rcases List.mem_cons.mp (hperm.mem_iff.mp hx) with rfl | hx
          · exact absurd (heq.trans (heq.symm hab) hxy) (hnew y hy)
          · exact ⟨x, hx, hxy⟩
      obtain ⟨middle, hmiddle, hall⟩ := hothers
      exact ⟨a :: middle, hperm.trans (hmiddle.cons a), .cons hab hall⟩

end Reordered

namespace Schema

/-! ## Schemas up to the order of members -/

/-- The schemas agree up to the order in which the root lists its values. -/
structure SameButEnumOrder (left right : Schema) : Prop where
  rest : Same { left with enum := none } { right with enum := none }
  enum : Option.Rel List.Perm left.enum right.enum

/-- The schemas agree up to the order of the members of their root, and of the values that the root
or a member lists. -/
structure Rearranged (left right : Schema) : Prop where
  rest : Same { left with oneOf := none, anyOf := none, allOf := none, enum := none }
    { right with oneOf := none, anyOf := none, allOf := none, enum := none }
  oneOf : Option.Rel (Reordered SameButEnumOrder) left.oneOf right.oneOf
  anyOf : Option.Rel (Reordered SameButEnumOrder) left.anyOf right.anyOf
  allOf : Option.Rel (Reordered SameButEnumOrder) left.allOf right.allOf
  enum : Option.Rel List.Perm left.enum right.enum

/-- Well-shaped schemas that are the same list the same values, in the same order. -/
theorem Same.enum_eq {left right : Schema} (h : Same left right) (hleft : left.WellShaped)
    (hright : right.WellShaped) : left.enum = right.enum := by
  have hnode := same_iff.mp h
  have henum := hnode.enum
  cases hvalues : left.enum with
  | none =>
      rw [hvalues] at henum
      cases hothers : right.enum with
      | none => rfl
      | some others =>
          rw [hothers] at henum
          cases henum
  | some values =>
      cases hothers : right.enum with
      | none =>
          rw [hvalues, hothers] at henum
          cases henum
      | some others =>
          rw [hvalues, hothers] at henum
          obtain ⟨-, ⟨type, -, htype, hall⟩, -⟩ := hleft.enum values hvalues
          obtain ⟨-, ⟨name, -, hname, hall'⟩, -⟩ := hright.enum others hothers
          rw [← hnode.type, htype, Option.some.injEq] at hname
          subst hname
          cases henum with
          | some hsame =>
              refine congrArg some (List.forall₂_eq_eq_eq ▸ ?_)
              exact forall₂_imp_of_mem_both
                (fun a ha b hb => Json.eq_of_isLiteralOf (hall a ha) (hall' b hb)) hsame

/-- The schemas are the same, and list the same values in the same order. -/
def Twins (left right : Schema) : Prop := Same left right ∧ left.enum = right.enum

theorem Twins.sameButEnumOrder {left right : Schema} (h : Twins left right) :
    SameButEnumOrder left right := by
  refine ⟨same_iff.mpr { same_iff.mp h.1 with enum := .none }, ?_⟩
  rw [h.2]
  cases right.enum with
  | none => exact .none
  | some values => exact .some (.refl values)

/-! ## Members -/

/-- **Deduplication keeps members of the same classes, in whatever order they come.** -/
theorem deduplicate_reordered {left right : List Schema} (h : left.Perm right) :
    Reordered Same (deduplicate left) (deduplicate right) := by
  have heq : Equivalence Same :=
    ⟨fun a => (same_equivalentAt a).refl, fun {a _} => (same_equivalentAt a).symm,
      fun {a _ _} => (same_equivalentAt a).trans⟩
  have hdistinct : ∀ members : List Schema,
      (deduplicate members).Pairwise fun a b => ¬ Same a b := by
    intro members
    exact (deduplicate_pairwise members).imp Bool.eq_false_iff.mp
  refine .of_pairwise heq (hdistinct left) (hdistinct right) ?_ ?_
  · intro a ha
    exact exists_same_of_mem (h.mem_iff.mp (mem_of_mem_deduplicate ha))
  · intro b hb
    obtain ⟨a, ha, hba⟩ := exists_same_of_mem (h.mem_iff.mpr (mem_of_mem_deduplicate hb))
    exact ⟨a, ha, same_symm hba⟩

variable {left right : List Schema}

/-- A type has a pool on both sides or on none. -/
theorem openTypes_perm (h : Reordered Twins left right) :
    (openTypes left).Perm (openTypes right) := by
  -- whether there is a pool depends on the types of the members and on which of them have a list
  have hpairs : (left.map fun member => (member.type, member.enum)).Perm
      (right.map fun member => (member.type, member.enum)) :=
    h.map_perm fun hab => Prod.ext (same_iff.mp hab.1).type hab.2
  have hmem : ∀ (members : List Schema) (type : Option Text), type ∈ openTypes members ↔
      (∃ pair ∈ members.map fun member => (member.type, member.enum),
        pair.2.isSome = true ∧ pair.1 = type) ∧
      ∀ pair ∈ members.map fun member => (member.type, member.enum),
        pair.2 = none → pair.1 ≠ type := by
    intro members type
    rw [mem_openTypes]
    simp
  rw [List.perm_ext_iff_of_nodup (nodup_openTypes left) (nodup_openTypes right)]
  intro type
  rw [hmem, hmem]
  simp only [hpairs.mem_iff]

theorem pool_perm (h : Reordered Twins left right) (type : Option Text) :
    (pool type left).Perm (pool type right) := by
  have hlists : (left.map (literalsOf type)).Perm (right.map (literalsOf type)) := by
    refine h.map_perm fun hab => ?_
    rw [literalsOf, literalsOf, (same_iff.mp hab.1).type, hab.2]
  rw [pool, pool, List.flatMap_def, List.flatMap_def]
  exact hlists.flatten

/-- **Merging makes pools of the same values.** -/
theorem mergeEnums_reordered (context : Text) (h : Reordered Twins left right) :
    Reordered SameButEnumOrder (mergeEnums context left) (mergeEnums context right) := by
  rw [mergeEnums_eq, mergeEnums_eq]
  refine .append ?_ ?_
  · have hplain : Reordered Twins (left.filter fun member => member.enum.isNone)
        (right.filter fun member => member.enum.isNone) :=
      h.filter fun hab => by rw [hab.2]
    exact hplain.imp_of_mem fun _ _ _ _ hab => hab.sameButEnumOrder
  · -- the types come in another order, and their pools have their values in another order
    refine ⟨(openTypes right).map (pooled context left), (openTypes_perm h).map _, ?_⟩
    rw [List.forall₂_map_left_iff, List.forall₂_map_right_iff, List.forall₂_same]
    intro type _
    exact ⟨(same_equivalentAt _).refl, .some (pool_perm h type)⟩

/-! ## The form -/

/-- The types tell members apart in one order if they do in the other. -/
theorem areDistinguished_eq (h : Reordered SameButEnumOrder left right) :
    areDistinguished left = areDistinguished right := by
  have hnames : (left.map typeName).Perm (right.map typeName) := by
    refine h.map_perm fun hab => ?_
    have htype := (same_iff.mp hab.rest).type
    simp only at htype
    rw [typeName, typeName, htype]
  have hiff : ∀ members : List Schema, areDistinguished members = true ↔
      (∀ name ∈ members.map typeName, name.isSome = true) ∧ (members.map typeName).Nodup := by
    intro members
    rw [areDistinguished_iff, List.forall_mem_map]
  rw [Bool.eq_iff_iff, hiff, hiff, hnames.nodup_iff]
  simp only [hnames.mem_iff]

/-- Everything inside is well-shaped. -/
def IsSound (schema : Schema) : Prop := ∀ part, Subtree part schema → part.WellShaped

/-- What a root holds is sound as the root is. -/
theorem IsSound.eachChild {schema : Schema} (h : schema.IsSound) : schema.EachChild IsSound :=
  eachChild_of_forall (throughout_iff.mp h).2

theorem IsSound.twins {left right : Schema} (hleft : left.IsSound) (hright : right.IsSound)
    (h : Same left right) : Twins left right :=
  ⟨h, h.enum_eq (hleft left (.refl left)) (hright right (.refl right))⟩

/-- Sound members that are the same one by one agree up to their order. -/
theorem reordered_of_same {lefts rights : Option (List Schema)}
    (hleft : ∀ list ∈ lefts, ∀ member ∈ list, member.IsSound)
    (hright : ∀ list ∈ rights, ∀ member ∈ list, member.IsSound)
    (h : Option.Rel (Forall₂ Same) lefts rights) :
    Option.Rel (Reordered SameButEnumOrder) lefts rights := by
  cases h with
  | none => exact .none
  | some hsame =>
      refine .some (.of_forall₂ (forall₂_imp_of_mem_both (fun a ha b hb hab => ?_) hsame))
      exact ((hleft _ rfl a ha).twins (hright _ rfl b hb) hab).sameButEnumOrder

/-- Members that agree but for the order of their values agree up to any order. -/
theorem SameButEnumOrder.rearranged {left right : Schema} (h : SameButEnumOrder left right)
    (hleft : left.IsSound) (hright : right.IsSound) (nullable : Bool) :
    Rearranged { left with nullable } { right with nullable } := by
  have hnode := same_iff.mp h.rest
  have hleft := hleft.eachChild
  have hright := hright.eachChild
  refine ⟨same_iff.mpr ?_, reordered_of_same hleft.oneOf hright.oneOf hnode.oneOf,
    reordered_of_same hleft.anyOf hright.anyOf hnode.anyOf,
    reordered_of_same hleft.allOf hright.allOf hnode.allOf, h.enum⟩
  exact { hnode with nullable := rfl, oneOf := .none, anyOf := .none, allOf := .none }

/-- **Members that agree up to their order are combined to schemas that do.** -/
theorem combine_rearranged {context : Text}
    (h : Reordered SameButEnumOrder (mergedMembers context left) (mergedMembers context right))
    (hleft : ∀ member ∈ mergedMembers context left, member.IsSound)
    (hright : ∀ member ∈ mergedMembers context right, member.IsSound) (nullable : Bool)
    (junction : Junction) :
    Rearranged (combine context left nullable junction)
      (combine context right nullable junction) := by
  unfold combine
  rw [mergedMembers, mergedMembers] at h
  rw [mergedMembers] at hleft hright
  generalize mergeEnums context (deduplicate left) = lefts at h hleft ⊢
  generalize mergeEnums context (deduplicate right) = rights at h hright ⊢
  have hlength := h.length_eq
  have hrest : ∀ schema : Schema, Same schema schema :=
    fun schema => (same_equivalentAt schema).refl
  -- the cases of the match in the definition, which are the same on both sides
  rcases lefts with _ | ⟨first, _ | ⟨second, rest⟩⟩
  · obtain rfl := List.eq_nil_of_length_eq_zero hlength.symm
    exact ⟨hrest _, .none, .none, .none, .none⟩
  · obtain ⟨other, rfl⟩ := List.length_eq_one_iff.mp hlength.symm
    have hsame : SameButEnumOrder first other := by
      obtain ⟨middle, hperm, hall⟩ := h
      obtain rfl := List.perm_singleton.mp hperm.symm
      exact (List.forall₂_cons.mp hall).1
    exact hsame.rearranged (hleft first List.mem_cons_self) (hright other List.mem_cons_self)
      nullable
  · rcases rights with _ | ⟨first', _ | ⟨second', rest'⟩⟩
    · simp at hlength
    · simp at hlength
    · cases junction with
      | intersection => exact ⟨hrest _, .none, .none, .some h, .none⟩
      | union =>
          simp only [areDistinguished_eq h]
          split
          · exact ⟨hrest _, .some h, .none, .none, .none⟩
          · exact ⟨hrest _, .none, .some h, .none, .none⟩

end Schema

/-! ## Gathering -/

namespace Members

open Schema

/-- What a schema is as a member: it is without null, and it is no member if nothing is left. -/
def rest? (schema : Schema) : Option Schema :=
  if schema.nullable ∧ ({ schema with nullable := false } : Schema).same {} then none
  else some { schema with nullable := false }

theorem gather_schemas (schemas : List Schema) :
    (gather schemas).schemas = schemas.filterMap rest? := by
  induction schemas with
  | nil => rfl
  | cons schema schemas ih =>
      show (add schema (gather schemas)).schemas = _
      rw [List.filterMap_cons, ← ih, add, rest?]
      cases hn : schema.nullable with
      | true =>
          simp only [if_pos, true_and]
          split <;> rfl
      | false => simp [eq_of_not_nullable hn]

theorem gather_perm {schemas others : List Schema} (h : schemas.Perm others) :
    (gather schemas).schemas.Perm (gather others).schemas := by
  rw [gather_schemas, gather_schemas]
  exact h.filterMap rest?

theorem isSound_of_mem_gather {schemas : List Schema} (h : ∀ schema ∈ schemas, schema.IsSound) :
    ∀ member ∈ (gather schemas).schemas, member.IsSound := by
  intro member hmember
  obtain ⟨schema, hschema, rfl, -⟩ := mem_gather.mp hmember
  exact WellShaped.invariant.throughout_relabel _ _ _ (h schema hschema)

end Members

namespace Schema

/-- **The order of resolved members decides an order only.** -/
theorem combine_perm {context : Text} {schemas others : List Schema} (h : schemas.Perm others)
    (hsound : ∀ schema ∈ schemas, schema.IsSound) (junction : Junction) :
    Rearranged
      (combine context (Members.gather schemas).schemas (Members.gather schemas).nullable junction)
      (combine context (Members.gather others).schemas (Members.gather others).nullable
        junction) := by
  have hsound' : ∀ other ∈ others, other.IsSound :=
    fun other hother => hsound other (h.mem_iff.mpr hother)
  have hkept : Reordered Twins (deduplicate (Members.gather schemas).schemas)
      (deduplicate (Members.gather others).schemas) := by
    refine (deduplicate_reordered (Members.gather_perm h)).imp_of_mem fun a ha b hb hab => ?_
    exact (Members.isSound_of_mem_gather hsound a (mem_of_mem_deduplicate ha)).twins
      (Members.isSound_of_mem_gather hsound' b (mem_of_mem_deduplicate hb)) hab
  have hnull : (Members.gather schemas).nullable = (Members.gather others).nullable := by
    rw [Members.gather_nullable, Members.gather_nullable, h.any_eq]
  rw [hnull]
  exact combine_rearranged (mergeEnums_reordered context hkept)
    (WellShaped.invariant.throughout_merged context hsound)
    (WellShaped.invariant.throughout_merged context hsound') _ junction

/-- Literals in another order are taken together as well. -/
theorem ofLiterals?_perm {context : Text} {members others : List TypeExpr}
    (h : members.Perm others) {schema : Schema} (hschema : ofLiterals? context members = some schema) :
    ∃ other, ofLiterals? context others = some other ∧ Rearranged schema other := by
  obtain ⟨hne, hlist⟩ := ofLiterals?_eq_some_iff.mp hschema
  have hne' : others ≠ [] := fun hnil => hne (List.perm_nil.mp (hnil ▸ h))
  have hwritten : ∀ {α : Type} {write : α → TypeExpr} {values : List α},
      members = values.map write →
      ∃ values' : List α, others = values'.map write ∧ values'.Perm values := by
    intro α write values hmembers
    have hperm : others.Perm (values.map write) := hmembers ▸ h.symm
    exact (congrFun₂ (List.eq_map_comp_perm write) others values).mpr hperm
  rcases hlist with ⟨texts, htexts, rfl⟩ | ⟨values, hvalues, rfl⟩
  · obtain ⟨texts', htexts', hperm⟩ := hwritten htexts
    refine ⟨ofTextLiterals context texts',
      ofLiterals?_eq_some_iff.mpr ⟨hne', .inl ⟨texts', htexts', rfl⟩⟩, ?_⟩
    unfold ofTextLiterals
    simp only [hperm.mem_iff]
    split
    · exact ⟨(same_equivalentAt _).refl, .none, .none, .none, .none⟩
    · exact ⟨(same_equivalentAt _).refl, .none, .none, .none, .some (hperm.symm.map Json.str)⟩
  · obtain ⟨values', hvalues', hperm⟩ := hwritten hvalues
    refine ⟨ofIntLiterals context values',
      ofLiterals?_eq_some_iff.mpr ⟨hne', .inr ⟨values', hvalues', rfl⟩⟩, ?_⟩
    exact ⟨(same_equivalentAt _).refl, .none, .none, .none, .some (hperm.symm.map Json.int)⟩

end Schema

/-! ## Resolution -/

/-- The union or the intersection of members. -/
def TypeExpr.joined : Junction → List TypeExpr → TypeExpr
  | .union, members => .union members
  | .intersection, members => .intersection members

namespace Resolver

open Schema

variable {r : Resolver} {context : Text}

/-- Members that resolve do so in any order, to the same schemas. -/
theorem resolves_zip_perm {members others : List TypeExpr} {schemas : List Schema}
    (h : members.Perm others) (hlength : members.length = schemas.length)
    (hall : ∀ pair ∈ members.zip schemas, r.Resolves context pair.1 pair.2) :
    ∃ schemas', schemas.Perm schemas' ∧ others.length = schemas'.length ∧
      ∀ pair ∈ others.zip schemas', r.Resolves context pair.1 pair.2 := by
  have hparts : Forall₂ (r.Resolves context) members schemas :=
    List.forall₂_iff_zip.mpr ⟨hlength, fun hpair => hall _ hpair⟩
  obtain ⟨schemas', hparts', hperm⟩ := List.perm_comp_forall₂ h.symm hparts
  exact ⟨schemas', hperm.symm, forall_zip_of_forall₂ hparts'⟩

/-- If one order resolves then the other does, to a schema that differs in the order only. -/
theorem Resolves.perm {junction : Junction} {members others : List TypeExpr}
    (hperm : members.Perm others) {left : Schema}
    (h : r.Resolves context (.joined junction members) left) :
    ∃ right, r.Resolves context (.joined junction others) right ∧ left.Rearranged right := by
  have hnil : members ≠ [] → others ≠ [] := fun hne heq => hne (List.perm_nil.mp (heq ▸ hperm))
  have hmixed : (r.strict = true → ∀ member ∈ members, member.isIdentifier "mixed" = false) →
      r.strict = true → ∀ other ∈ others, other.isIdentifier "mixed" = false :=
    fun hnone hstrict other hother => hnone hstrict other (hperm.mem_iff.mpr hother)
  have hsound : ∀ {schemas : List Schema}, members.length = schemas.length →
      (∀ pair ∈ members.zip schemas, r.Resolves context pair.1 pair.2) →
      ∀ schema ∈ schemas, schema.IsSound := by
    intro schemas hlength hall schema hschema
    obtain ⟨member, hpair⟩ := exists_part_of_mem hlength hschema
    exact (hall _ hpair).throughout WellShaped.invariant
  cases junction with
  | union =>
      rw [TypeExpr.joined] at h ⊢
      cases h with
      | literals hschema =>
          obtain ⟨right, hright, hrearranged⟩ := ofLiterals?_perm hperm hschema
          exact ⟨right, .literals hright, hrearranged⟩
      | union hne hmixture hstrict hlength hall =>
          obtain ⟨schemas', hschemas, hlength', hall'⟩ := resolves_zip_perm hperm hlength hall
          have hmixture' : ofLiterals? context others = none := by
            refine Option.eq_none_iff_forall_ne_some.mpr fun schema hschema => ?_
            obtain ⟨other, hother, -⟩ := ofLiterals?_perm hperm.symm hschema
            rw [hmixture] at hother
            exact absurd hother (by simp)
          exact ⟨_, .union (hnil hne) hmixture' (hmixed hstrict) hlength' hall',
            combine_perm hschemas (hsound hlength hall) .union⟩
  | intersection =>
      rw [TypeExpr.joined] at h ⊢
      cases h with
      | intersection hne hstrict hlength hall =>
          obtain ⟨schemas', hschemas, hlength', hall'⟩ := resolves_zip_perm hperm hlength hall
          exact ⟨_, .intersection (hnil hne) (hmixed hstrict) hlength' hall',
            combine_perm hschemas (hsound hlength hall) .intersection⟩

/-! ## What is recorded -/

/-- What a member of a union or an intersection records. -/
def memberEntries (r : Resolver) (context : Text) (member : TypeExpr) : List Diagnostic :=
  (r.errorIf (member.isIdentifier "mixed") context .mixedMember).entries ++
    (r.resolve context member).entries

/-- The name `null` records nothing. -/
theorem memberEntries_null {member : TypeExpr} (h : member.isIdentifier "null" = true) :
    r.memberEntries context member = [] := by
  rw [memberEntries, resolve_eq_of_null h, not_mixed_of_null h]
  rfl

/-- A literal that has a schema records nothing. -/
theorem memberEntries_literal {value : Json} {schema : Schema}
    (h : ofLiteral? context value = some schema) :
    r.memberEntries context (.literal value) = [] := by
  rw [memberEntries, resolve, h]
  rfl

theorem resolveMembers_entries {members : List TypeExpr} {result : Members}
    (h : (r.resolveMembers context members).outcome = .ok result) :
    (r.resolveMembers context members).entries = members.flatMap (r.memberEntries context) := by
  induction members generalizing result with
  | nil => rfl
  | cons member members ih =>
      rw [List.flatMap_cons]
      rw [resolveMembers] at h ⊢
      by_cases hnull : member.isIdentifier "null" = true
      · rw [if_pos hnull] at h ⊢
        obtain ⟨others, hothers, -⟩ := Report.outcome_bind_ok_iff.mp h
        rw [memberEntries_null hnull, Report.entries_bind, hothers]
        simp [ih hothers, pure]
      · rw [if_neg hnull] at h ⊢
        obtain ⟨_, hmixed, h⟩ := Report.outcome_bind_ok_iff.mp h
        obtain ⟨schema, hschema, h⟩ := Report.outcome_bind_ok_iff.mp h
        obtain ⟨others, hothers, -⟩ := Report.outcome_bind_ok_iff.mp h
        rw [Report.entries_bind, hmixed]
        simp only [Report.entries_bind, hschema, hothers, ih hothers, memberEntries]
        simp [pure]

/-- **A union or an intersection that resolves records what its members record.** -/
theorem entries_joined {junction : Junction} {members : List TypeExpr} {schema : Schema}
    (h : (r.resolve context (.joined junction members)).outcome = .ok schema) :
    (r.resolve context (.joined junction members)).entries =
      members.flatMap (r.memberEntries context) := by
  have hgathered : ∀ {finish : Members → Schema},
      (do
        let resolved ← r.resolveMembers context members
        return finish resolved).outcome = .ok schema →
      (do
        let resolved ← r.resolveMembers context members
        return finish resolved).entries = members.flatMap (r.memberEntries context) := by
    intro finish h
    obtain ⟨resolved, hresolved, -⟩ := Report.outcome_bind_ok_iff.mp h
    rw [Report.entries_bind, hresolved]
    simp [resolveMembers_entries hresolved, pure]
  cases junction with
  | union =>
      rw [TypeExpr.joined, resolve] at h ⊢
      split at h
      · exact absurd h (Report.outcome_panic_ne_ok _ _ _)
      · next hne =>
        rw [if_neg hne]
        split at h
        · next found hfound =>
          -- literals that are taken together would record nothing on their own either
          symm
          refine List.flatMap_eq_nil_iff.mpr fun member hmember => ?_
          obtain ⟨-, ⟨texts, rfl, -⟩ | ⟨values, rfl, -⟩⟩ := ofLiterals?_eq_some_iff.mp hfound
          all_goals
            obtain ⟨value, -, rfl⟩ := List.mem_map.mp hmember
            exact memberEntries_literal rfl
        · exact hgathered h
  | intersection =>
      rw [TypeExpr.joined, resolve] at h ⊢
      split at h
      · exact absurd h (Report.outcome_panic_ne_ok _ _ _)
      · next hne =>
        rw [if_neg hne]
        exact hgathered h

/-- **The order of the members of a union or an intersection does not matter.** One order resolves
if the other does, and then to schemas that differ in the order of members and of listed values only,
with the same diagnostics in another order. -/
theorem resolve_perm (r : Resolver) (context : Text) (junction : Junction)
    {members others : List TypeExpr} (h : members.Perm others) :
    ((∃ left, (r.resolve context (.joined junction members)).outcome = .ok left) ↔
        ∃ right, (r.resolve context (.joined junction others)).outcome = .ok right) ∧
      ∀ left right, (r.resolve context (.joined junction members)).outcome = .ok left →
        (r.resolve context (.joined junction others)).outcome = .ok right →
        left.Rearranged right ∧
          (r.resolve context (.joined junction members)).entries.Perm
            (r.resolve context (.joined junction others)).entries := by
  simp only [resolve_ok_iff]
  refine ⟨⟨?_, ?_⟩, ?_⟩
  · intro hleft
    obtain ⟨left, hleft⟩ := hleft
    obtain ⟨right, hright, -⟩ := hleft.perm h
    exact ⟨right, hright⟩
  · intro hright
    obtain ⟨right, hright⟩ := hright
    obtain ⟨left, hleft, -⟩ := hright.perm h.symm
    exact ⟨left, hleft⟩
  · intro left right hleft hright
    obtain ⟨other, hother, hrearranged⟩ := hleft.perm h
    -- resolution has one outcome
    have heq : other = right := by
      rw [← resolve_ok_iff] at hother hright
      rw [hother] at hright
      exact Except.ok.inj hright
    subst heq
    refine ⟨hrearranged, ?_⟩
    rw [entries_joined hleft.resolve_ok, entries_joined hright.resolve_ok]
    exact h.flatMap_right _

/-- A union of null, `mixed`, and literals of two types, read in both directions. -/
theorem rearranged_of_reverse :
    let members : List TypeExpr :=
      [.literal (.str "on"), .nullable (.identifier "float"), .identifier "mixed",
        .literal (.int 1), .literal (.str "off"), .identifier "null", .identifier "array"]
    let left := ({ strict := false } : Resolver).resolve "$" (.union members)
    let right := ({ strict := false } : Resolver).resolve "$" (.union members.reverse)
    ∃ first second, left.outcome = .ok first ∧ right.outcome = .ok second ∧
      first.Rearranged second ∧ left.entries.Perm right.entries := by
  intro members left right
  have hends : ∃ first, left.outcome = .ok first := ⟨_, rfl⟩
  have hperm : members.Perm members.reverse := (List.reverse_perm members).symm
  obtain ⟨hiff, hsame⟩ := resolve_perm { strict := false } "$" .union hperm
  obtain ⟨first, hfirst⟩ := hends
  obtain ⟨second, hsecond⟩ := hiff.mp ⟨first, hfirst⟩
  exact ⟨first, second, hfirst, hsecond, hsame first second hfirst hsecond⟩

end Resolver

end Schemata
