import Mathlib.Data.List.Forall2
import Mathlib.Data.List.Induction
import Mathlib.Data.List.Nodup
import Mathlib.Data.Set.List

/-!
# Lists and options

What several modules need about lists of any elements, and about options:

* **first occurrences** — those of a list with one more element (`eraseDups_concat_of_mem`,
  `eraseDups_concat_of_not_mem`);
* **one by one** — lists and options whose elements are related one by one, and what stands beside an
  element (`exists_right_of_mem`, `forall₂_split`);
* **images** — a list of images is the image of a list (`exists_map_of_forall`).
-/

namespace Schemata

open List (Forall₂)

/-! ## First occurrences -/

section FirstOccurrences

variable {α : Type} [BEq α] [LawfulBEq α] {values : List α} {value : α}

theorem eraseDups_concat_of_mem (h : value ∈ values) :
    (values ++ [value]).eraseDups = values.eraseDups := by
  rw [List.eraseDups_append]
  simp [List.removeAll, h]

theorem eraseDups_concat_of_not_mem (h : value ∉ values) :
    (values ++ [value]).eraseDups = values.eraseDups ++ [value] := by
  rw [List.eraseDups_append]
  simp [List.removeAll, List.eraseDups_cons, h]

theorem nodup_eraseDups (values : List α) : values.eraseDups.Nodup := by
  induction values using List.reverseRecOn with
  | nil => exact List.nodup_nil
  | append_singleton values value ih =>
      by_cases h : value ∈ values
      · rw [eraseDups_concat_of_mem h]
        exact ih
      · rw [eraseDups_concat_of_not_mem h]
        refine List.nodup_append.mpr ⟨ih, by simp, ?_⟩
        intro known hknown other hother heq
        rw [List.mem_eraseDups, heq, List.mem_singleton.mp hother] at hknown
        exact h hknown

/-- Values that differ are kept. -/
theorem eraseDups_of_nodup (h : values.Nodup) : values.eraseDups = values := by
  induction values using List.reverseRecOn with
  | nil => rfl
  | append_singleton values value ih =>
      obtain ⟨hvalues, -, hdiffer⟩ := List.nodup_append.mp h
      have hnew : value ∉ values := fun hmem =>
        hdiffer value hmem value (List.mem_singleton_self value) rfl
      rw [eraseDups_concat_of_not_mem hnew, ih hvalues]

end FirstOccurrences

/-! ## One by one -/

theorem forall₂_imp_of_mem {α β : Type} {R S : α → β → Prop} {as : List α} {bs : List β}
    (h : ∀ a ∈ as, ∀ b, R a b → S a b) (hall : Forall₂ R as bs) : Forall₂ S as bs := by
  have hboth : Forall₂ (fun a b => (∀ b, R a b → S a b) ∧ R a b) as bs :=
    (List.forall₂_and_left as bs).mpr ⟨h, hall⟩
  exact hboth.imp fun a b hab => hab.1 b hab.2

theorem exists_right_of_mem {α β : Type} {R : α → β → Prop} {as : List α} {bs : List β}
    (hall : Forall₂ R as bs) {a : α} (h : a ∈ as) : ∃ b ∈ bs, R a b := by
  induction hall with
  | nil => exact absurd h List.not_mem_nil
  | @cons first other as bs hfirst hall ih =>
      rcases List.mem_cons.mp h with rfl | h
      · exact ⟨other, List.mem_cons_self, hfirst⟩
      · obtain ⟨b, hb, hab⟩ := ih h
        exact ⟨b, List.mem_cons_of_mem _ hb, hab⟩

/-- What stands in one list has its place in a list beside it. -/
theorem forall₂_split {α β : Type} {R : α → β → Prop} {before after : List α} {a : α} {bs : List β}
    (h : Forall₂ R (before ++ a :: after) bs) :
    ∃ first b rest, bs = first ++ b :: rest ∧ before.length = first.length ∧ R a b ∧
      after.length = rest.length := by
  induction before generalizing bs with
  | nil =>
      cases h with
      | cons hhead hrest => exact ⟨[], _, _, rfl, rfl, hhead, hrest.length_eq⟩
  | cons head before ih =>
      cases h with
      | cons hhead hrest =>
          obtain ⟨first, b, rest, rfl, hfirst, hb, hafter⟩ := ih hrest
          exact ⟨_ :: first, b, rest, rfl, congrArg (· + 1) hfirst, hb, hafter⟩

theorem exists_left_of_mem_option {α β : Type} {R : α → β → Prop} {o : Option α} {p : Option β}
    (hrel : Option.Rel R o p) {b : β} (h : b ∈ p) : ∃ a ∈ o, R a b := by
  cases hrel with
  | none => simp at h
  | some hab =>
      obtain rfl := Option.mem_some.mp h
      exact ⟨_, rfl, hab⟩

theorem option_imp_of_mem {α β : Type} {R S : α → β → Prop} {o : Option α} {p : Option β}
    (h : ∀ a ∈ o, ∀ b, R a b → S a b) (hrel : Option.Rel R o p) : Option.Rel S o p := by
  cases hrel with
  | none => exact .none
  | some hab => exact .some (h _ rfl _ hab)

/-! ## Images -/

/-- A list whose elements are all written in one way is written so from a list. -/
theorem exists_map_of_forall {α β : Type} {write : α → β} {list : List β}
    (h : ∀ element ∈ list, ∃ source, element = write source) :
    ∃ sources : List α, list = sources.map write := by
  have hrange : list ∈ Set.range (List.map write) := by
    rw [Set.range_list_map]
    intro element helement
    obtain ⟨source, rfl⟩ := h element helement
    exact ⟨source, rfl⟩
  obtain ⟨sources, rfl⟩ := hrange
  exact ⟨sources, rfl⟩

end Schemata
