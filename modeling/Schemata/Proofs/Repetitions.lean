import Schemata.Proofs.Defaults
import Schemata.Proofs.Relocation
import Schemata.Proofs.Worths

/-!
# Dropping repetitions

A combination keeps the first of the members that are the same. Nothing is lost by that: schemas that
are the same are written as objects that are the same (`Schema.Same.sameObject`), whatever their contexts
and in whatever order their properties stand.

* **names** — mappings without repeated names match if they have the same names, and related values
  under each of them (`Fields.matches_iff_of_nodup`);
* **tests** — values that are the same are null together and are switched off together
  (`Json.Same.eq_null_iff`, `Json.Same.isOn_eq`), so the serializer takes the same branches for both;
* **one layer** — schemas that agree at the root are written as objects that are the same if that holds
  of their children (`Schema.SameNode.sameObject`).
-/

namespace Schemata

open List (Forall₂)

/-! ## Names -/

namespace Fields

variable {α β : Type} {R : α → α → Prop}

theorem valuesOf_append (left right : Fields α) (name : Text) :
    valuesOf (left ++ right) name = valuesOf left name ++ valuesOf right name := by
  simp [valuesOf]

/-- **Mappings match name by name**, in whatever order their names stand. -/
theorem matches_iff_of_nodup {left right : Fields α} (hleft : (keys left).Nodup)
    (hright : (keys right).Nodup) :
    Matches R left right ↔ ∀ name, Option.Rel R (get? left name) (get? right name) := by
  refine forall_congr' fun name => ?_
  rw [valuesOf_of_nodup hleft, valuesOf_of_nodup hright]
  cases get? left name <;> cases get? right name <;> simp

theorem Matches.append {left left' right right' : Fields α} (h : Matches R left right)
    (h' : Matches R left' right') : Matches R (left ++ left') (right ++ right') := by
  intro name
  rw [valuesOf_append, valuesOf_append]
  exact List.rel_append (h name) (h' name)

theorem Matches.isEmpty_eq {left right : Fields α} (h : Matches R left right) :
    left.isEmpty = right.isEmpty := by
  have hempty : ∀ fields : Fields α, fields.isEmpty = true ↔ ∀ name, name ∉ keys fields := by
    intro fields
    rw [List.isEmpty_iff, ← List.map_eq_nil_iff (f := Prod.fst), List.eq_nil_iff_forall_not_mem]
    rfl
  rw [Bool.eq_iff_iff, hempty, hempty]
  exact forall_congr' fun name => not_congr (h.mem_keys_iff name)

end Fields

/-! ## Tests -/

namespace Json

theorem rel_same_refl (value : Option Json) : Option.Rel Same value value :=
  (EquivalentAt.option fun value _ => same_equivalentAt value).refl

theorem Same.eq_null_iff {left right : Json} (h : Same left right) :
    left = .null ↔ right = .null := by
  constructor
  · rintro rfl
    exact same_null_iff.mp h
  · rintro rfl
    exact same_null_iff.mp ((same_equivalentAt left).symm h)

/-- A number is switched off if it is zero. -/
theorem isOn_eq_false_iff_of_magnitude? {value : Json} {worth : Magnitude}
    (h : value.magnitude? = some worth) : value.isOn = false ↔ worth = .whole 0 := by
  cases value with
  | bool value =>
      obtain rfl := Option.some.inj h
      cases value <;> simp [isOn]
  | int value =>
      obtain rfl := Option.some.inj h
      simp [isOn]
  | float value =>
      obtain rfl := Option.some.inj h
      rw [Magnitude.ofBinary64_eq_whole_iff, Int.zero_mul, ← Binary64.isZero_iff, isOn,
        Bool.not_eq_false']
  | _ => cases h

/-- **Values that are the same are switched off together.** -/
theorem Same.isOn_eq {left right : Json} (h : Same left right) : left.isOn = right.isOn := by
  -- a number and a truth value may be the same, so these are compared by what they are worth
  have hnumber : ∀ worth, left.magnitude? = some worth → left.isOn = right.isOn := by
    intro worth hworth
    have hother := (same_number_iff hworth).mp h
    rw [← Bool.not_inj_iff, Bool.eq_iff_iff, Bool.not_eq_true', Bool.not_eq_true',
      isOn_eq_false_iff_of_magnitude? hworth, isOn_eq_false_iff_of_magnitude? hother]
  cases left with
  | null => rw [h.eq_null_iff.mp rfl]
  | bool value => exact hnumber _ rfl
  | int value => exact hnumber _ rfl
  | float value => exact hnumber _ rfl
  | str text => rw [same_str_iff.mp h]
  | arr items =>
      obtain ⟨others, rfl, hothers⟩ := same_arr_iff.mp h
      cases hothers <;> rfl
  | obj fields =>
      obtain ⟨others, rfl, hothers⟩ := same_obj_iff.mp h
      exact congrArg not hothers.isEmpty_eq

end Json

/-! ## One layer -/

namespace Schema

open Json (rel_same_refl)

/-- What is written of two tables matches if their values are the same. -/
theorem matches_written {left right : Fields (Option Json)}
    (h : Forall₂ (fun entry other => entry.1 = other.1 ∧ Option.Rel Json.Same entry.2 other.2)
      left right) :
    Fields.Matches Json.Same (written left) (written right) := by
  induction h with
  | nil => exact fun name => .nil
  | @cons entry other _ _ hfirst _ ih =>
      obtain ⟨name, value⟩ := entry
      obtain ⟨_, value'⟩ := other
      obtain ⟨rfl, hvalue⟩ := hfirst
      rw [written_cons, written_cons]
      refine .append ?_ ih
      cases hvalue with
      | none => exact fun name => .nil
      | some hsame =>
          intro key
          simp only [keyword, Fields.valuesOf_cons]
          split
          · exact .cons hsame .nil
          · exact .nil

/-- The two schemas are written as objects that are the same. -/
def SameObject (left right : Schema) : Prop := Json.Same left.toJson right.toJson

theorem rel_defaultKeyword {left right : Json} (h : Json.Same left right) (type : Option Text)
    (hasDefault : Bool) : Option.Rel Json.Same (defaultKeyword type hasDefault left)
      (defaultKeyword type hasDefault right) := by
  rw [defaultKeyword_eq, defaultKeyword_eq]
  cases hasDefault with
  | false => exact .none
  | true =>
      by_cases hnull : left = .null
      · rw [hnull, h.eq_null_iff.mp hnull]
        exact rel_same_refl _
      · rw [normalDefault_of_ne_null _ hnull, normalDefault_of_ne_null _ (mt h.eq_null_iff.mpr hnull),
          h.isOn_eq]
        split
        · exact rel_same_refl _
        · exact .some h

theorem rel_itemObject {left right : Option Schema} (h : Option.Rel SameObject left right) :
    Option.Rel Json.Same (itemObject left) (itemObject right) := by
  cases h with
  | none => exact .none
  | some hsame => exact .some hsame

theorem rel_memberList {left right : Option (List Schema)}
    (h : Option.Rel (Forall₂ SameObject) left right) :
    Option.Rel Json.Same (memberList left) (memberList right) := by
  cases h with
  | none => exact .none
  | some hmembers =>
      refine .some (Json.same_arr_iff.mpr ⟨_, rfl, ?_⟩)
      rw [objects_eq, objects_eq, List.forall₂_map_left_iff, List.forall₂_map_right_iff]
      exact hmembers

theorem rel_propertyObject {left right : Option (Fields Schema)}
    (h : Option.Rel (Fields.Matches SameObject) left right) :
    Option.Rel Json.Same (propertyObject left) (propertyObject right) := by
  cases h with
  | none => exact .none
  | @some lefts rights hmatches =>
      have hobjects : Json.Same (.obj (namedObjects lefts)) (.obj (namedObjects rights)) := by
        rw [Json.same_obj_iff, namedObjects_eq, namedObjects_eq]
        exact ⟨_, rfl, Fields.matches_map_iff.mpr hmatches⟩
      -- an empty mapping is not written
      have hempty := hmatches.isEmpty_eq
      cases lefts <;> cases rights <;> simp only [List.isEmpty_nil, List.isEmpty_cons,
        reduceCtorEq] at hempty
      · exact .none
      · exact .some hobjects

theorem rel_additionalValue {left right : Option (Additional Schema)}
    (h : Option.Rel (Additional.Rel SameObject) left right) :
    Option.Rel Json.Same (additionalValue left) (additionalValue right) := by
  cases h with
  | none => exact .none
  | some hadditional =>
      cases hadditional with
      | allowed value => exact rel_same_refl _
      | schema hsame => exact .some hsame

theorem rel_enum {left right : Option (List Json)} (h : Option.Rel (Forall₂ Json.Same) left right) :
    Option.Rel Json.Same (left.map Json.arr) (right.map Json.arr) := by
  cases h with
  | none => exact .none
  | some hvalues => exact .some (Json.same_arr_iff.mpr ⟨_, rfl, hvalues⟩)

/-- **Schemas that agree at the root are written alike if their children are.** -/
theorem SameNode.sameObject {left right : Schema} (h : SameNode SameObject left right) :
    SameObject left right := by
  refine Json.same_obj_iff.mpr ⟨_, rfl, ?_⟩
  rw [keywords_eq, keywords_eq]
  refine matches_written ?_
  -- eight keywords have values that are compared by sameness; those of the others are equal
  simp only [keywordTable, h.ref, h.type, h.format, h.nullable, h.hasDefault, h.required, h.description,
    h.minLength, h.maxLength, h.minimum, h.maximum, h.minItems, h.maxItems, List.forall₂_cons,
    rel_same_refl, true_and, and_true, List.forall₂_nil_left_iff]
  exact ⟨rel_defaultKeyword h.defaultValue _ _, rel_enum h.enum, rel_itemObject h.items,
    rel_propertyObject h.properties, rel_additionalValue h.additional, rel_memberList h.oneOf,
    rel_memberList h.anyOf, rel_memberList h.allOf⟩

/-- **Schemas that are the same are written as objects that are the same.** -/
theorem Same.sameObject {left right : Schema} (h : Same left right) : SameObject left right := by
  induction left using Schema.ind generalizing right with
  | node left ih =>
      exact ((same_iff.mp h).imp_of_mem fun child hchild _ => ih child hchild).sameObject

/-! ## Deduplication -/

/-- Schemas that differ in their contexts only are the same. -/
theorem same_of_relocate_eq {f : Text → Text} {left right : Schema}
    (h : left.relocate f = right.relocate f) : Same left right := by
  have hleft := same_symm (same_relocate f left)
  have hright := same_relocate f right
  rw [h] at hleft
  exact (same_equivalentAt left).trans hleft hright

theorem deduplicate_sublist (members : List Schema) : (deduplicate members).Sublist members := by
  induction members with
  | nil => exact .slnil
  | cons member members ih =>
      rw [deduplicate_cons]
      exact (List.filter_sublist.trans ih).cons_cons member

/-- **Only repetitions are dropped.** Sameness is an equivalence, which compares schemas field by field
and leaves their contexts out: mappings name by name, values by what they stand for. Schemas that are
the same are written as objects that are the same, so each member of a combination is written as one of
those that are kept. -/
theorem deduplicate_drops_repetitions :
    Equivalence Same ∧
    (∀ left right, Same left right ↔ SameNode Same left right) ∧
    (∀ (f : Text → Text) left right, left.relocate f = right.relocate f → Same left right) ∧
    (∀ {α : Type} (R : α → α → Prop) (left right : Fields α),
      left.keys.Nodup → right.keys.Nodup →
        (Fields.Matches R left right ↔ ∀ name, Option.Rel R (left.get? name) (right.get? name))) ∧
    Json.ComparedByValue Json.Same ∧
    (∀ left right, Same left right → Json.Same (left.serialize false) (right.serialize false)) ∧
    ∀ members, (deduplicate members).Sublist members ∧
      ∀ member ∈ members, ∃ kept ∈ deduplicate members,
        Same member kept ∧ Json.Same (member.serialize false) (kept.serialize false) := by
  refine ⟨⟨?_, ?_, ?_⟩, fun _ _ => same_iff, fun _ _ _ => same_of_relocate_eq,
    fun _ _ _ => Fields.matches_iff_of_nodup, Json.same_comparedByValue, fun _ _ => Same.sameObject,
    fun members => ⟨deduplicate_sublist members, fun member hmember => ?_⟩⟩
  · exact fun schema => (same_equivalentAt schema).refl
  · exact fun {left _} => (same_equivalentAt left).symm
  · exact fun {left _ _} => (same_equivalentAt left).trans
  · obtain ⟨kept, hkept, hsame⟩ := exists_same_of_mem hmember
    exact ⟨kept, hkept, hsame, hsame.sameObject⟩

/-- Two objects in different places, with their fields in a different order and defaults that are an
integer and a truth value: one of them is kept, and what it is written as stands for both. -/
theorem keeps_one_of_two_objects :
    let flag : Json → Schema := int64.withDefault
    let properties : Fields Schema := [("on", flag (.int 1)), ("id", int64)]
    let others : Fields Schema := [("id", int64), ("on", flag (.bool true))]
    let left : Schema := { context := "$", type := some "object", properties := some properties }
    let right : Schema := { context := "$/else", type := some "object", properties := some others }
    Json.Same (.int 1) (.bool true) ∧
      Same { left with context := "$/else" } left ∧
      Option.Rel Same (properties.get? "on") (others.get? "on") ∧
      Json.Same (left.serialize false) (right.serialize false) ∧
      (deduplicate [left, right]).length = 1 ∧
      ∃ kept ∈ deduplicate [left, right], Json.Same (right.serialize false) (kept.serialize false) := by
  intro flag properties others left right
  obtain ⟨-, hlayer, hcontexts, hnames, hvalues, hobject, hkept⟩ := deduplicate_drops_repetitions
  have hsame : Same left right := by decide
  have hmatches : Fields.Matches Same properties others := by
    cases ((hlayer left right).mp hsame).properties with
    | some hmatches => exact hmatches
  obtain ⟨kept, hmem, -, hwritten⟩ :=
    (hkept [left, right]).2 right (List.mem_cons_of_mem _ List.mem_cons_self)
  exact ⟨(hvalues.number _ _ _ rfl).mpr rfl, hcontexts (fun _ => []) _ _ rfl,
    (hnames _ _ _ (by decide) (by decide)).mp hmatches "on", hobject left right hsame, by decide,
    kept, hmem, hwritten⟩

end Schema

end Schemata
