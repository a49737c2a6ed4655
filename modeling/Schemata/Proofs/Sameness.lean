import Schemata.Proofs.Lists
import Schemata.Proofs.Trees

/-!
# Sameness is an equivalence

`Json.same` and `Schema.same` compare trees of any depth, numbers by their worth, and fields
regardless of order. Both are equivalences:

* **lifting** — a relation that is an equivalence at each element of a container
  (`EquivalentAt`) lifts to lists, options, fields and what is said about unlisted keys, so that each
  of the two inductions has one step only;
* **one layer** — `Json.same_arr_iff` and its companions say what a value is the same as,
  `Schema.same_iff` says the same of a schema field by field (`Schema.SameNode`);
* **the equivalences** — `Json.same_equivalentAt` and `Schema.same_equivalentAt`.
-/

namespace Schemata

open List (Forall₂)

/-! ## Relations, element by element -/

/-- A relation that behaves as an equivalence as far as it starts from `a`. -/
structure EquivalentAt {α : Type} (R : α → α → Prop) (a : α) : Prop where
  refl : R a a
  symm : ∀ {b}, R a b → R b a
  trans : ∀ {b c}, R a b → R b c → R a c

namespace EquivalentAt

variable {α : Type} {R : α → α → Prop}

theorem list {as : List α} (h : ∀ a ∈ as, EquivalentAt R a) : EquivalentAt (Forall₂ R) as := by
  induction as with
  | nil =>
      refine ⟨.nil, fun hb => ?_, fun hb hc => ?_⟩
      · cases hb
        exact .nil
      · cases hb
        exact hc
  | cons a as ih =>
      obtain ⟨ha, has⟩ := List.forall_mem_cons.mp h
      refine ⟨.cons ha.refl (ih has).refl, fun hb => ?_, fun hb hc => ?_⟩
      · cases hb with
        | cons hab hbs => exact .cons (ha.symm hab) ((ih has).symm hbs)
      · cases hb with
        | cons hab hbs =>
            cases hc with
            | cons hbc hcs => exact .cons (ha.trans hab hbc) ((ih has).trans hbs hcs)

theorem option {o : Option α} (h : ∀ a ∈ o, EquivalentAt R a) : EquivalentAt (Option.Rel R) o := by
  cases o with
  | none =>
      refine ⟨.none, fun hb => ?_, fun hb hc => ?_⟩
      · cases hb
        exact .none
      · cases hb
        exact hc
  | some a =>
      have ha := h a rfl
      refine ⟨.some ha.refl, fun hb => ?_, fun hb hc => ?_⟩
      · cases hb with
        | some hab => exact .some (ha.symm hab)
      · cases hb with
        | some hab =>
            cases hc with
            | some hbc => exact .some (ha.trans hab hbc)

end EquivalentAt

namespace Fields

variable {α : Type} {R : α → α → Prop}

/-- The values of the fields of that name, in order. -/
def valuesOf (fields : Fields α) (name : Text) : List α :=
  (fields.filter fun field => field.1 = name).map Prod.snd

/-- The fields of each name are related one by one; the order of different names does not count. -/
def Matches (R : α → α → Prop) (left right : Fields α) : Prop :=
  ∀ name, Forall₂ R (valuesOf left name) (valuesOf right name)

theorem mem_valuesOf {fields : Fields α} {name : Text} {value : α} :
    value ∈ valuesOf fields name ↔ (name, value) ∈ fields := by
  simp [valuesOf]

theorem valuesOf_cons (field : Text × α) (fields : Fields α) (name : Text) :
    valuesOf (field :: fields) name =
      if field.1 = name then field.2 :: valuesOf fields name else valuesOf fields name := by
  by_cases h : field.1 = name <;> simp [valuesOf, h]

theorem get?_eq_head? (fields : Fields α) (name : Text) :
    get? fields name = (valuesOf fields name).head? := by
  induction fields with
  | nil => rfl
  | cons field rest ih =>
      obtain ⟨first, value⟩ := field
      rw [get?, valuesOf_cons]
      split
      · rfl
      · exact ih

theorem valuesOf_eq_nil {fields : Fields α} {name : Text} (h : name ∉ keys fields) :
    valuesOf fields name = [] := by
  refine List.eq_nil_iff_forall_not_mem.mpr fun value hvalue => h ?_
  exact List.mem_map_of_mem (f := Prod.fst) (mem_valuesOf.mp hvalue)

/-- Where names differ there is one value of a name at most. -/
theorem valuesOf_of_nodup {fields : Fields α} (h : (keys fields).Nodup) (name : Text) :
    valuesOf fields name = (get? fields name).toList := by
  induction fields with
  | nil => rfl
  | cons field rest ih =>
      obtain ⟨first, value⟩ := field
      obtain ⟨hnew, hrest⟩ := List.nodup_cons.mp h
      rw [get?, valuesOf_cons]
      by_cases hname : first = name
      · subst hname
        rw [if_pos rfl, if_pos rfl, valuesOf_eq_nil hnew]
        rfl
      · rw [if_neg hname, if_neg hname, ih hrest]

theorem valuesOf_of_extract?_none {fields : Fields α} {name : Text}
    (h : extract? fields name = none) : valuesOf fields name = [] := by
  induction fields with
  | nil => rfl
  | cons field fields ih =>
      obtain ⟨known, value⟩ := field
      by_cases hk : known = name
      · simp [extract?, hk] at h
      · simp only [extract?, if_neg hk, Option.map_eq_none_iff] at h
        rw [valuesOf_cons, if_neg hk, ih h]

/-- Taking out the first field of a name takes the first value of that name, and leaves what other
names have. -/
theorem valuesOf_of_extract?_some {fields others : Fields α} {name : Text} {value : α}
    (h : extract? fields name = some (value, others)) (key : Text) :
    valuesOf fields key =
      if name = key then value :: valuesOf others key else valuesOf others key := by
  induction fields generalizing others with
  | nil => simp [extract?] at h
  | cons field fields ih =>
      obtain ⟨known, first⟩ := field
      by_cases hk : known = name
      · simp only [extract?, if_pos hk, Option.some.injEq, Prod.mk.injEq] at h
        obtain ⟨rfl, rfl⟩ := h
        rw [valuesOf_cons, hk]
      · simp only [extract?, if_neg hk, Option.map_eq_some_iff, Prod.mk.injEq, Prod.exists] at h
        obtain ⟨found, rest, hrest, rfl, rfl⟩ := h
        rw [valuesOf_cons, valuesOf_cons, ih hrest]
        by_cases hn : name = key
        · subst hn
          simp only [if_neg hk, if_pos]
        · simp only [if_neg hn]

/-- Taking one field after the other from the right side decides whether the fields match. -/
theorem matches_iff {same : α → α → Bool} {sameAll : Fields α → Fields α → Bool}
    (hnil : ∀ rights, sameAll [] rights = rights.isEmpty)
    (hcons : ∀ name left lefts rights, sameAll ((name, left) :: lefts) rights =
      match extract? rights name with
      | some (right, others) => same left right && sameAll lefts others
      | none => false)
    (lefts rights : Fields α) :
    sameAll lefts rights = true ↔ Matches (fun a b => same a b = true) lefts rights := by
  induction lefts generalizing rights with
  | nil =>
      rw [hnil, List.isEmpty_iff]
      constructor
      · rintro rfl
        exact fun name => .nil
      · intro h
        refine List.eq_nil_iff_forall_not_mem.mpr fun field hfield => ?_
        have hempty : valuesOf rights field.1 = [] := List.forall₂_nil_left_iff.mp (h field.1)
        have hmem : field.2 ∈ valuesOf rights field.1 := mem_valuesOf.mpr hfield
        rw [hempty] at hmem
        exact absurd hmem List.not_mem_nil
  | cons field lefts ih =>
      obtain ⟨name, left⟩ := field
      rw [hcons]
      cases hx : extract? rights name with
      | none =>
          -- the left side has a field of the name and the right side has none
          simp only [Bool.false_eq_true, false_iff]
          intro h
          have hname := h name
          rw [valuesOf_cons, if_pos rfl, valuesOf_of_extract?_none hx] at hname
          cases hname
      | some found =>
          obtain ⟨right, others⟩ := found
          simp only [Bool.and_eq_true, ih others]
          -- taking both fields out changes the values of that one name
          constructor
          · rintro ⟨hleft, hrest⟩ key
            rw [valuesOf_cons, valuesOf_of_extract?_some hx]
            by_cases hk : name = key
            · simp only [if_pos hk]
              exact .cons hleft (hrest key)
            · simp only [if_neg hk]
              exact hrest key
          · intro h
            have hname := h name
            rw [valuesOf_cons, valuesOf_of_extract?_some hx, if_pos rfl, if_pos rfl] at hname
            cases hname with
            | cons hleft hvalues =>
                refine ⟨hleft, fun key => ?_⟩
                by_cases hk : name = key
                · exact hk ▸ hvalues
                · have hkey := h key
                  rwa [valuesOf_cons, valuesOf_of_extract?_some hx, if_neg hk, if_neg hk] at hkey

theorem Matches.imp_of_mem {S : α → α → Prop} {left right : Fields α}
    (h : ∀ field ∈ left, ∀ b, R field.2 b → S field.2 b) (hmatches : Matches R left right) :
    Matches S left right := fun name =>
  forall₂_imp_of_mem (fun value hvalue => h (name, value) (mem_valuesOf.mp hvalue)) (hmatches name)

/-- No fields are as good as an empty list of them. -/
theorem Matches.getD {left right : Option (Fields α)} (h : Option.Rel (Matches R) left right) :
    Matches R (left.getD []) (right.getD []) := by
  cases h with
  | none => exact fun name => .nil
  | some hmatches => exact hmatches

/-- Fields that match have the same names. -/
theorem Matches.mem_keys_iff {left right : Fields α} (h : Matches R left right) (name : Text) :
    name ∈ keys left ↔ name ∈ keys right := by
  have hkeys : ∀ fields : Fields α, name ∈ keys fields ↔ 0 < (valuesOf fields name).length := by
    intro fields
    rw [List.length_pos_iff_exists_mem]
    simp [mem_valuesOf, keys]
  rw [hkeys, hkeys, (h name).length_eq]

theorem Matches.equivalentAt {fields : Fields α} (h : ∀ field ∈ fields, EquivalentAt R field.2) :
    EquivalentAt (Matches R) fields := by
  have hvalues : ∀ name, EquivalentAt (Forall₂ R) (valuesOf fields name) := fun name =>
    .list fun value hvalue => h (name, value) (mem_valuesOf.mp hvalue)
  exact ⟨fun name => (hvalues name).refl, fun hb name => (hvalues name).symm (hb name),
    fun hb hc name => (hvalues name).trans (hb name) (hc name)⟩

end Fields

/-! ## JSON values -/

namespace Json

/-- The two values are the same. -/
abbrev Same (left right : Json) : Prop := left.same right = true

theorem sameItems_iff {lefts rights : List Json} :
    sameItems lefts rights = true ↔ Forall₂ Same lefts rights := by
  induction lefts generalizing rights with
  | nil => cases rights <;> simp [sameItems]
  | cons left lefts ih => cases rights <;> simp [sameItems, ih]

theorem sameFields_iff {lefts rights : Fields Json} :
    sameFields lefts rights = true ↔ Fields.Matches Same lefts rights := by
  refine Fields.matches_iff (fun _ => by rw [sameFields]) (fun name left lefts rights => ?_) _ _
  rw [sameFields]
  cases Fields.extract? rights name <;> rfl

theorem same_str_iff {text : Text} {right : Json} : Same (.str text) right ↔ right = .str text := by
  cases right <;> simp [Same, same, magnitude?, eq_comm]

theorem same_arr_iff {items : List Json} {right : Json} :
    Same (.arr items) right ↔ ∃ others, right = .arr others ∧ Forall₂ Same items others := by
  cases right <;> simp [Same, same, magnitude?, sameItems_iff]

theorem same_obj_iff {fields : Fields Json} {right : Json} :
    Same (.obj fields) right ↔
      ∃ others, right = .obj others ∧ Fields.Matches Same fields others := by
  cases right <;> simp [Same, same, magnitude?, sameFields_iff]

/-- A number is the same as every value that is worth as much, truth values included. -/
theorem same_number_iff {left right : Json} {worth : Magnitude} (h : left.magnitude? = some worth) :
    Same left right ↔ right.magnitude? = some worth := by
  cases left <;> simp only [magnitude?, reduceCtorEq, Option.some.injEq] at h <;>
    cases right <;> simp [Same, same, magnitude?, h, eq_comm]

/-- Among integers, truth values and texts, to be the same is to be equal. -/
@[simp] theorem same_int_int_iff {left right : Int} :
    Same (.int left) (.int right) ↔ left = right := by
  simp [Same, same, magnitude?]

@[simp] theorem same_bool_bool_iff {left right : Bool} :
    Same (.bool left) (.bool right) ↔ left = right := by
  cases left <;> cases right <;> simp [Same, same, magnitude?]

@[simp] theorem same_str_str_iff {left right : Text} :
    Same (.str left) (.str right) ↔ left = right := by
  simp [Same, same]

theorem equivalentAt_number {value : Json} {worth : Magnitude} (h : value.magnitude? = some worth) :
    EquivalentAt Same value := by
  -- all that is compared is what the values are worth
  refine ⟨(same_number_iff h).mpr h, fun hb => ?_, fun hb hc => ?_⟩
  · exact (same_number_iff ((same_number_iff h).mp hb)).mpr h
  · exact (same_number_iff h).mpr ((same_number_iff ((same_number_iff h).mp hb)).mp hc)

/-- **Sameness of JSON values is an equivalence.** -/
theorem same_equivalentAt (value : Json) : EquivalentAt Same value := by
  induction value with
  | null =>
      refine ⟨same_null_iff.mpr rfl, fun hb => ?_, fun hb hc => ?_⟩
      · rw [same_null_iff.mp hb]
        exact same_null_iff.mpr rfl
      · rwa [same_null_iff.mp hb] at hc
  | bool value => exact equivalentAt_number rfl
  | int value => exact equivalentAt_number rfl
  | float value => exact equivalentAt_number rfl
  | str text =>
      refine ⟨same_str_iff.mpr rfl, fun hb => ?_, fun hb hc => ?_⟩
      · rw [same_str_iff.mp hb]
        exact same_str_iff.mpr rfl
      · rwa [same_str_iff.mp hb] at hc
  | arr items ih =>
      have hitems := EquivalentAt.list ih
      refine ⟨same_arr_iff.mpr ⟨items, rfl, hitems.refl⟩, fun hb => ?_, fun hb hc => ?_⟩
      · obtain ⟨others, rfl, hothers⟩ := same_arr_iff.mp hb
        exact same_arr_iff.mpr ⟨items, rfl, hitems.symm hothers⟩
      · obtain ⟨others, rfl, hothers⟩ := same_arr_iff.mp hb
        obtain ⟨last, rfl, hlast⟩ := same_arr_iff.mp hc
        exact same_arr_iff.mpr ⟨last, rfl, hitems.trans hothers hlast⟩
  | obj fields ih =>
      have hfields := Fields.Matches.equivalentAt ih
      refine ⟨same_obj_iff.mpr ⟨fields, rfl, hfields.refl⟩, fun hb => ?_, fun hb hc => ?_⟩
      · obtain ⟨others, rfl, hothers⟩ := same_obj_iff.mp hb
        exact same_obj_iff.mpr ⟨fields, rfl, hfields.symm hothers⟩
      · obtain ⟨others, rfl, hothers⟩ := same_obj_iff.mp hb
        obtain ⟨last, rfl, hlast⟩ := same_obj_iff.mp hc
        exact same_obj_iff.mpr ⟨last, rfl, hfields.trans hothers hlast⟩

end Json

/-! ## Schemas -/

/-- The same is said about unlisted keys, with related schemas. -/
inductive Additional.Rel {α : Type} (R : α → α → Prop) : Additional α → Additional α → Prop
  | allowed (value : Bool) : Rel R (.allowed value) (.allowed value)
  | schema {left right : α} : R left right → Rel R (.schema left) (.schema right)

theorem Additional.Rel.equivalentAt {α : Type} {R : α → α → Prop} {additional : Additional α}
    (h : ∀ a, additional = .schema a → EquivalentAt R a) :
    EquivalentAt (Additional.Rel R) additional := by
  cases additional with
  | allowed value =>
      refine ⟨.allowed value, fun hb => ?_, fun hb hc => ?_⟩
      · cases hb
        exact .allowed value
      · cases hb
        exact hc
  | schema a =>
      have ha := h a rfl
      refine ⟨.schema ha.refl, fun hb => ?_, fun hb hc => ?_⟩
      · cases hb with
        | schema hab => exact .schema (ha.symm hab)
      · cases hb with
        | schema hab =>
            cases hc with
            | schema hbc => exact .schema (ha.trans hab hbc)

namespace Schema

/-- The two schemas are the same. -/
abbrev Same (left right : Schema) : Prop := left.same right = true

/-- Two schemas agree at the root, with children that are related by `R`. -/
structure SameNode (R : Schema → Schema → Prop) (left right : Schema) : Prop where
  ref : left.ref = right.ref
  type : left.type = right.type
  format : left.format = right.format
  nullable : left.nullable = right.nullable
  hasDefault : left.hasDefault = right.hasDefault
  defaultValue : Json.Same left.defaultValue right.defaultValue
  items : Option.Rel R left.items right.items
  properties : Option.Rel (Fields.Matches R) left.properties right.properties
  oneOf : Option.Rel (Forall₂ R) left.oneOf right.oneOf
  anyOf : Option.Rel (Forall₂ R) left.anyOf right.anyOf
  allOf : Option.Rel (Forall₂ R) left.allOf right.allOf
  additional : Option.Rel (Additional.Rel R) left.additional right.additional
  required : left.required = right.required
  description : left.description = right.description
  minLength : left.minLength = right.minLength
  maxLength : left.maxLength = right.maxLength
  minimum : left.minimum = right.minimum
  maximum : left.maximum = right.maximum
  minItems : left.minItems = right.minItems
  maxItems : left.maxItems = right.maxItems
  enum : Option.Rel (Forall₂ Json.Same) left.enum right.enum

theorem sameItem_iff {left right : Option Schema} :
    sameItem left right = true ↔ Option.Rel Same left right := by
  cases left <;> cases right <;> simp [sameItem]

theorem sameList_iff {lefts rights : List Schema} :
    sameList lefts rights = true ↔ Forall₂ Same lefts rights := by
  induction lefts generalizing rights with
  | nil => cases rights <;> simp [sameList]
  | cons left lefts ih => cases rights <;> simp [sameList, ih]

theorem sameMembers_iff {left right : Option (List Schema)} :
    sameMembers left right = true ↔ Option.Rel (Forall₂ Same) left right := by
  cases left <;> cases right <;> simp [sameMembers, sameList_iff]

theorem sameNamed_iff {lefts rights : Fields Schema} :
    sameNamed lefts rights = true ↔ Fields.Matches Same lefts rights := by
  refine Fields.matches_iff (fun _ => by rw [sameNamed]) (fun name left lefts rights => ?_) _ _
  rw [sameNamed]
  cases Fields.extract? rights name <;> rfl

theorem sameProperties_iff {left right : Option (Fields Schema)} :
    sameProperties left right = true ↔ Option.Rel (Fields.Matches Same) left right := by
  cases left <;> cases right <;> simp [sameProperties, sameNamed_iff]

theorem sameAdditional_iff {left right : Option (Additional Schema)} :
    sameAdditional left right = true ↔ Option.Rel (Additional.Rel Same) left right := by
  constructor
  · rcases left with _ | (left | left) <;> rcases right with _ | (right | right) <;>
      simp only [sameAdditional, decide_eq_true_eq, Bool.false_eq_true, IsEmpty.forall_iff]
    · exact fun _ => .none
    · rintro rfl
      exact .some (.allowed left)
    · exact fun h => .some (.schema h)
  · intro h
    cases h with
    | none => rfl
    | some h =>
        cases h with
        | allowed value => simp [sameAdditional]
        | schema h => exact h

theorem sameEnum_iff {left right : Option (List Json)} :
    sameEnum left right = true ↔ Option.Rel (Forall₂ Json.Same) left right := by
  cases left <;> cases right <;> simp [sameEnum, Json.sameItems_iff]

/-- Two schemas are the same if their roots agree and their children are the same. -/
theorem same_iff {left right : Schema} : Same left right ↔ SameNode Same left right := by
  obtain ⟨⟩ := left
  simp only [Same, same, Bool.and_eq_true, decide_eq_true_eq, sameItem_iff, sameMembers_iff,
    sameProperties_iff, sameAdditional_iff, sameEnum_iff]
  constructor
  · rintro ⟨⟨⟨⟨⟨⟨⟨⟨⟨⟨⟨⟨⟨⟨⟨⟨⟨⟨⟨⟨h1, h2⟩, h3⟩, h4⟩, h5⟩, h6⟩, h7⟩, h8⟩, h9⟩, h10⟩, h11⟩, h12⟩, h13⟩,
      h14⟩, h15⟩, h16⟩, h17⟩, h18⟩, h19⟩, h20⟩, h21⟩
    constructor <;> assumption
  · intro hright
    rcases hright with ⟨⟩
    repeat' constructor
    all_goals assumption

/-- A node is related by whatever its children are related by. -/
theorem SameNode.imp_of_mem {R S : Schema → Schema → Prop} {left right : Schema}
    (h : ∀ child ∈ left.children, ∀ other, R child other → S child other)
    (hnode : SameNode R left right) : SameNode S left right := by
  have heach : left.EachChild fun child => ∀ other, R child other → S child other :=
    eachChild_of_forall h
  refine { hnode with
    items := option_imp_of_mem heach.items hnode.items
    properties := option_imp_of_mem (fun properties hproperties _ =>
      Fields.Matches.imp_of_mem (heach.properties properties hproperties)) hnode.properties
    oneOf := option_imp_of_mem (fun members hmembers _ =>
      forall₂_imp_of_mem (heach.oneOf members hmembers)) hnode.oneOf
    anyOf := option_imp_of_mem (fun members hmembers _ =>
      forall₂_imp_of_mem (heach.anyOf members hmembers)) hnode.anyOf
    allOf := option_imp_of_mem (fun members hmembers _ =>
      forall₂_imp_of_mem (heach.allOf members hmembers)) hnode.allOf
    additional := option_imp_of_mem (fun additional hadditional other hrel => ?_) hnode.additional }
  cases hrel with
  | allowed value => exact .allowed value
  | schema hchild => exact .schema (heach.additional _ hadditional _ hchild)

/-- Where children are compared by an equivalence, so are their parents. -/
theorem SameNode.equivalentAt {R : Schema → Schema → Prop} {schema : Schema}
    (h : ∀ child ∈ schema.children, EquivalentAt R child) : EquivalentAt (SameNode R) schema := by
  have hdefault := Json.same_equivalentAt schema.defaultValue
  have henum : EquivalentAt (Option.Rel (Forall₂ Json.Same)) schema.enum :=
    .option fun values _ => .list fun value _ => Json.same_equivalentAt value
  have heach : schema.EachChild (EquivalentAt R) := eachChild_of_forall h
  have hitems : EquivalentAt (Option.Rel R) schema.items := .option heach.items
  have hproperties : EquivalentAt (Option.Rel (Fields.Matches R)) schema.properties :=
    .option fun properties hproperties =>
      Fields.Matches.equivalentAt (heach.properties properties hproperties)
  have honeOf : EquivalentAt (Option.Rel (Forall₂ R)) schema.oneOf :=
    .option fun members hmembers => .list (heach.oneOf members hmembers)
  have hanyOf : EquivalentAt (Option.Rel (Forall₂ R)) schema.anyOf :=
    .option fun members hmembers => .list (heach.anyOf members hmembers)
  have hallOf : EquivalentAt (Option.Rel (Forall₂ R)) schema.allOf :=
    .option fun members hmembers => .list (heach.allOf members hmembers)
  have hadditional : EquivalentAt (Option.Rel (Additional.Rel R)) schema.additional :=
    .option fun additional hadditional => Additional.Rel.equivalentAt fun child hchild =>
      heach.additional child (hchild ▸ hadditional)
  refine ⟨?_, fun hb => ?_, fun hb hc => ?_⟩
  · exact ⟨rfl, rfl, rfl, rfl, rfl, hdefault.refl, hitems.refl, hproperties.refl, honeOf.refl,
      hanyOf.refl, hallOf.refl, hadditional.refl, rfl, rfl, rfl, rfl, rfl, rfl, rfl, rfl, henum.refl⟩
  · exact ⟨hb.ref.symm, hb.type.symm, hb.format.symm, hb.nullable.symm, hb.hasDefault.symm,
      hdefault.symm hb.defaultValue, hitems.symm hb.items, hproperties.symm hb.properties,
      honeOf.symm hb.oneOf, hanyOf.symm hb.anyOf, hallOf.symm hb.allOf,
      hadditional.symm hb.additional, hb.required.symm, hb.description.symm, hb.minLength.symm,
      hb.maxLength.symm, hb.minimum.symm, hb.maximum.symm, hb.minItems.symm, hb.maxItems.symm,
      henum.symm hb.enum⟩
  · exact ⟨hb.ref.trans hc.ref, hb.type.trans hc.type, hb.format.trans hc.format,
      hb.nullable.trans hc.nullable, hb.hasDefault.trans hc.hasDefault,
      hdefault.trans hb.defaultValue hc.defaultValue, hitems.trans hb.items hc.items,
      hproperties.trans hb.properties hc.properties, honeOf.trans hb.oneOf hc.oneOf,
      hanyOf.trans hb.anyOf hc.anyOf, hallOf.trans hb.allOf hc.allOf,
      hadditional.trans hb.additional hc.additional, hb.required.trans hc.required,
      hb.description.trans hc.description, hb.minLength.trans hc.minLength,
      hb.maxLength.trans hc.maxLength, hb.minimum.trans hc.minimum, hb.maximum.trans hc.maximum,
      hb.minItems.trans hc.minItems, hb.maxItems.trans hc.maxItems, henum.trans hb.enum hc.enum⟩

/-- **Sameness of schemas is an equivalence.** -/
theorem same_equivalentAt (schema : Schema) : EquivalentAt Same schema := by
  induction schema using Schema.ind with
  | node schema ih =>
      have hnode := SameNode.equivalentAt ih
      refine ⟨same_iff.mpr hnode.refl, fun hb => ?_, fun hb hc => ?_⟩
      · exact same_iff.mpr (hnode.symm (same_iff.mp hb))
      · exact same_iff.mpr (hnode.trans (same_iff.mp hb) (same_iff.mp hc))

theorem same_symm {left right : Schema} (h : Same left right) : Same right left :=
  (same_equivalentAt left).symm h

theorem Same.enum_isSome_eq {left right : Schema} (h : Same left right) :
    left.enum.isSome = right.enum.isSome := by
  have henum := (same_iff.mp h).enum
  revert henum
  cases left.enum <;> cases right.enum <;> simp

end Schema

end Schemata
