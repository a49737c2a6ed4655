import Schemata.Proofs.Parameters

/-!
# Which default is written

A schema with a default is written with the keyword `default`, unless the default is null. The value is
the default as it is, with one exception: on the type of objects, the empty object stands for every value
that is switched off. Those are the empty structures, for which it is meant, and five scalars, for which
it is not: the default of a `mixed` parameter that is false is written as an empty object
(`Schema.false_is_written_as_object`).

* **off** — the values that are switched off, one by one (`Json.isOn_eq_false_iff`);
* **the frame** — a default changes no other keyword (`Schema.without_default_keyword`).
-/

namespace Schemata

/-! ## Off -/

namespace Json

/-- A list and an object with nothing in them. -/
def emptyStructures : List Json := [.arr [], .obj []]

/-- What is switched off, but is neither null nor a structure: false, the zeros and the empty text. -/
def blankScalars : List Json :=
  [.bool false, .int 0, .float (.zero false), .float (.zero true), .str []]

theorem eq_zero_of_isZero {value : Binary64} (h : value.isZero = true) :
    value = .zero false ∨ value = .zero true := by
  cases value with
  | nan => cases h
  | infinite negative => cases h
  | finite negative mantissa exponent canonical =>
      obtain rfl : mantissa = 0 := of_decide_eq_true h
      -- without a full mantissa the exponent is the least one
      obtain rfl : exponent = 0 := canonical.2.2.resolve_left (by decide)
      cases negative
      · exact .inl rfl
      · exact .inr rfl

/-- **Switched off is null, what is empty, and what is blank.** -/
theorem isOn_eq_false_iff {value : Json} :
    value.isOn = false ↔ value = .null ∨ value ∈ emptyStructures ++ blankScalars := by
  constructor
  · intro h
    cases value with
    | null => exact .inl rfl
    | bool value => simp_all [isOn, emptyStructures, blankScalars]
    | int value => simp_all [isOn, emptyStructures, blankScalars]
    | float value =>
        have hzero : value.isZero = true := by simpa [isOn] using h
        rcases eq_zero_of_isZero hzero with rfl | rfl <;> simp [emptyStructures, blankScalars]
    | str text => simp_all [isOn, emptyStructures, blankScalars]
    | arr items => simp_all [isOn, emptyStructures, blankScalars]
    | obj fields => simp_all [isOn, emptyStructures, blankScalars]
  · rintro (rfl | h)
    · rfl
    · simp only [emptyStructures, blankScalars, List.cons_append, List.nil_append, List.mem_cons,
        List.not_mem_nil, or_false] at h
      rcases h with rfl | rfl | rfl | rfl | rfl | rfl | rfl <;> rfl

theorem null_not_mem_off : Json.null ∉ emptyStructures ++ blankScalars := by
  simp [emptyStructures, blankScalars]

/-- An object without the fields of that name. -/
def without (name : Text) : Json → Json
  | .obj fields => .obj (fields.filter fun field => field.1 ≠ name)
  | value => value

end Json

/-! ## The frame -/

theorem Fields.ne_of_get?_eq_none {α : Type} {fields : Fields α} {name : Text}
    (h : get? fields name = none) : ∀ field ∈ fields, field.1 ≠ name := by
  induction fields with
  | nil => nofun
  | cons field rest ih =>
      obtain ⟨known, value⟩ := field
      rw [get?] at h
      split at h
      · cases h
      · next hne => exact List.forall_mem_cons.mpr ⟨hne, ih h⟩

namespace Schema

/-- The schema without its default. -/
def withoutDefault (schema : Schema) : Schema :=
  { schema with hasDefault := false, defaultValue := .null }

/-- Without one of the fields, the others are written. -/
theorem filter_written (table : Fields (Option Json)) (name : Text) :
    (written table).filter (fun field => field.1 ≠ name) =
      written (table.filter fun entry => entry.1 ≠ name) := by
  induction table with
  | nil => rfl
  | cons entry rest ih =>
      obtain ⟨known, value⟩ := entry
      rw [written_cons, List.filter_append, ih]
      by_cases h : known = name <;> cases value <;> simp [keyword, written_cons, h]

/-- Without one keyword, a schema is written as one that says the same otherwise and has nothing for that
keyword. -/
theorem toJson_without {left right : Schema} {name : Text}
    (htable : left.keywordTable.filter (fun entry => entry.1 ≠ name) =
      right.keywordTable.filter fun entry => entry.1 ≠ name)
    (hnone : right.toJson.field? name = none) : left.toJson.without name = right.toJson := by
  have hother : ∀ field ∈ right.keywords, field.1 ≠ name := Fields.ne_of_get?_eq_none hnone
  refine congrArg Json.obj ?_
  rw [keywords_eq, filter_written, htable, ← filter_written, ← keywords_eq]
  exact List.filter_eq_self.mpr fun field hfield => decide_eq_true (hother field hfield)

/-- Without the keyword of the default, the rest is written as if there were none. -/
theorem without_default_keyword (schema : Schema) (value : Json) :
    (schema.withDefault value).toJson.without "default" = schema.withoutDefault.toJson :=
  toJson_without rfl (field?_default schema.withoutDefault)

theorem normalDefault_of_ne_null (type : Option Text) {value : Json} (h : value ≠ .null) :
    normalDefault type true value =
      some (if type = some "object" ∧ value.isOn = false then .obj [] else value) := by
  cases value with
  | null => exact absurd rfl h
  | _ =>
      simp only [normalDefault, Bool.and_eq_true, decide_eq_true_eq, Bool.not_eq_true']
      split <;> rfl

/-- **A default that is not null is written as it is**, and changes no other keyword. Only on the type of
objects, the empty object is written for what is switched off: for an empty structure, and for a blank
scalar too. -/
theorem default_is_written (schema : Schema) (value : Json) :
    let written := (schema.withDefault value).serialize false
    (written.field? "default" = none ↔ value = .null) ∧
    (schema.type = some "object" → value ∈ Json.emptyStructures ++ Json.blankScalars →
      written.field? "default" = some (.obj [])) ∧
    (value ≠ .null →
      (schema.type = some "object" → value ∉ Json.emptyStructures ++ Json.blankScalars) →
      written.field? "default" = some value) ∧
    written.without "default" = schema.withoutDefault.serialize false := by
  intro written
  have hdefault : written.field? "default" = normalDefault schema.type true value :=
    field?_default (schema.withDefault value)
  refine ⟨⟨fun h => ?_, ?_⟩, fun htype hoff => ?_, fun hnull hkept => ?_,
    without_default_keyword schema value⟩
  · by_contra hnull
    rw [hdefault, normalDefault_of_ne_null _ hnull] at h
    cases h
  · rintro rfl
    exact hdefault
  · have hnull : value ≠ .null := fun h => Json.null_not_mem_off (h ▸ hoff)
    have hisOff : value.isOn = false := Json.isOn_eq_false_iff.mpr (.inr hoff)
    rw [hdefault, normalDefault_of_ne_null _ hnull, if_pos ⟨htype, hisOff⟩]
  · have hisOn : ¬ (schema.type = some "object" ∧ value.isOn = false) := by
      rintro ⟨htype, hisOff⟩
      exact hkept htype ((Json.isOn_eq_false_iff.mp hisOff).resolve_left hnull)
    rw [hdefault, normalDefault_of_ne_null _ hnull, if_neg hisOn]

/-- Two lists as the default of an object: the empty one is written as the empty object, the other one as
it is. -/
theorem lists_as_default_of_object :
    let schema : Schema := { type := some "object", additional := some (.allowed true) }
    let written := fun value => (schema.withDefault value).serialize false
    (written (.arr [])).field? "default" = some (.obj []) ∧
      (written (.arr [.bool false])).field? "default" = some (.arr [.bool false]) := by
  intro schema written
  obtain ⟨-, hempty, -⟩ := default_is_written schema (.arr [])
  obtain ⟨-, -, hkept, -⟩ := default_is_written schema (.arr [.bool false])
  exact ⟨hempty rfl List.mem_cons_self,
    hkept nofun fun _ hoff => by simp [Json.emptyStructures, Json.blankScalars] at hoff⟩

/-- The default of a parameter of any type is false, which is no structure, and an empty object is
written. -/
theorem false_is_written_as_object :
    ∃ schema, (({} : Resolver).resolve "$" (.identifier "mixed")).outcome = .ok schema ∧
      schema.type = some ("object" : Text) ∧ Json.bool false ∉ Json.emptyStructures ∧
      ((schema.withDefault (.bool false)).serialize false).field? "default" = some (.obj []) ∧
      ((schema.withDefault (.bool false)).serialize false).field? "default" ≠
        some (.bool false) := by
  refine ⟨_, rfl, rfl, ?_, rfl, nofun⟩
  simp [Json.emptyStructures]

end Schema

end Schemata
