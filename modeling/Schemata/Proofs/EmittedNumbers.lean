import Schemata.Proofs.Entries
import Schemata.Proofs.Levels
import Schemata.Proofs.Limits
import Schemata.Proofs.Unquoted
import Schemata.Proofs.WellShaped

/-!
# Numbers in schema objects

Resolution makes no floating-point numbers: there are none in the object of a resolved schema
(`Schema.isFloatless_toJson`). A default is written as it is, so all that is in it comes into the object,
with one exception: in the parameter of a truth value it is replaced by an integer
(`Schema.isPart_serialize_iff`). So the object of an entry of a document has a number without digits
exactly if the default of the entry has (`Document.isPart_object_iff`).
-/

namespace Schemata

open Json

namespace Json

/-- No floating-point number is inside. -/
def IsFloatless (value : Json) : Prop := ∀ number, ¬ IsPart (.float number) value

theorem isFloatless_arr {items : List Json} (h : ∀ item ∈ items, IsFloatless item) :
    IsFloatless (.arr items) := by
  intro number hpart
  cases hpart with
  | item hitem hinside => exact h _ hitem number hinside

theorem isFloatless_obj {fields : Fields Json} (h : ∀ field ∈ fields, IsFloatless field.2) :
    IsFloatless (.obj fields) := by
  intro number hpart
  cases hpart with
  | field hfield hinside => exact h _ hfield number hinside

theorem isFloatless_str (text : Text) : IsFloatless (.str text) := nofun

theorem isFloatless_int (value : Int) : IsFloatless (.int value) := nofun

theorem isFloatless_bool (value : Bool) : IsFloatless (.bool value) := nofun

theorem isFloatless_of_isLiteralOf {type : Text} {value : Json} (h : value.isLiteralOf type = true) :
    IsFloatless value := by
  cases value with
  | str text => exact isFloatless_str text
  | int number => exact isFloatless_int number
  | bool truth => exact isFloatless_bool truth
  | _ => cases h

/-- What is switched off has no numbers without digits in it. -/
theorem isFinite_of_off {value : Json} (h : value.isOn = false) {number : Binary64}
    (hpart : IsPart (.float number) value) : number.isFinite = true := by
  rcases isOn_eq_false_iff.mp h with rfl | hoff
  · cases hpart
  · simp only [emptyStructures, blankScalars, List.cons_append, List.nil_append, List.mem_cons,
      List.not_mem_nil, or_false] at hoff
    rcases hoff with rfl | rfl | rfl | rfl | rfl | rfl | rfl
    · cases hpart with
      | item hitem => exact absurd hitem List.not_mem_nil
    · cases hpart with
      | field hfield => exact absurd hfield List.not_mem_nil
    · cases hpart
    · cases hpart
    · cases hpart
      rfl
    · cases hpart
      rfl
    · cases hpart

end Json

namespace Schema

variable {schema : Schema} {number : Binary64}

theorem isFloatless_of_mem_none : ∀ value ∈ (none : Option Json), IsFloatless value :=
  fun _ hvalue => absurd hvalue (Option.not_mem_none _)

theorem isFloatless_of_mem_map {α : Type} {f : α → Json} (hf : ∀ a, IsFloatless (f a))
    (field : Option α) : ∀ value ∈ field.map f, IsFloatless value := by
  cases field with
  | none => exact isFloatless_of_mem_none
  | some a => exact fun value hvalue => Option.mem_some.mp hvalue ▸ hf a

theorem isFloatless_of_mem_memberList {members : Option (List Schema)}
    (h : ∀ list ∈ members, ∀ member ∈ list, IsFloatless member.toJson) :
    ∀ value ∈ memberList members, IsFloatless value := by
  cases members with
  | none => exact isFloatless_of_mem_none
  | some list =>
      intro value hvalue
      obtain rfl := Option.mem_some.mp hvalue
      rw [objects_eq]
      exact isFloatless_arr (List.forall_mem_map.mpr (h list rfl))

theorem isFloatless_of_mem_propertyObject {properties : Option (Fields Schema)}
    (h : ∀ list ∈ properties, ∀ property ∈ list, IsFloatless property.2.toJson) :
    ∀ value ∈ propertyObject properties, IsFloatless value := by
  rcases properties with _ | (_ | ⟨property, rest⟩)
  · exact isFloatless_of_mem_none
  · exact isFloatless_of_mem_none
  · intro value hvalue
    obtain rfl := Option.mem_some.mp hvalue
    rw [namedObjects_eq]
    exact isFloatless_obj (List.forall_mem_map.mpr (h _ rfl))

/-- **The default apart, no keyword has a floating-point number in it**, if there is none in the listed
values and in the objects inside. -/
theorem keywordTable_floatless (henum : ∀ values ∈ schema.enum, ∀ value ∈ values, IsFloatless value)
    (hchildren : ∀ child ∈ schema.children, IsFloatless child.toJson) :
    ∀ entry ∈ schema.keywordTable, ∀ value ∈ entry.2,
      value ∈ defaultKeyword schema.type schema.hasDefault schema.defaultValue ∨
        IsFloatless value := by
  have heach := eachChild_of_forall hchildren
  have htext : ∀ field : Option Text, ∀ value ∈ field.map Json.str, IsFloatless value :=
    isFloatless_of_mem_map isFloatless_str
  have hint : ∀ field : Option Int, ∀ value ∈ field.map Json.int, IsFloatless value :=
    isFloatless_of_mem_map isFloatless_int
  have hnullable : ∀ value ∈ (if schema.nullable then some (.bool true) else none : Option Json),
      IsFloatless value := by
    cases schema.nullable
    · exact isFloatless_of_mem_none
    · exact fun value hvalue => Option.mem_some.mp hvalue ▸ isFloatless_bool true
  have hlisted : ∀ value ∈ schema.enum.map Json.arr, IsFloatless value := by
    intro value hvalue
    obtain ⟨values, hvalues, rfl⟩ := Option.map_eq_some_iff.mp hvalue
    exact isFloatless_arr (henum values hvalues)
  have hdescription : ∀ value ∈ descriptionKeyword schema.description, IsFloatless value := by
    rw [descriptionKeyword_eq]
    exact htext _
  have hitems : ∀ value ∈ itemObject schema.items, IsFloatless value := by
    cases hitem : schema.items with
    | none => exact isFloatless_of_mem_none
    | some child => exact fun value hvalue => Option.mem_some.mp hvalue ▸ heach.items child hitem
  have hrequired : ∀ value ∈ schema.required.map fun names => .arr (names.map Json.str),
      IsFloatless value :=
    isFloatless_of_mem_map
      (fun names => isFloatless_arr (List.forall_mem_map.mpr fun name _ => isFloatless_str name)) _
  have hadditional : ∀ value ∈ additionalValue schema.additional, IsFloatless value := by
    cases hvalues : schema.additional with
    | none => exact isFloatless_of_mem_none
    | some additional =>
        cases additional with
        | allowed truth =>
            exact fun value hvalue => Option.mem_some.mp hvalue ▸ isFloatless_bool truth
        | schema child =>
            exact fun value hvalue => Option.mem_some.mp hvalue ▸ heach.additional child hvalues
  have hother : ∀ {field : Option Json}, (∀ value ∈ field, IsFloatless value) → ∀ value ∈ field,
      value ∈ defaultKeyword schema.type schema.hasDefault schema.defaultValue ∨ IsFloatless value :=
    fun h value hvalue => .inr (h value hvalue)
  simp only [keywordTable, List.forall_mem_cons]
  refine ⟨hother (htext _), hother (htext _), hother (htext _), hother hnullable, fun _ h => .inl h,
    hother hlisted, hother hdescription, hother hitems, hother (hint _), hother (hint _),
    hother (hint _), hother (hint _), hother (hint _), hother (hint _), hother hrequired,
    hother (isFloatless_of_mem_propertyObject heach.properties), hother hadditional,
    hother (isFloatless_of_mem_memberList heach.oneOf),
    hother (isFloatless_of_mem_memberList heach.anyOf),
    hother (isFloatless_of_mem_memberList heach.allOf), List.forall_mem_nil _⟩

theorem mem_written_iff {table : Fields (Option Json)} {field : Text × Json} :
    field ∈ written table ↔ (field.1, some field.2) ∈ table := by
  refine ⟨mem_written, fun h => ?_⟩
  exact List.mem_flatMap.mpr ⟨_, h, List.mem_singleton.mpr rfl⟩

/-- What floating-point numbers an object has in it are in its default. -/
theorem isPart_toJson_iff (henum : ∀ values ∈ schema.enum, ∀ value ∈ values, IsFloatless value)
    (hchildren : ∀ child ∈ schema.children, IsFloatless child.toJson) :
    IsPart (.float number) schema.toJson ↔
      ∃ value ∈ defaultKeyword schema.type schema.hasDefault schema.defaultValue,
        IsPart (.float number) value := by
  constructor
  · intro h
    cases h with
    | @field field _ hfield hpart =>
        rw [keywords_eq] at hfield
        have htable := keywordTable_floatless henum hchildren _ (mem_written hfield) field.2 rfl
        rcases htable with hdefault | hfloatless
        · exact ⟨field.2, hdefault, hpart⟩
        · exact absurd hpart (hfloatless number)
  · rintro ⟨value, hvalue, hpart⟩
    have hentry : (("default" : Text), some value) ∈ schema.keywordTable := by
      rw [← Option.mem_def.mp hvalue]
      simp [keywordTable]
    have hfield : (("default" : Text), value) ∈ schema.keywords := by
      rw [keywords_eq]
      exact mem_written_iff.mpr hentry
    exact .field hfield hpart

theorem WellShaped.enum_floatless (h : schema.WellShaped) :
    ∀ values ∈ schema.enum, ∀ value ∈ values, IsFloatless value := by
  intro values hvalues value hvalue
  obtain ⟨-, ⟨type, -, -, hliterals⟩, -⟩ := h.enum values hvalues
  exact isFloatless_of_isLiteralOf (hliterals value hvalue)

/-- **In the object of a resolved schema there is no floating-point number.** -/
theorem isFloatless_toJson (h : ∀ part, Subtree part schema → WellShaped part) :
    IsFloatless schema.toJson := by
  induction schema using Schema.ind with
  | node schema ih =>
      obtain ⟨hroot, hchildren⟩ := throughout_iff.mp h
      intro number hpart
      obtain ⟨value, hvalue, -⟩ := (isPart_toJson_iff hroot.enum_floatless
        fun child hchild => ih child hchild (hchildren child hchild)).mp hpart
      rw [hroot.noDefault.1, hroot.noDefault.2] at hvalue
      cases hvalue

/-- What is written for a default has the numbers without digits that the default has. -/
theorem isPart_defaultKeyword_iff (hnumber : number.isFinite = false) (type : Option Text)
    (value : Json) :
    (∃ written ∈ defaultKeyword type true value, IsPart (.float number) written) ↔
      IsPart (.float number) value := by
  by_cases hnull : value = .null
  · subst hnull
    exact ⟨nofun, nofun⟩
  · rw [defaultKeyword_eq, normalDefault_of_ne_null type hnull]
    simp only [Option.mem_some_iff, exists_eq_left']
    split
    · next hoff =>
      constructor
      · intro hpart
        cases hpart with
        | field hfield => exact absurd hfield List.not_mem_nil
      · intro hpart
        cases hnumber.symm.trans (isFinite_of_off hoff.2 hpart)
    · exact Iff.rfl

theorem isPart_toJson_of_hasDefault
    (henum : ∀ values ∈ schema.enum, ∀ value ∈ values, IsFloatless value)
    (hchildren : ∀ child ∈ schema.children, IsFloatless child.toJson)
    (hset : schema.hasDefault = true) (hnumber : number.isFinite = false) :
    IsPart (.float number) schema.toJson ↔ IsPart (.float number) schema.defaultValue := by
  rw [isPart_toJson_iff henum hchildren, hset]
  exact isPart_defaultKeyword_iff hnumber schema.type schema.defaultValue

/-- The object of the parameter of a truth value has integers only. -/
theorem isFloatless_asParameter (htype : schema.type = some ("boolean" : Text)) :
    IsFloatless schema.asParameter.toJson := by
  have hsent : ∀ truth, IsFloatless (.sent truth) := fun _ => isFloatless_int _
  intro number hpart
  rw [asParameter_of_boolean htype, isPart_toJson_iff] at hpart
  · obtain ⟨value, hvalue, hinside⟩ := hpart
    cases hset : schema.hasDefault with
    | false =>
        rw [hset] at hvalue
        cases hvalue
    | true =>
        rw [hset] at hvalue
        obtain rfl := Option.mem_some.mp hvalue
        exact hsent _ number hinside
  · intro values hvalues
    obtain rfl := Option.mem_some.mp hvalues
    exact List.forall_mem_cons.mpr ⟨hsent false, List.forall_mem_singleton.mpr (hsent true)⟩
  · exact fun child hchild => absurd hchild List.not_mem_nil

/-- **The object of a schema with a default has the numbers without digits that the default has**, unless
it is that of the parameter of a truth value. -/
theorem isPart_serialize_iff (h : ∀ part, Subtree part schema → WellShaped part) (value : Json)
    (parameter : Bool) (hnumber : number.isFinite = false) :
    IsPart (.float number) ((schema.withDefault value).serialize parameter) ↔
      IsPart (.float number) value ∧ ¬ (parameter = true ∧ schema.type = some ("boolean" : Text)) := by
  obtain ⟨hroot, hchildren⟩ := throughout_iff.mp h
  have henum := hroot.enum_floatless
  have hinside : ∀ child ∈ schema.children, IsFloatless child.toJson :=
    fun child hchild => isFloatless_toJson (hchildren child hchild)
  cases parameter with
  | false =>
      have hbody : IsPart (.float number) (schema.withDefault value).toJson ↔
          IsPart (.float number) value := isPart_toJson_of_hasDefault henum hinside rfl hnumber
      exact hbody.trans (by simp)
  | true =>
      by_cases htype : schema.type = some ("boolean" : Text)
      · have hinteger : (schema.withDefault value).type = some ("boolean" : Text) := htype
        have hnone : ¬ IsPart (.float number) (schema.withDefault value).asParameter.toJson :=
          isFloatless_asParameter hinteger number
        exact iff_of_false hnone fun hpart => hpart.2 ⟨rfl, htype⟩
      · have hparameter : (schema.withDefault value).asParameter =
            { schema.withDefault value with description := none } := if_neg htype
        have hbody : IsPart (.float number) (schema.withDefault value).asParameter.toJson ↔
            IsPart (.float number) value := by
          rw [hparameter]
          exact isPart_toJson_of_hasDefault henum hinside rfl hnumber
        exact hbody.trans (by simp [htype])

/-- Without a default there is no floating-point number in the object. -/
theorem isFloatless_serialize (h : ∀ part, Subtree part schema → WellShaped part) (parameter : Bool) :
    IsFloatless (schema.serialize parameter) := by
  obtain ⟨hroot, hchildren⟩ := throughout_iff.mp h
  cases parameter with
  | false => exact isFloatless_toJson h
  | true =>
      by_cases htype : schema.type = some ("boolean" : Text)
      · exact isFloatless_asParameter htype
      · have hparameter : schema.asParameter = { schema with description := none } := if_neg htype
        show IsFloatless schema.asParameter.toJson
        rw [hparameter]
        exact isFloatless_toJson (throughout_iff.mpr
          ⟨hroot.relabel schema.context schema.nullable none, hchildren⟩)

end Schema

namespace Document

variable {machine : Machine} {r : Resolver}

/-- The entry of that name is that of a request parameter that takes a truth value. -/
def IsTruthParameter (r : Resolver) (name : Text) (entry : Json) : Prop :=
  isParameter entry = true ∧ ∃ node expr schema, nodeOf name entry = .ok node ∧
    TypeExpr.ofJson node = .ok expr ∧ (r.resolve name expr).outcome = .ok schema ∧
      schema.type = some ("boolean" : Text)

/-- The object of an entry is that of the schema that its node resolves to, with its default. -/
theorem exists_schema_of_convertEntry {name : Text} {entry object : Json}
    (h : (convertEntry machine r name entry).outcome = .ok object) :
    ∃ node expr schema, nodeOf name entry = .ok node ∧ TypeExpr.ofJson node = .ok expr ∧
      (r.resolve name expr).outcome = .ok schema ∧
      object = ((entry.field? "default").elim schema schema.withDefault).serialize
        (isParameter entry) := by
  unfold convertEntry at h
  cases hnode : nodeOf name entry with
  | error failure =>
      rw [hnode] at h
      cases h
  | ok node =>
      rw [hnode] at h
      obtain ⟨-, hobject⟩ := Report.outcome_interrupted_ok_iff.mp h
      obtain ⟨schema, hschema, hwritten⟩ := Report.outcome_bind_ok_iff.mp hobject
      obtain ⟨expr, hexpr, hresolved⟩ := Report.outcome_bind_ok_iff.mp hschema
      obtain ⟨found, hfound, hdefault⟩ := Report.outcome_bind_ok_iff.mp hresolved
      have hread := (TypeExpr.isKept machine.limit node).expression expr
        (Report.outcome_ofDecoded_ok_iff.mp hexpr)
      refine ⟨node, expr, found, rfl, hread, Report.outcome_voiced_ok_iff.mp hfound, ?_⟩
      rw [← Report.outcome_pure_ok_iff.mp hwritten]
      cases hvalue : entry.field? "default" with
      | none =>
          rw [hvalue] at hdefault
          rw [← Report.outcome_pure_ok_iff.mp hdefault]
          rfl
      | some value =>
          rw [hvalue] at hdefault
          rw [← Report.outcome_pure_ok_iff.mp hdefault]
          rfl

/-- **The object of an entry has the numbers without digits that its default has**, unless the entry is
that of a parameter that takes a truth value. -/
theorem isPart_object_iff {name : Text} {entry object : Json} {number : Binary64}
    (h : (convertEntry machine r name entry).outcome = .ok object) (hnumber : number.isFinite = false) :
    IsPart (.float number) object ↔
      (∃ value, entry.field? "default" = some value ∧ IsPart (.float number) value) ∧
        ¬ IsTruthParameter r name entry := by
  obtain ⟨node, expr, schema, hnode, hexpr, hschema, rfl⟩ := exists_schema_of_convertEntry h
  have hshape := (Resolver.resolves_of_ok hschema).throughout Schema.WellShaped.invariant
  have htruth : IsTruthParameter r name entry ↔
      isParameter entry = true ∧ schema.type = some ("boolean" : Text) := by
    constructor
    · rintro ⟨hparameter, node', expr', schema', hnode', hexpr', hschema', htype⟩
      obtain rfl := Except.ok.inj (hnode.symm.trans hnode')
      obtain rfl := Except.ok.inj (hexpr.symm.trans hexpr')
      obtain rfl := Except.ok.inj (hschema.symm.trans hschema')
      exact ⟨hparameter, htype⟩
    · rintro ⟨hparameter, htype⟩
      exact ⟨hparameter, node, expr, schema, hnode, hexpr, hschema, htype⟩
  cases hdefault : entry.field? "default" with
  | none =>
      have hnone := Schema.isFloatless_serialize hshape (isParameter entry) number
      exact iff_of_false hnone fun hpart => by simp at hpart
  | some value =>
      rw [htruth]
      exact (Schema.isPart_serialize_iff hshape value _ hnumber).trans (by simp)

end Document

end Schemata
