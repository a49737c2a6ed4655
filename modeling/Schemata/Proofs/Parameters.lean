import Schemata.Proofs.Readback
import Schemata.Proofs.Unions

/-!
# Truth values as request parameters

A request parameter of type boolean is written as an integer, 0 or 1, whatever the type says about the
values that are allowed:

* **objects** — the object that a schema is written as describes what the schema describes
  (`Schema.describedBy_toJson`), since the normal form does (`Schema.normalized_values`);
* **bodies** — a resolved schema of type boolean describes the truth values that it lists, or both
  (`Schema.WellShaped.mem_boolean_iff`);
* **parameters** — its parameter describes 0 and 1 and nothing else but null
  (`Schema.mem_asParameter_iff`).

`Resolver.boolean_parameter` compares the two. A parameter accepts too much exactly for a truth value
that the list of the type leaves out (`Resolver.true_parameter_accepts_zero`).
-/

namespace Schemata

/-- A truth value as it is sent in a parameter. -/
def Json.sent (truth : Bool) : Json := .int (if truth then 1 else 0)

namespace Schema

variable {refs : Text → Set Json}

/-! ## Objects -/

/-- The values that the object of a schema describes. -/
def describedBy (refs : Text → Set Json) (object : Json) : Set Json := (ofJson object).values refs

theorem itemValues_normalized {item : Option Schema}
    (h : ∀ child ∈ item, child.normalized.values refs = child.values refs) :
    itemValues refs (normalizedItem item) = itemValues refs item := by
  cases item with
  | none => rfl
  | some child => exact congrArg some (h child rfl)

theorem memberValues_normalized {members : Option (List Schema)}
    (h : ∀ list ∈ members, ∀ child ∈ list, child.normalized.values refs = child.values refs) :
    memberValues refs (normalizedMembers members) = memberValues refs members := by
  cases members with
  | none => rfl
  | some list =>
      simp only [normalizedMembers, normalizedList_eq, memberValues_eq, Option.map_some, List.map_map]
      exact congrArg some (List.map_congr_left (h list rfl))

/-- No properties describe what an empty mapping of them describes. -/
theorem propertyValues_normalized {properties : Option (Fields Schema)}
    (h : ∀ list ∈ properties, ∀ property ∈ list,
      property.2.normalized.values refs = property.2.values refs) :
    propertyValues refs (normalizedProperties properties) = propertyValues refs properties := by
  rcases properties with _ | (_ | ⟨property, rest⟩)
  · rfl
  · rfl
  · simp only [normalizedProperties, normalizedNamed_eq, propertyValues_eq, Option.getD_some,
      List.map_map]
    exact List.map_congr_left fun entry hentry => congrArg (Prod.mk entry.1) (h _ rfl entry hentry)

theorem additionalValues_normalized {additional : Option (Additional Schema)}
    (h : ∀ child, additional = some (.schema child) →
      child.normalized.values refs = child.values refs) :
    additionalValues refs (normalizedAdditional additional) = additionalValues refs additional := by
  rcases additional with _ | (value | child)
  · rfl
  · rfl
  · exact h child rfl

/-- **The normal form describes what the schema describes.** -/
theorem normalized_values (schema : Schema) :
    schema.normalized.values refs = schema.values refs := by
  induction schema using Schema.ind with
  | node schema ih =>
      have heach := eachChild_of_forall ih
      have hitems := itemValues_normalized heach.items
      have hproperties := propertyValues_normalized heach.properties
      have honeOf := memberValues_normalized heach.oneOf
      have hanyOf := memberValues_normalized heach.anyOf
      have hallOf := memberValues_normalized heach.allOf
      have hadditional := additionalValues_normalized heach.additional
      have hisSome : ∀ members : Option (List Schema),
          (normalizedMembers members).isSome = members.isSome := by
        intro members
        cases members <;> rfl
      rw [normalized_eq]
      cases schema
      simp only [values, hitems, hproperties, honeOf, hanyOf, hallOf, hadditional, hisSome]

theorem describedBy_toJson (schema : Schema) :
    describedBy refs schema.toJson = schema.values refs := by
  rw [describedBy, ofJson_toJson, normalized_values]

/-- A default does not count. -/
theorem values_withDefault (schema : Schema) (value : Json) :
    (schema.withDefault value).values refs = schema.values refs := by
  cases schema
  rfl

/-! ## Bodies and parameters -/

/-- A schema of type boolean describes a truth value if its list does, should it have one. -/
theorem WellShaped.mem_boolean_iff {schema : Schema} (h : schema.WellShaped)
    (htype : schema.type = some ("boolean" : Text)) {truth : Bool} :
    .bool truth ∈ schema.values refs ↔ ∀ listed ∈ schema.enum, .bool truth ∈ listed := by
  have hconstrained : schema.isConstrained = true := by simp [isConstrained, htype]
  -- bounds and lengths are for other types
  obtain ⟨hminimum, hmaximum⟩ : schema.minimum = none ∧ schema.maximum = none := by
    simpa [htype] using h.bounds
  have hminLength : schema.minLength = none := by
    refine Option.eq_none_iff_forall_ne_some.mpr fun length hlength => ?_
    simpa [htype] using (h.minLength length hlength).1
  have hliteral : ∀ listed ∈ schema.enum,
      (∃ literal ∈ listed, literal.Same (.bool truth)) ↔ .bool truth ∈ listed := by
    intro listed hlisted
    obtain ⟨-, ⟨type, -, hsome, hliterals⟩, -⟩ := h.enum listed hlisted
    obtain rfl : "boolean" = type := Option.some.inj (htype.symm.trans hsome)
    constructor
    · rintro ⟨literal, hmem, hsame⟩
      exact Json.eq_of_isLiteralOf (hliterals literal hmem) rfl hsame ▸ hmem
    · intro hmem
      exact ⟨_, hmem, Json.same_bool_bool_iff.mpr rfl⟩
  rw [mem_values_iff, h.admits_iff htype (by decide) (by decide), hminimum, hmaximum, hminLength]
  simpa [hconstrained, Json.hasType] using forall₂_congr hliteral

/-- So a truth value that it does not describe is left out of its list. -/
theorem WellShaped.mem_boolean_or {schema : Schema} (h : schema.WellShaped)
    (htype : schema.type = some ("boolean" : Text)) (truth : Bool) :
    .bool truth ∈ schema.values refs ∨ ∃ listed, schema.enum = some listed ∧ .bool truth ∉ listed := by
  rw [h.mem_boolean_iff htype]
  by_cases hleft : ∃ listed, schema.enum = some listed ∧ .bool truth ∉ listed
  · exact .inr hleft
  · simp only [not_exists, not_and, not_not] at hleft
    exact .inl hleft

theorem asParameter_of_boolean {schema : Schema} (htype : schema.type = some ("boolean" : Text)) :
    schema.asParameter =
      { context := schema.context, type := some ("integer" : Text), nullable := schema.nullable,
        hasDefault := schema.hasDefault,
        defaultValue :=
          if schema.hasDefault then .sent (isTrue schema.defaultValue) else .null,
        enum := some [.sent false, .sent true] } :=
  if_pos htype

/-- The parameter of a schema of type boolean describes 0 and 1, and null if the schema does. -/
theorem mem_asParameter_iff {schema : Schema} (htype : schema.type = some ("boolean" : Text))
    {value : Json} :
    value ∈ schema.asParameter.values refs ↔
      schema.nullable = true ∧ value = .null ∨ ∃ truth, value = .sent truth := by
  have hadmits : schema.asParameter.Admits refs value ↔ ∃ truth, value = .sent truth := by
    rw [asParameter_of_boolean htype]
    constructor
    · intro h
      obtain ⟨number, rfl⟩ := Json.hasType_integer_iff.mp (h.type _ rfl)
      obtain ⟨literal, hliteral, hsame⟩ := h.enum _ rfl
      rcases List.mem_pair.mp hliteral with rfl | rfl
      · exact ⟨false, congrArg Json.int (Json.same_int_int_iff.mp hsame).symm⟩
      · exact ⟨true, congrArg Json.int (Json.same_int_int_iff.mp hsame).symm⟩
    · rintro ⟨truth, rfl⟩
      constructor <;> cases truth <;> simp [Json.sent, Json.hasType, additionalValues, Json.fields]
  rw [mem_values_iff, hadmits, asParameter_of_boolean htype]
  simp [isConstrained]

/-! ## Keywords -/

theorem field?_toJson (schema : Schema) (name : Text) :
    schema.toJson.field? name = (Fields.get? schema.keywordTable name).join :=
  get?_keywords schema name

theorem field?_nullable (schema : Schema) :
    schema.toJson.field? "nullable" = if schema.nullable then some (.bool true) else none := by
  rw [field?_toJson]
  simp [keywordTable, Fields.get?]

theorem field?_enum (schema : Schema) : schema.toJson.field? "enum" = schema.enum.map .arr := by
  rw [field?_toJson]
  simp [keywordTable, Fields.get?]

theorem field?_default (schema : Schema) :
    schema.toJson.field? "default" =
      normalDefault schema.type schema.hasDefault schema.defaultValue := by
  rw [field?_toJson, ← defaultKeyword_eq]
  simp [keywordTable, Fields.get?]

/-- Of a type without parts, every default but null is written as it is. -/
theorem normalDefault_of_simple {type : Text} (htype : type ≠ "object") {value : Json}
    (hvalue : value ≠ .null) : normalDefault (some type) true value = some value := by
  cases value <;> simp_all [normalDefault]

/-- The parameter of a schema of type boolean has a default if the schema has, whatever it is. -/
theorem field?_default_asParameter {schema : Schema}
    (htype : schema.type = some ("boolean" : Text)) :
    schema.asParameter.toJson.field? "default" =
      if schema.hasDefault then some (.sent (isTrue schema.defaultValue)) else none := by
  rw [field?_default, asParameter_of_boolean htype]
  cases schema.hasDefault with
  | false => rfl
  | true => exact normalDefault_of_simple (by decide) nofun

/-- A default that is not null is written in the parameter if it is written in the body. -/
theorem isSome_default_asParameter {schema : Schema}
    (htype : schema.type = some ("boolean" : Text))
    (hdefault : schema.hasDefault = true → schema.defaultValue ≠ .null) :
    (schema.asParameter.toJson.field? "default").isSome =
      (schema.toJson.field? "default").isSome := by
  rw [field?_default_asParameter htype, field?_default, htype]
  cases hset : schema.hasDefault with
  | false => rfl
  | true =>
      rw [normalDefault_of_simple (by decide) (hdefault hset)]
      rfl

end Schema

namespace Resolver

open Schema

/-- **A boolean parameter describes the truth values of the body**, and those that the list of the body
leaves out, as 0 and 1, and nothing else but null. It is nullable exactly if the body is; with a default
that is not null it has one exactly if the body does, and that of a truth value is this value. -/
theorem boolean_parameter {r : Resolver} {context : Text} {expr : TypeExpr} {schema : Schema}
    (h : (r.resolve context expr).outcome = .ok schema)
    (htype : schema.type = some ("boolean" : Text)) (default? : Option Json) :
    let tree := default?.elim schema schema.withDefault
    let body := tree.serialize false
    let parameter := tree.serialize true
    (∀ refs truth, .sent truth ∈ describedBy refs parameter ↔
      .bool truth ∈ describedBy refs body ∨
        ∃ listed, body.field? "enum" = some (.arr listed) ∧ .bool truth ∉ listed) ∧
    (∀ refs, ∀ value ∈ describedBy refs parameter, value ≠ .null → ∃ truth, value = .sent truth) ∧
    parameter.field? "nullable" = body.field? "nullable" ∧
    (default? ≠ some .null →
      (parameter.field? "default").isSome = (body.field? "default").isSome) ∧
    ∀ truth, default? = some (.bool truth) → parameter.field? "default" = some (.sent truth) := by
  intro tree body parameter
  have hshape : schema.WellShaped := resolve_wellShaped h schema (.refl schema)
  have htree : tree.type = some ("boolean" : Text) ∧ tree.enum = schema.enum ∧
      ∀ refs, tree.values refs = schema.values refs := by
    cases default? with
    | none => exact ⟨htype, rfl, fun _ => rfl⟩
    | some value => exact ⟨htype, rfl, fun _ => values_withDefault schema value⟩
  obtain ⟨htreeType, henum, hvalues⟩ := htree
  have hbody : ∀ refs, describedBy refs body = schema.values refs :=
    fun refs => (describedBy_toJson tree).trans (hvalues refs)
  have hparameter : ∀ refs, describedBy refs parameter = tree.asParameter.values refs :=
    fun refs => describedBy_toJson tree.asParameter
  have hlisted : ∀ listed, schema.enum = some listed → body.field? "enum" = some (.arr listed) := by
    intro listed hlisted
    exact (field?_enum tree).trans (congrArg (Option.map Json.arr) (henum.trans hlisted))
  refine ⟨fun refs truth => ?_, fun refs value hvalue hnull => ?_, ?_, fun hdefault => ?_, ?_⟩
  · rw [hparameter, hbody, mem_asParameter_iff htreeType]
    refine iff_of_true (.inr ⟨truth, rfl⟩) ((hshape.mem_boolean_or htype truth).imp_right ?_)
    rintro ⟨listed, hsome, hout⟩
    exact ⟨listed, hlisted listed hsome, hout⟩
  · rw [hparameter, mem_asParameter_iff htreeType] at hvalue
    exact hvalue.resolve_left fun hisNull => hnull hisNull.2
  · show tree.asParameter.toJson.field? "nullable" = tree.toJson.field? "nullable"
    rw [field?_nullable, field?_nullable, asParameter_of_boolean htreeType]
  · refine isSome_default_asParameter htreeType fun hset => ?_
    cases default? with
    | none => exact absurd (hset.symm.trans hshape.noDefault.1) Bool.noConfusion
    | some value => exact fun hnull => hdefault (congrArg some hnull)
  · rintro truth rfl
    show tree.asParameter.toJson.field? "default" = _
    rw [field?_default_asParameter htreeType]
    rfl

/-- A nullable flag that is set by default lists no values, so its parameter means what its body
means. -/
theorem parameter_of_nullable_flag :
    ∃ schema, (({} : Resolver).resolve "$" (.nullable (.identifier "bool"))).outcome = .ok schema ∧
      schema.type = some ("boolean" : Text) ∧
      let body := (schema.withDefault (.bool true)).serialize false
      let parameter := (schema.withDefault (.bool true)).serialize true
      (∀ refs truth, .sent truth ∈ describedBy refs parameter ↔
        .bool truth ∈ describedBy refs body) ∧
      parameter.field? "nullable" = body.field? "nullable" ∧
      (body.field? "default").isSome = true ∧ parameter.field? "default" = some (.int 1) := by
  let schema : Schema := { context := "$", type := some ("boolean" : Text), nullable := true }
  have h : (({} : Resolver).resolve "$" (.nullable (.identifier "bool"))).outcome = .ok schema := rfl
  obtain ⟨hdescribed, -, hnullable, hset, hdefault⟩ :=
    boolean_parameter h rfl (some (.bool true))
  have hone := hdefault true rfl
  refine ⟨schema, h, rfl, fun refs truth => (hdescribed refs truth).trans (or_iff_left ?_), hnullable,
    ?_, hone⟩
  · -- there is no list
    rintro ⟨listed, hlisted, -⟩
    have hnone := (field?_enum (schema.withDefault (.bool true))).symm.trans hlisted
    cases hnone
  · have hboth := hset (by simp)
    exact hboth.symm.trans (congrArg Option.isSome hone)

/-- The parameter of the type of true accepts 0 too, and the parameter of a flag has a default where the
body has none, since the default is null. -/
theorem true_parameter_accepts_zero :
    (∃ schema, (({} : Resolver).resolve "$" (.identifier "true")).outcome = .ok schema ∧
      schema.type = some ("boolean" : Text) ∧
      ∀ refs, .int 0 ∈ describedBy refs (schema.serialize true) ∧
        .bool false ∉ describedBy refs (schema.serialize false)) ∧
    ∃ schema, (({} : Resolver).resolve "$" (.identifier "bool")).outcome = .ok schema ∧
      schema.type = some ("boolean" : Text) ∧
      ((schema.withDefault .null).serialize true).field? "default" = some (.int 0) ∧
      ((schema.withDefault .null).serialize false).field? "default" = none := by
  let listed : Schema :=
    { context := "$", type := some ("boolean" : Text), enum := some [.bool true] }
  have h : (({} : Resolver).resolve "$" (.identifier "true")).outcome = .ok listed := rfl
  refine ⟨⟨listed, h, rfl, fun refs => ⟨?_, fun hfalse => ?_⟩⟩, _, rfl, rfl, rfl, rfl⟩
  · show _ ∈ describedBy refs listed.asParameter.toJson
    rw [describedBy_toJson, mem_asParameter_iff rfl]
    exact .inr ⟨false, rfl⟩
  · have hshape : listed.WellShaped := resolve_wellShaped h listed (.refl listed)
    change _ ∈ describedBy refs listed.toJson at hfalse
    rw [describedBy_toJson, hshape.mem_boolean_iff rfl] at hfalse
    exact absurd (hfalse _ rfl) (by simp)

end Resolver

end Schemata
