import Schemata.Proofs.Defaults

/-!
# Levels of a written schema

The object of a schema holds the objects of the schemas inside of it, each at a place of its own. So a path
leads from the root of a tree to a schema inside of it, and from the root of the object to what that schema
is written as:

* **levels** — a path leads to the same level on both sides (`Schema.at?_toJson`);
* **keywords** — at every level the keywords stand in one order, and none has the value null
  (`Schema.isSchemaObject_toJson`);
* **the flag** — that a schema is the one of a parameter changes its root only: there is no description
  (`Schema.serialize_parameter`), or nothing but 0 and 1 (`Schema.keywords_asParameter_of_boolean`).

`Schema.parameter_changes_root_only` puts them together.
-/

namespace Schemata

/-! ## Levels -/

/-- A place inside of a schema, or of its object, where another one stands. -/
inductive Slot where
  | items
  | property (index : Nat)
  | additional
  | oneOf (index : Nat)
  | anyOf (index : Nat)
  | allOf (index : Nat)

namespace Schema

/-- The schema that stands at a place directly inside of a schema. -/
def inSlot? (schema : Schema) : Slot → Option Schema
  | .items => schema.items
  | .property index => (schema.properties.getD [])[index]?.map Prod.snd
  | .additional =>
    match schema.additional with
    | some (.schema values) => some values
    | _ => none
  | .oneOf index => (schema.oneOf.getD [])[index]?
  | .anyOf index => (schema.anyOf.getD [])[index]?
  | .allOf index => (schema.allOf.getD [])[index]?

/-- The schema that a path leads to. -/
def at? (schema : Schema) : List Slot → Option Schema
  | [] => some schema
  | slot :: path => (schema.inSlot? slot).bind fun part => part.at? path

end Schema

namespace Json

/-- The object that stands at a place directly inside of an object. A truth value says something about
the keys that are not listed without being an object. -/
def inSlot? (object : Json) : Slot → Option Json
  | .items => object.field? "items"
  | .property index => ((object.field? "properties").elim [] fields)[index]?.map Prod.snd
  | .additional =>
    match object.field? "additionalProperties" with
    | some (.obj fields) => some (.obj fields)
    | _ => none
  | .oneOf index => ((object.field? "oneOf").elim [] elements)[index]?
  | .anyOf index => ((object.field? "anyOf").elim [] elements)[index]?
  | .allOf index => ((object.field? "allOf").elim [] elements)[index]?

/-- The object that a path leads to. -/
def at? (object : Json) : List Slot → Option Json
  | [] => some object
  | slot :: path => (object.inSlot? slot).bind fun part => part.at? path

end Json

namespace Schema

/-- The members of a list are written one by one. -/
theorem elements_memberList (members : Option (List Schema)) (index : Nat) :
    ((memberList members).elim [] Json.elements)[index]? = (members.getD [])[index]?.map toJson := by
  cases members with
  | none => rfl
  | some members => simp [memberList, objects_eq, Json.elements]

theorem fields_propertyObject (properties : Option (Fields Schema)) (index : Nat) :
    ((propertyObject properties).elim [] Json.fields)[index]?.map Prod.snd =
      ((properties.getD [])[index]?.map Prod.snd).map toJson := by
  rcases properties with _ | (_ | ⟨property, rest⟩)
  · rfl
  · rfl
  · simp only [propertyObject, Option.elim_some, Json.fields, namedObjects_eq, List.getElem?_map,
      Option.map_map, Option.getD_some]
    rfl

/-- Six keywords hold what is inside of a schema. -/
theorem field?_inside (schema : Schema) :
    schema.toJson.field? "items" = itemObject schema.items ∧
    schema.toJson.field? "properties" = propertyObject schema.properties ∧
    schema.toJson.field? "additionalProperties" = additionalValue schema.additional ∧
    schema.toJson.field? "oneOf" = memberList schema.oneOf ∧
    schema.toJson.field? "anyOf" = memberList schema.anyOf ∧
    schema.toJson.field? "allOf" = memberList schema.allOf := by
  simp [field?_toJson, keywordTable, Fields.get?]

/-- **What stands inside of an object is what the schemas inside are written as.** -/
theorem inSlot?_toJson (schema : Schema) (slot : Slot) :
    schema.toJson.inSlot? slot = (schema.inSlot? slot).map toJson := by
  obtain ⟨hitems, hproperties, hadditional, honeOf, hanyOf, hallOf⟩ := field?_inside schema
  cases slot with
  | items =>
      rw [Json.inSlot?, hitems, inSlot?]
      cases schema.items <;> rfl
  | property index => rw [Json.inSlot?, hproperties, fields_propertyObject, inSlot?]
  | additional =>
      rw [Json.inSlot?, hadditional, inSlot?]
      rcases schema.additional with _ | (value | values) <;> rfl
  | oneOf index => rw [Json.inSlot?, honeOf, elements_memberList, inSlot?]
  | anyOf index => rw [Json.inSlot?, hanyOf, elements_memberList, inSlot?]
  | allOf index => rw [Json.inSlot?, hallOf, elements_memberList, inSlot?]

/-- **A path leads to the same level of a schema and of its object.** -/
theorem at?_toJson (schema : Schema) (path : List Slot) :
    schema.toJson.at? path = (schema.at? path).map toJson := by
  induction path generalizing schema with
  | nil => rfl
  | cons slot path ih =>
      rw [Json.at?, inSlot?_toJson, at?]
      cases schema.inSlot? slot with
      | none => rfl
      | some part => exact ih part

/-! ## Keywords -/

/-- The keywords in the documented order. -/
def documentedKeywords : List Text :=
  ["$ref", "type", "format", "nullable", "default", "enum", "description", "items", "minLength",
    "maxLength", "minimum", "maximum", "minItems", "maxItems", "required", "properties",
    "additionalProperties", "oneOf", "anyOf", "allOf"]

end Schema

/-- The value is an object, its keywords stand in the documented order, each at most once, and none has
the value null. -/
def Json.IsSchemaObject (value : Json) : Prop :=
  ∃ fields, value = .obj fields ∧ (Fields.keys fields).Sublist Schema.documentedKeywords ∧
    ∀ field ∈ fields, field.2 ≠ .null

namespace Schema

theorem keys_written_sublist (table : Fields (Option Json)) :
    (Fields.keys (written table)).Sublist (Fields.keys table) := by
  induction table with
  | nil => exact .slnil
  | cons entry rest ih =>
      obtain ⟨name, value⟩ := entry
      cases value with
      | none => exact ih.cons name
      | some value => exact ih.cons_cons name

theorem mem_written {table : Fields (Option Json)} {field : Text × Json}
    (h : field ∈ written table) : (field.1, some field.2) ∈ table := by
  obtain ⟨⟨name, value⟩, hentry, hfield⟩ := List.mem_flatMap.mp h
  cases value with
  | none => exact absurd hfield List.not_mem_nil
  | some value =>
      obtain rfl := List.mem_singleton.mp hfield
      exact hentry

theorem defaultKeyword_ne_null (type : Option Text) (hasDefault : Bool) (value : Json) :
    defaultKeyword type hasDefault value ≠ some .null := by
  rw [defaultKeyword_eq]
  cases hasDefault with
  | false => nofun
  | true =>
      by_cases h : value = .null
      · rw [h]
        nofun
      · rw [normalDefault_of_ne_null type h, Ne, Option.some_inj]
        split
        · nofun
        · exact h

theorem descriptionKeyword_ne_null (description : Option Text) :
    descriptionKeyword description ≠ some .null := by
  rw [descriptionKeyword_eq]
  simp

/-- No field of a schema has null for its keyword. -/
theorem keywordTable_ne_null (schema : Schema) :
    ∀ entry ∈ schema.keywordTable, entry.2 ≠ some .null := by
  have hitems : itemObject schema.items ≠ some .null := by
    cases schema.items <;> nofun
  have hproperties : propertyObject schema.properties ≠ some .null := by
    rcases schema.properties with _ | (_ | _) <;> nofun
  have hadditional : additionalValue schema.additional ≠ some .null := by
    rcases schema.additional with _ | (_ | _) <;> nofun
  have hmembers : ∀ members : Option (List Schema), memberList members ≠ some .null := by
    intro members
    cases members <;> nofun
  simp [keywordTable, defaultKeyword_ne_null, descriptionKeyword_ne_null, hitems, hproperties,
    hadditional, hmembers]

theorem isSchemaObject_toJson (schema : Schema) : schema.toJson.IsSchemaObject := by
  refine ⟨schema.keywords, rfl, ?_, fun field hfield hnull => ?_⟩
  · rw [keywords_eq]
    exact keys_written_sublist schema.keywordTable
  · rw [keywords_eq] at hfield
    exact keywordTable_ne_null schema _ (mem_written hfield) (congrArg some hnull)

/-! ## The flag -/

/-- Of a parameter that is not boolean, only the description is left out. -/
theorem serialize_parameter {schema : Schema} (htype : schema.type ≠ some "boolean") :
    schema.serialize true = (schema.serialize false).without "description" := by
  have hparameter : schema.asParameter = { schema with description := none } := if_neg htype
  have hnone : ({ schema with description := none } : Schema).toJson.field? "description" = none := by
    simp [field?_toJson, keywordTable, Fields.get?, descriptionKeyword]
  have htable : schema.keywordTable.filter (fun entry => entry.1 ≠ ("description" : Text)) =
      ({ schema with description := none } : Schema).keywordTable.filter
        fun entry => entry.1 ≠ ("description" : Text) := rfl
  show schema.asParameter.toJson = schema.toJson.without "description"
  rw [hparameter, toJson_without htable hnone]

/-- What is inside of a parameter is written as it is in a body. -/
theorem inSlot?_serialize_parameter {schema : Schema} (htype : schema.type ≠ some "boolean")
    (slot : Slot) : (schema.serialize true).inSlot? slot = (schema.serialize false).inSlot? slot := by
  have hparameter : schema.asParameter = { schema with description := none } := if_neg htype
  show schema.asParameter.toJson.inSlot? slot = schema.toJson.inSlot? slot
  rw [inSlot?_toJson, inSlot?_toJson, hparameter]
  cases slot <;> rfl

/-- The keywords of a boolean parameter. -/
theorem keywords_asParameter_of_boolean {schema : Schema} (htype : schema.type = some "boolean") :
    schema.asParameter.keywords =
      keyword "type" (some (.str "integer")) ++
        keyword "nullable" (if schema.nullable then some (.bool true) else none) ++
        keyword "default"
          (if schema.hasDefault then some (.sent (isTrue schema.defaultValue)) else none) ++
        keyword "enum" (some (.arr [.sent false, .sent true])) := by
  have hdefault : schema.asParameter.toJson.field? "default" = _ := field?_default_asParameter htype
  rw [field?_default, ← defaultKeyword_eq] at hdefault
  rw [keywords_eq, keywordTable, hdefault, asParameter_of_boolean htype]
  simp [written, keyword, descriptionKeyword, itemObject, propertyObject, additionalValue, memberList]

theorem mem_keys_keyword {name key : Text} {value : Option Json}
    (h : key ∈ Fields.keys (keyword name value)) : key = name := by
  cases value with
  | none => exact absurd h List.not_mem_nil
  | some value => exact List.mem_singleton.mp h

/-- A boolean parameter has no keywords but four. -/
theorem mem_keys_asParameter {schema : Schema} (htype : schema.type = some "boolean") {key : Text}
    (h : key ∈ Fields.keys schema.asParameter.keywords) :
    key ∈ (["type", "nullable", "default", "enum"] : List Text) := by
  rw [keywords_asParameter_of_boolean htype, Fields.keys, List.map_append, List.map_append,
    List.map_append, List.mem_append, List.mem_append, List.mem_append] at h
  rcases h with ((h | h) | h) | h <;> rw [mem_keys_keyword h] <;> simp

/-- **That a schema is the one of a parameter changes its root only.** If its type is not boolean then the
description of the root is left out, and what a path leads to is written as in a body. If it is boolean
then nothing counts but whether it is nullable and its default, and there are no keywords but four. And
whatever a path leads to, in a parameter or in a body, has its keywords in the documented order, none of
them null. -/
theorem parameter_changes_root_only :
    (∀ schema : Schema, schema.type ≠ some "boolean" →
      schema.serialize true = (schema.serialize false).without "description" ∧
      ∀ slot path, (schema.serialize true).at? (slot :: path) =
        (schema.at? (slot :: path)).map fun part => part.serialize false) ∧
    (∀ left right : Schema, left.type = some "boolean" → right.type = some "boolean" →
      left.nullable = right.nullable → left.hasDefault = right.hasDefault →
      left.defaultValue = right.defaultValue → left.serialize true = right.serialize true) ∧
    (∀ schema : Schema, schema.type = some "boolean" → ∃ fields, schema.serialize true = .obj fields ∧
      ∀ key ∈ Fields.keys fields, key ∈ (["type", "nullable", "default", "enum"] : List Text)) ∧
    ∀ (schema : Schema) (parameter : Bool) (path : List Slot) (object : Json),
      (schema.serialize parameter).at? path = some object → object.IsSchemaObject := by
  refine ⟨fun schema htype => ⟨serialize_parameter htype, fun slot path => ?_⟩, ?_,
    fun schema htype => ⟨_, rfl, fun key => mem_keys_asParameter htype⟩, ?_⟩
  · calc (schema.serialize true).at? (slot :: path)
      _ = (schema.serialize false).at? (slot :: path) := by
        rw [Json.at?, Json.at?, inSlot?_serialize_parameter htype]
      _ = (schema.at? (slot :: path)).map fun part => part.serialize false :=
        at?_toJson schema (slot :: path)
  · intro left right hleft hright hnullable hset hdefault
    refine congrArg Json.obj ?_
    rw [keywords_asParameter_of_boolean hleft, keywords_asParameter_of_boolean hright, hnullable, hset,
      hdefault]
  · intro schema parameter path object h
    obtain ⟨root, hroot⟩ : ∃ root : Schema, schema.serialize parameter = root.toJson := by
      cases parameter
      · exact ⟨schema, rfl⟩
      · exact ⟨schema.asParameter, rfl⟩
    rw [hroot, at?_toJson] at h
    obtain ⟨part, -, rfl⟩ := Option.map_eq_some_iff.mp h
    exact isSchemaObject_toJson part

/-- A described list of described flags: as a parameter it loses its own description and keeps that of the
flags, and a flag with a description and a default is a number like one without the description. -/
theorem described_flags_as_parameter :
    let flag : Schema := { type := some "boolean", description := some "a flag" }
    let flags : Schema := { type := some "array", items := some flag, description := some "the flags" }
    let described : Schema := flag.withDefault (.bool true)
    let bare : Schema := { described with description := none }
    flags.type ≠ some "boolean" ∧ described.type = some "boolean" ∧ bare.type = some "boolean" ∧
      flags.serialize true = (flags.serialize false).without "description" ∧
      (flags.serialize true).at? [.items] = some (flag.serialize false) ∧
      described.serialize true = bare.serialize true ∧
      (flag.serialize false).IsSchemaObject := by
  intro flag flags described bare
  obtain ⟨hother, hboolean, -, hlevels⟩ := parameter_changes_root_only
  have htype : flags.type ≠ some "boolean" := by decide
  obtain ⟨hwithout, hinside⟩ := hother flags htype
  have hitems : (flags.serialize true).at? [.items] = some (flag.serialize false) := hinside .items []
  exact ⟨htype, rfl, rfl, hwithout, hitems, hboolean described bare rfl rfl rfl rfl rfl,
    hlevels flags true [.items] _ hitems⟩

end Schema

end Schemata
