import Mathlib.Data.List.Nodup
import Schemata.Proofs.Trees
import Schemata.Schema.Keywords

/-!
# Reading a written schema back

The object that a schema is written as says all that the schema says, but for five things: where the
type was met, a default that is not set or is null, which value an object's default has if it is switched
off, the blanks of a description, and that there is an empty mapping of properties. A schema without
them is normal (`Schema.normalized`), and the normal form is read back from the object:

* **keywords** — no two fields of a schema share a keyword, so the value of a keyword is that of its
  field, and it is missing if the field is (`Schema.get?_keywords`);
* **reading** — an object is read as a schema field by field, after everything inside of it was read
  (`Schema.ofJson`);
* **the law** — reading what was written gives the normal form (`Schema.ofJson_toJson`);
* **the converse** — schemas of one normal form are written as one object (`Schema.writtenAlike`).

So schemas are written as one object exactly if they have one normal form
(`Schema.serialize_keeps_normal_form`).
-/

namespace Schemata

/-! ## What is lost -/

namespace Schema

/-- The default as far as it counts: none if it is not set or is null, and the empty object for every
other value that switches the default of an object off. -/
def normalDefault (type : Option Text) : Bool → Json → Option Json
  | false, _ => none
  | true, .null => none
  | true, value => if type = some "object" && !value.isOn then some (.obj []) else some value

/-- The description as far as it counts: not if it is empty, and without needless blanks. -/
def normalDescription (description : Option Text) : Option Text :=
  (description.filter fun text => !text.isEmpty).map Text.normalizeSpace

mutual

/-- The schema without what its object does not say. -/
def normalized : Schema → Schema
  | { ref, type, format, nullable, hasDefault, defaultValue, items, properties, oneOf, anyOf, allOf,
      additional, required, description, minLength, maxLength, minimum, maximum, minItems, maxItems,
      enum, .. } =>
    { context := [], ref, type, format, nullable,
      hasDefault := (normalDefault type hasDefault defaultValue).isSome,
      defaultValue := (normalDefault type hasDefault defaultValue).getD .null,
      items := normalizedItem items,
      properties := normalizedProperties properties,
      oneOf := normalizedMembers oneOf,
      anyOf := normalizedMembers anyOf,
      allOf := normalizedMembers allOf,
      additional := normalizedAdditional additional,
      required, description := normalDescription description,
      minLength, maxLength, minimum, maximum, minItems, maxItems, enum }
termination_by structural schema => schema

/-- The items of a list, normalized. -/
def normalizedItem : Option Schema → Option Schema
  | some schema => some (normalized schema)
  | none => none
termination_by structural item => item

/-- No properties are left of an empty mapping. -/
def normalizedProperties : Option (List (Text × Schema)) → Option (List (Text × Schema))
  | some (property :: rest) => some (normalizedNamed (property :: rest))
  | _ => none
termination_by structural properties => properties

/-- Schemas by name, normalized. -/
def normalizedNamed : List (Text × Schema) → List (Text × Schema)
  | [] => []
  | (name, schema) :: rest => (name, normalized schema) :: normalizedNamed rest
termination_by structural properties => properties

/-- What is said about unlisted keys, normalized. -/
def normalizedAdditional : Option (Additional Schema) → Option (Additional Schema)
  | some (.schema schema) => some (.schema (normalized schema))
  | some (.allowed value) => some (.allowed value)
  | none => none
termination_by structural additional => additional

/-- The members of a combination, normalized. -/
def normalizedMembers : Option (List Schema) → Option (List Schema)
  | some members => some (normalizedList members)
  | none => none
termination_by structural members => members

/-- Schemas in order, normalized. -/
def normalizedList : List Schema → List Schema
  | [] => []
  | schema :: rest => normalized schema :: normalizedList rest
termination_by structural members => members

end

theorem normalized_eq (schema : Schema) :
    schema.normalized =
      { ref := schema.ref, type := schema.type, format := schema.format
        nullable := schema.nullable
        hasDefault := (normalDefault schema.type schema.hasDefault schema.defaultValue).isSome
        defaultValue := (normalDefault schema.type schema.hasDefault schema.defaultValue).getD .null
        items := normalizedItem schema.items
        properties := normalizedProperties schema.properties
        oneOf := normalizedMembers schema.oneOf
        anyOf := normalizedMembers schema.anyOf
        allOf := normalizedMembers schema.allOf
        additional := normalizedAdditional schema.additional
        required := schema.required, description := normalDescription schema.description
        minLength := schema.minLength, maxLength := schema.maxLength
        minimum := schema.minimum, maximum := schema.maximum
        minItems := schema.minItems, maxItems := schema.maxItems, enum := schema.enum } := by
  cases schema
  rw [normalized]

theorem normalizedList_eq (members : List Schema) :
    normalizedList members = members.map normalized := by
  induction members with
  | nil => rfl
  | cons member rest ih => rw [normalizedList, ih, List.map_cons]

theorem normalizedNamed_eq (properties : Fields Schema) :
    normalizedNamed properties =
      properties.map fun property => (property.1, property.2.normalized) := by
  induction properties with
  | nil => rfl
  | cons property rest ih => rw [normalizedNamed, ih, List.map_cons]

end Schema

/-! ## Keywords -/

namespace Fields

variable {α β : Type}

theorem get?_append (left right : Fields α) (name : Text) :
    get? (left ++ right) name = (get? left name).or (get? right name) := by
  induction left with
  | nil => rfl
  | cons field rest ih =>
      obtain ⟨known, value⟩ := field
      by_cases h : known = name <;> simp [get?, h, ih]

theorem get?_map (f : α → β) (fields : Fields α) (name : Text) :
    get? (fields.map fun field => (field.1, f field.2)) name = (get? fields name).map f := by
  induction fields with
  | nil => rfl
  | cons field rest ih =>
      obtain ⟨known, value⟩ := field
      by_cases h : known = name <;> simp [get?, h, ih]

theorem get?_eq_none {fields : Fields α} {name : Text} (h : name ∉ keys fields) :
    get? fields name = none := by
  induction fields with
  | nil => rfl
  | cons field rest ih =>
      obtain ⟨known, value⟩ := field
      simp only [keys, List.map_cons, List.mem_cons, not_or] at h
      rw [get?, if_neg (Ne.symm h.1), ih h.2]

end Fields

namespace Schema

/-- The fields of a table that have a value. -/
def written (table : Fields (Option Json)) : Fields Json :=
  table.flatMap fun entry => keyword entry.1 entry.2

theorem written_cons (name : Text) (value : Option Json) (rest : Fields (Option Json)) :
    written ((name, value) :: rest) = keyword name value ++ written rest := rfl

/-- If the names of a table differ then what is found under a name is the value that its field has. -/
theorem get?_written {table : Fields (Option Json)} (h : (Fields.keys table).Nodup) (name : Text) :
    Fields.get? (written table) name = (Fields.get? table name).join := by
  induction table with
  | nil => rfl
  | cons entry rest ih =>
      obtain ⟨known, value⟩ := entry
      obtain ⟨hnew, hrest⟩ := List.nodup_cons.mp h
      rw [written_cons, Fields.get?_append, ih hrest, Fields.get?]
      by_cases hname : known = name
      · -- no later field has the name
        subst hname
        rw [if_pos rfl, Fields.get?_eq_none hnew]
        cases value <;> simp [keyword, Fields.get?]
      · rw [if_neg hname]
        cases value <;> simp [keyword, Fields.get?, hname]

/-- The keywords in order, each with its value if there is one. -/
def keywordTable (schema : Schema) : Fields (Option Json) :=
  [("$ref", schema.ref.map Json.str), ("type", schema.type.map Json.str),
    ("format", schema.format.map Json.str),
    ("nullable", if schema.nullable then some (.bool true) else none),
    ("default", defaultKeyword schema.type schema.hasDefault schema.defaultValue),
    ("enum", schema.enum.map Json.arr), ("description", descriptionKeyword schema.description),
    ("items", itemObject schema.items), ("minLength", schema.minLength.map Json.int),
    ("maxLength", schema.maxLength.map Json.int), ("minimum", schema.minimum.map Json.int),
    ("maximum", schema.maximum.map Json.int), ("minItems", schema.minItems.map Json.int),
    ("maxItems", schema.maxItems.map Json.int),
    ("required", schema.required.map fun names => .arr (names.map Json.str)),
    ("properties", propertyObject schema.properties),
    ("additionalProperties", additionalValue schema.additional), ("oneOf", memberList schema.oneOf),
    ("anyOf", memberList schema.anyOf), ("allOf", memberList schema.allOf)]

theorem keywords_eq (schema : Schema) : schema.keywords = written schema.keywordTable := by
  unfold keywords keywordTable written
  simp only [List.flatMap_cons, List.flatMap_nil, List.append_nil, List.append_assoc]
  cases schema
  rfl

/-- **No two fields share a keyword**: what is found under it is what its field has. -/
theorem get?_keywords (schema : Schema) (name : Text) :
    Fields.get? schema.keywords name = (Fields.get? schema.keywordTable name).join := by
  rw [keywords_eq, get?_written]
  simp [keywordTable, Fields.keys]

end Schema

/-! ## Reading -/

namespace Json

/-- The text of a text. -/
def text? : Json → Option Text
  | .str text => some text
  | _ => none

/-- The value of an integer. -/
def integer? : Json → Option Int
  | .int value => some value
  | _ => none

/-- The elements of a list. -/
def items? : Json → Option (List Json)
  | .arr items => some items
  | _ => none

/-- The texts of a list of texts. -/
def texts? : Json → Option (List Text)
  | .arr items => some (items.filterMap text?)
  | _ => none

end Json

namespace Schema

/-- All that a value may be read as, before it is known under which keyword it stands: the value itself,
a schema, a list of schemas, or a mapping of names to schemas. -/
structure Reading where
  value : Json
  schema : Schema := {}
  members : List Schema := []
  named : Fields Schema := []

namespace Reading

/-- What is said about the keys that are not listed. -/
def additional (reading : Reading) : Additional Schema :=
  match reading.value with
  | .bool value => .allowed value
  | _ => .schema reading.schema

end Reading

/-- The schema of an object whose values were read. -/
def ofReadings (fields : Fields Reading) : Schema :=
  let found := Fields.get? fields
  let text := fun name => (found name).bind fun reading => reading.value.text?
  let integer := fun name => (found name).bind fun reading => reading.value.integer?
  { ref := text "$ref"
    type := text "type"
    format := text "format"
    nullable := (found "nullable").isSome
    hasDefault := (found "default").isSome
    defaultValue := ((found "default").map Reading.value).getD .null
    items := (found "items").map Reading.schema
    properties := (found "properties").map Reading.named
    oneOf := (found "oneOf").map Reading.members
    anyOf := (found "anyOf").map Reading.members
    allOf := (found "allOf").map Reading.members
    additional := (found "additionalProperties").map Reading.additional
    required := (found "required").bind fun reading => reading.value.texts?
    description := text "description"
    minLength := integer "minLength"
    maxLength := integer "maxLength"
    minimum := integer "minimum"
    maximum := integer "maximum"
    minItems := integer "minItems"
    maxItems := integer "maxItems"
    enum := (found "enum").bind fun reading => reading.value.items? }

mutual

/-- All that a value may be read as. -/
def read : Json → Reading
  | .arr items => { value := .arr items, members := (readItems items).map Reading.schema }
  | .obj fields =>
    { value := .obj fields
      schema := ofReadings (readFields fields)
      named := (readFields fields).map fun field => (field.1, field.2.schema) }
  | value => { value }

/-- All that the items of a list may be read as. -/
def readItems : List Json → List Reading
  | [] => []
  | item :: rest => read item :: readItems rest

/-- All that the values of fields may be read as. -/
def readFields : List (Text × Json) → Fields Reading
  | [] => []
  | (name, value) :: rest => (name, read value) :: readFields rest

end

/-- The schema that an object is read as. -/
def ofJson (value : Json) : Schema := (read value).schema

theorem readItems_eq (items : List Json) : readItems items = items.map read := by
  induction items with
  | nil => rfl
  | cons item rest ih => rw [readItems, ih, List.map_cons]

theorem readFields_eq (fields : Fields Json) :
    readFields fields = fields.map fun field => (field.1, read field.2) := by
  induction fields with
  | nil => rfl
  | cons field rest ih => rw [readFields, ih, List.map_cons]

theorem read_value (value : Json) : (read value).value = value := by
  cases value <;> rfl

/-! ## The law -/

theorem objects_eq (members : List Schema) : objects members = members.map toJson := by
  induction members with
  | nil => rfl
  | cons member rest ih => rw [objects, ih, List.map_cons, toJson]

theorem namedObjects_eq (properties : Fields Schema) :
    namedObjects properties = properties.map fun property => (property.1, property.2.toJson) := by
  induction properties with
  | nil => rfl
  | cons property rest ih => rw [namedObjects, ih, List.map_cons, toJson]

/-- What the keywords of a schema are read as, found by their names. -/
theorem get?_readFields_keywords (schema : Schema) (name : Text) :
    Fields.get? (readFields schema.keywords) name =
      (Fields.get? schema.keywordTable name).join.map read := by
  rw [readFields_eq, Fields.get?_map, get?_keywords]

/-- What is written in a way that can be undone is read back, and so is that there is nothing. -/
theorem read_back {α : Type} (write : α → Json) (take : Json → Option α)
    (h : ∀ value, take (write value) = some value) (written : Option α) :
    ((written.map write).map read).bind (fun reading => take reading.value) = written := by
  cases written with
  | none => rfl
  | some value =>
      show take (read (write value)).value = some value
      rw [read_value, h]

theorem read_text (text : Option Text) :
    ((text.map Json.str).map read).bind (fun reading => reading.value.text?) = text :=
  read_back Json.str Json.text? (fun _ => rfl) text

theorem read_integer (value : Option Int) :
    ((value.map Json.int).map read).bind (fun reading => reading.value.integer?) = value :=
  read_back Json.int Json.integer? (fun _ => rfl) value

theorem read_items (items : Option (List Json)) :
    ((items.map Json.arr).map read).bind (fun reading => reading.value.items?) = items :=
  read_back Json.arr Json.items? (fun _ => rfl) items

theorem read_texts (names : Option (List Text)) :
    ((names.map fun names => Json.arr (names.map Json.str)).map read).bind
      (fun reading => reading.value.texts?) = names := by
  refine read_back (fun names => Json.arr (names.map Json.str)) Json.texts? (fun names => ?_) names
  have hnames : (names.map Json.str).filterMap Json.text? = names := by
    simp [List.filterMap_map, Function.comp_def, Json.text?]
  exact congrArg some hnames

theorem read_nullable (nullable : Bool) :
    (if nullable = true then some (read (.bool true)) else none).isSome = nullable := by
  cases nullable <;> rfl

/-- The keyword has the default as far as it counts. -/
theorem defaultKeyword_eq (type : Option Text) (hasDefault : Bool) (value : Json) :
    defaultKeyword type hasDefault value = normalDefault type hasDefault value := by
  cases hasDefault <;> cases value <;> simp [defaultKeyword, normalDefault]

theorem read_default (value : Option Json) : (value.map read).map Reading.value = value := by
  cases value <;> simp [read_value]

/-- The keyword has the description as far as it counts. -/
theorem descriptionKeyword_eq (description : Option Text) :
    descriptionKeyword description = (normalDescription description).map Json.str := by
  rcases description with _ | (_ | ⟨c, rest⟩) <;> rfl

theorem read_description (description : Option Text) :
    ((descriptionKeyword description).map read).bind (fun reading => reading.value.text?) =
      normalDescription description := by
  rw [descriptionKeyword_eq, read_text]

theorem read_item {item : Option Schema} (h : ∀ child ∈ item, ofJson child.toJson = child.normalized) :
    ((itemObject item).map read).map Reading.schema = normalizedItem item := by
  cases item with
  | none => rfl
  | some child => exact congrArg some (h child rfl)

theorem read_members {members : Option (List Schema)}
    (h : ∀ list ∈ members, ∀ child ∈ list, ofJson child.toJson = child.normalized) :
    ((memberList members).map read).map Reading.members = normalizedMembers members := by
  cases members with
  | none => rfl
  | some list =>
      simp only [memberList, Option.map_some, read, readItems_eq, objects_eq, List.map_map,
        normalizedMembers, normalizedList_eq]
      exact congrArg some (List.map_congr_left (h list rfl))

theorem read_properties {properties : Option (Fields Schema)}
    (h : ∀ list ∈ properties, ∀ property ∈ list,
      ofJson property.2.toJson = property.2.normalized) :
    ((propertyObject properties).map read).map Reading.named = normalizedProperties properties := by
  rcases properties with _ | (_ | ⟨property, rest⟩)
  · rfl
  · rfl
  · simp only [propertyObject, Option.map_some, read, readFields_eq, namedObjects_eq, List.map_map,
      normalizedProperties, normalizedNamed_eq]
    exact congrArg some (List.map_congr_left fun entry hentry =>
      congrArg (Prod.mk entry.1) (h _ rfl entry hentry))

theorem read_additional {additional : Option (Additional Schema)}
    (h : ∀ child, additional = some (.schema child) → ofJson child.toJson = child.normalized) :
    ((additionalValue additional).map read).map Reading.additional =
      normalizedAdditional additional := by
  rcases additional with _ | (value | child)
  · rfl
  · rfl
  · exact congrArg (fun schema => some (Additional.schema schema)) (h child rfl)

/-- **What was written is read back as the normal form.** -/
theorem ofJson_toJson (schema : Schema) : ofJson schema.toJson = schema.normalized := by
  induction schema using Schema.ind with
  | node schema ih =>
      show ofReadings (readFields schema.keywords) = _
      have heach := eachChild_of_forall ih
      have hitems := read_item heach.items
      have hproperties := read_properties heach.properties
      have honeOf := read_members heach.oneOf
      have hanyOf := read_members heach.anyOf
      have hallOf := read_members heach.allOf
      have hadditional := read_additional heach.additional
      rw [normalized_eq]
      simp only [ofReadings, get?_readFields_keywords]
      -- every keyword is found at its place in the table; the maps stay apart, for what is read back
      simp [keywordTable, Fields.get?, -Option.map_map, read_text, read_integer, read_items, read_texts,
        read_nullable, read_default, defaultKeyword_eq, read_description, hitems, hproperties, honeOf,
        hanyOf, hallOf, hadditional]

/-! ## The converse -/

/-- Whatever has the normal form of the schema is written as the schema is. -/
def WrittenAlike (schema : Schema) : Prop :=
  ∀ other : Schema, schema.normalized = other.normalized → schema.toJson = other.toJson

/-- A list whose elements agree in one way with those of another agrees with it in another way, if
every element does. -/
theorem map_eq_of_map_eq {α β γ : Type} {f : α → β} {g : α → γ} {left right : List α}
    (h : ∀ a ∈ left, ∀ b, f a = f b → g a = g b) (heq : left.map f = right.map f) :
    left.map g = right.map g := by
  induction left generalizing right with
  | nil =>
      obtain rfl := List.map_eq_nil_iff.mp heq.symm
      rfl
  | cons a left ih =>
      cases right with
      | nil => cases heq
      | cons b right =>
          obtain ⟨hfirst, hrest⟩ := List.cons.inj heq
          obtain ⟨hhead, htail⟩ := List.forall_mem_cons.mp h
          rw [List.map_cons, List.map_cons, hhead b hfirst, ih htail hrest]

theorem eq_of_isSome_of_getD {left right : Option Json} (hsome : left.isSome = right.isSome)
    (hvalue : left.getD .null = right.getD .null) : left = right := by
  cases left <;> cases right <;> simp_all

theorem itemObject_eq_of_normalized {left right : Option Schema}
    (h : ∀ child ∈ left, child.WrittenAlike) (heq : normalizedItem left = normalizedItem right) :
    itemObject left = itemObject right := by
  cases left <;> cases right
  case none.none => rfl
  case some.some child other => exact congrArg some (h child rfl other (Option.some.inj heq))
  all_goals cases heq

theorem memberList_eq_of_normalized {left right : Option (List Schema)}
    (h : ∀ list ∈ left, ∀ child ∈ list, child.WrittenAlike)
    (heq : normalizedMembers left = normalizedMembers right) :
    memberList left = memberList right := by
  cases left <;> cases right
  case none.none => rfl
  case some.some list others =>
    have hlist : list.map normalized = others.map normalized := by
      rw [← normalizedList_eq, ← normalizedList_eq]
      exact Option.some.inj heq
    rw [memberList, memberList, objects_eq, objects_eq, map_eq_of_map_eq (h list rfl) hlist]
  all_goals cases heq

theorem propertyObject_eq_of_normalized {left right : Option (Fields Schema)}
    (h : ∀ list ∈ left, ∀ property ∈ list, property.2.WrittenAlike)
    (heq : normalizedProperties left = normalizedProperties right) :
    propertyObject left = propertyObject right := by
  rcases left with _ | (_ | ⟨property, rest⟩) <;> rcases right with _ | (_ | ⟨other, others⟩)
  case some.cons.some.cons =>
    have hnormal : (property :: rest).map (fun entry => (entry.1, entry.2.normalized)) =
        (other :: others).map fun entry => (entry.1, entry.2.normalized) := by
      rw [← normalizedNamed_eq, ← normalizedNamed_eq]
      exact Option.some.inj heq
    have hwritten : namedObjects (property :: rest) = namedObjects (other :: others) := by
      rw [namedObjects_eq, namedObjects_eq]
      refine map_eq_of_map_eq (fun entry hentry found hfound => ?_) hnormal
      obtain ⟨hname, hschema⟩ := Prod.mk.inj hfound
      rw [hname, h _ rfl entry hentry found.2 hschema]
    rw [propertyObject, propertyObject, hwritten]
  -- no properties are as good as an empty mapping of them
  all_goals first | rfl | cases heq

theorem additionalValue_eq_of_normalized {left right : Option (Additional Schema)}
    (h : ∀ child, left = some (.schema child) → child.WrittenAlike)
    (heq : normalizedAdditional left = normalizedAdditional right) :
    additionalValue left = additionalValue right := by
  rcases left with _ | (value | child) <;> rcases right with _ | (found | other)
  case some.schema.some.schema =>
    have hschema : child.normalized = other.normalized :=
      Additional.schema.inj (Option.some.inj heq)
    exact congrArg some (h child rfl other hschema)
  case some.allowed.some.allowed =>
    obtain rfl : value = found := Additional.allowed.inj (Option.some.inj heq)
    rfl
  all_goals first | rfl | cases heq

/-- **The normal form says how a schema is written.** -/
theorem writtenAlike (schema : Schema) : schema.WrittenAlike := by
  induction schema using Schema.ind with
  | node schema ih =>
      intro other heq
      rw [normalized_eq, normalized_eq, Schema.mk.injEq] at heq
      obtain ⟨-, href, htype, hformat, hnullable, hset, hvalue, hitems, hproperties, honeOf, hanyOf,
        hallOf, hadditional, hrequired, hdescription, hminLength, hmaxLength, hminimum, hmaximum,
        hminItems, hmaxItems, henum⟩ := heq
      have heach := eachChild_of_forall ih
      have hdefault := eq_of_isSome_of_getD hset hvalue
      rw [htype] at hdefault
      have hitems := itemObject_eq_of_normalized heach.items hitems
      have hproperties := propertyObject_eq_of_normalized heach.properties hproperties
      have honeOf := memberList_eq_of_normalized heach.oneOf honeOf
      have hanyOf := memberList_eq_of_normalized heach.anyOf hanyOf
      have hallOf := memberList_eq_of_normalized heach.allOf hallOf
      have hadditional := additionalValue_eq_of_normalized heach.additional hadditional
      have htable : schema.keywordTable = other.keywordTable := by
        simp only [keywordTable, href, htype, hformat, hnullable, defaultKeyword_eq, hdefault, hitems,
          hproperties, honeOf, hanyOf, hallOf, hadditional, hrequired, descriptionKeyword_eq,
          hdescription, hminLength, hmaxLength, hminimum, hmaximum, hminItems, hmaxItems, henum]
      rw [toJson, toJson, keywords_eq, keywords_eq, htable]

/-- **Schemas are written as one object exactly if they have one normal form**, which is read off the
object. -/
theorem serialize_keeps_normal_form :
    (∀ left right : Schema, left.serialize false = right.serialize false ↔
      left.normalized = right.normalized) ∧
    ∀ schema : Schema, ofJson (schema.serialize false) = schema.normalized := by
  have hread : ∀ schema : Schema, ofJson (schema.serialize false) = schema.normalized :=
    fun schema => ofJson_toJson schema
  refine ⟨fun left right => ⟨fun h => ?_, fun h => left.writtenAlike right h⟩, hread⟩
  calc left.normalized
      _ = ofJson (left.serialize false) := (hread left).symm
      _ = ofJson (right.serialize false) := by rw [h]
      _ = right.normalized := hread right

/-- One object written twice: with two defaults that are switched off, with and without an empty mapping
of properties, and with other blanks in what is said about it. -/
theorem one_object_one_normal_form :
    let left : Schema :=
      { context := "$", type := some "object", hasDefault := true, defaultValue := .arr [],
        properties := some [], description := some "of  no\nkeys ",
        additional := some (.schema { defaultValue := .int 5, description := some "" }) }
    let right : Schema :=
      { context := "$.a", type := some "object", hasDefault := true, defaultValue := .bool false,
        description := some "of no keys",
        additional := some (.schema { context := "$.b", hasDefault := true }) }
    left.serialize false = right.serialize false ∧ left.normalized = right.normalized := by
  intro left right
  have h : left.serialize false = right.serialize false := by rfl
  exact ⟨h, (serialize_keeps_normal_form.1 left right).mp h⟩

end Schema

end Schemata
