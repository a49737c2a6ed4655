import Mathlib.Data.Set.Insert
import Schemata.Proofs.Sameness
import Schemata.Schema.Combine

/-!
# The values that a schema describes

The OpenAPI reading of a schema as a set of JSON values, for any reading `refs` of the references
(`Schema.values`). A keyword speaks about values of one sort and says nothing about others; numbers
are integers or floating-point numbers, truth values are neither. The format, the description and
the context do not count.

* **one layer** — a value is described if it is null and the schema is nullable, or if the schema is
  more than the type of null and every keyword admits the value (`Schema.mem_values_iff`,
  `Schema.Admits`);
* **sameness** — schemas that are the same describe the same values (`Schema.Same.values_eq`);
* **disjointness** — types with different names have no value in common
  (`Schema.disjoint_of_typeName_ne`), which is why `oneOf` may tell members apart by them.
-/

namespace Schemata

open List (Forall₂)

namespace Binary64

/-- A finite number with its sign, counted in units. -/
def signedUnits (negative : Bool) (mantissa exponent : Nat) : Int :=
  let size := mantissa * Nat.pow 2 exponent
  if negative then -(size : Int) else size

/-- Whether a number is at least an integer. -/
def isAtLeast (bound : Int) : Binary64 → Bool
  | .nan => false
  | .infinite negative => !negative
  | .finite negative mantissa exponent _ =>
    bound * unitsOfOne ≤ signedUnits negative mantissa exponent

/-- Whether a number is at most an integer. -/
def isAtMost (bound : Int) : Binary64 → Bool
  | .nan => false
  | .infinite negative => negative
  | .finite negative mantissa exponent _ =>
    signedUnits negative mantissa exponent ≤ bound * unitsOfOne

end Binary64

namespace Json

/-- Whether a value is of a primitive type. -/
def hasType (name : Text) : Json → Bool
  | .null => false
  | .bool _ => name = "boolean"
  | .int _ => name = "integer" || name = "number"
  | .float _ => name = "number"
  | .str _ => name = "string"
  | .arr _ => name = "array"
  | .obj _ => name = "object"

theorem hasType_string_iff {value : Json} :
    value.hasType "string" = true ↔ ∃ text, value = .str text := by
  cases value <;> simp [hasType]

theorem hasType_boolean_iff {value : Json} :
    value.hasType "boolean" = true ↔ ∃ truth, value = .bool truth := by
  cases value <;> simp [hasType]

theorem hasType_integer_iff {value : Json} :
    value.hasType "integer" = true ↔ ∃ number, value = .int number := by
  cases value <;> simp [hasType]

theorem hasType_number_iff {value : Json} :
    value.hasType "number" = true ↔
      (∃ number, value = .int number) ∨ ∃ number, value = .float number := by
  cases value <;> simp [hasType]

theorem hasType_array_iff {value : Json} :
    value.hasType "array" = true ↔ ∃ items, value = .arr items := by
  cases value <;> simp [hasType]

theorem hasType_object_iff {value : Json} :
    value.hasType "object" = true ↔ ∃ fields, value = .obj fields := by
  cases value <;> simp [hasType]

/-- The name of the type of a value, which integers share with all numbers. Null has none. -/
def typeName : Json → Option Text
  | .null => none
  | .bool _ => some "boolean"
  | .int _ | .float _ => some "number"
  | .str _ => some "string"
  | .arr _ => some "array"
  | .obj _ => some "object"

/-- Whether a value is no number below the bound. -/
def isAtLeast (bound : Int) : Json → Bool
  | .int value => bound ≤ value
  | .float value => value.isAtLeast bound
  | _ => true

/-- Whether a value is no number above the bound. -/
def isAtMost (bound : Int) : Json → Bool
  | .int value => value ≤ bound
  | .float value => value.isAtMost bound
  | _ => true

/-- Whether a value is no text with fewer code points. -/
def isAsLongAs (length : Int) : Json → Bool
  | .str text => length ≤ text.length
  | _ => true

theorem isAsLongAs_one_iff {text : Text} : (Json.str text).isAsLongAs 1 = true ↔ text ≠ [] := by
  rw [isAsLongAs, decide_eq_true_eq, ← List.length_pos_iff]
  omega

/-- The elements of a list; other values have none. -/
def elements : Json → List Json
  | .arr items => items
  | _ => []

/-- The fields of an object; other values have none. -/
def fields : Json → Fields Json
  | .obj fields => fields
  | _ => []

/-- Whether a value is no object without a field of that name. -/
def hasField (name : Text) : Json → Bool
  | .obj fields => (Fields.get? fields name).isSome
  | _ => true

end Json

/-- The value is in one of the sets and in no other. -/
def InExactlyOne (sets : List (Set Json)) (value : Json) : Prop :=
  ∃ before set after, sets = before ++ set :: after ∧ value ∈ set ∧
    ∀ other ∈ before ++ after, value ∉ other

/-- In sets that do not share the value, being in one of them is being in exactly one. -/
theorem inExactlyOne_iff_of_pairwise {sets : List (Set Json)} {value : Json}
    (h : sets.Pairwise fun left right => ¬ (value ∈ left ∧ value ∈ right)) :
    InExactlyOne sets value ↔ ∃ set ∈ sets, value ∈ set := by
  constructor
  · intro hleft
    rcases hleft with ⟨before, set, after, rfl, hvalue, -⟩
    exact ⟨set, by simp, hvalue⟩
  · intro hright
    rcases hright with ⟨set, hset, hvalue⟩
    obtain ⟨before, after, rfl⟩ := List.append_of_mem hset
    obtain ⟨-, htail, hacross⟩ := List.pairwise_append.mp h
    refine ⟨before, set, after, rfl, hvalue, fun other hother hmem => ?_⟩
    rcases List.mem_append.mp hother with hother | hother
    · exact hacross other hother set List.mem_cons_self ⟨hmem, hvalue⟩
    · exact List.rel_of_pairwise_cons htail hother ⟨hvalue, hmem⟩

namespace Schema

mutual

/-- The values that a schema describes. -/
def values (refs : Text → Set Json) : Schema → Set Json
  | { ref, type, nullable, items, properties, oneOf, anyOf, allOf, additional, required, minLength,
      minimum, maximum, maxItems, enum, .. } =>
    {value |
      nullable = true ∧ value = .null ∨
      -- alone, the flag is the type of null
      (nullable = true → ref.isSome ∨ type.isSome ∨ oneOf.isSome ∨ anyOf.isSome ∨ allOf.isSome) ∧
      (∀ target ∈ ref, value ∈ refs target) ∧
      (∀ name ∈ type, value.hasType name = true) ∧
      (∀ allowed ∈ enum, ∃ literal ∈ allowed, literal.same value = true) ∧
      (∀ bound ∈ minimum, value.isAtLeast bound = true) ∧
      (∀ bound ∈ maximum, value.isAtMost bound = true) ∧
      (∀ length ∈ minLength, value.isAsLongAs length = true) ∧
      (∀ count ∈ maxItems, (value.elements.length : Int) ≤ count) ∧
      (∀ names ∈ required, ∀ name ∈ names, value.hasField name = true) ∧
      (∀ described ∈ itemValues refs items, ∀ element ∈ value.elements, element ∈ described) ∧
      (∀ described ∈ propertyValues refs properties, ∀ field ∈ value.field? described.1,
        field ∈ described.2) ∧
      (∀ field ∈ value.fields, field.1 ∉ Fields.keys (propertyValues refs properties) →
        field.2 ∈ additionalValues refs additional) ∧
      (∀ described ∈ memberValues refs oneOf, InExactlyOne described value) ∧
      (∀ described ∈ memberValues refs anyOf, ∃ set ∈ described, value ∈ set) ∧
      (∀ described ∈ memberValues refs allOf, ∀ set ∈ described, value ∈ set)}
termination_by structural schema => schema

/-- The values of an optional schema. -/
def itemValues (refs : Text → Set Json) : Option Schema → Option (Set Json)
  | none => none
  | some schema => some (values refs schema)
termination_by structural item => item

/-- The values of optional properties, by name. -/
def propertyValues (refs : Text → Set Json) : Option (List (Text × Schema)) → Fields (Set Json)
  | none => []
  | some properties => namedValues refs properties
termination_by structural properties => properties

/-- The values of named schemas. -/
def namedValues (refs : Text → Set Json) : List (Text × Schema) → Fields (Set Json)
  | [] => []
  | (name, schema) :: rest => (name, values refs schema) :: namedValues refs rest
termination_by structural properties => properties

/-- The values of unlisted keys. -/
def additionalValues (refs : Text → Set Json) : Option (Additional Schema) → Set Json
  | none => Set.univ
  | some (.allowed allowed) => {_value | allowed = true}
  | some (.schema schema) => values refs schema
termination_by structural additional => additional

/-- The values of optional members. -/
def memberValues (refs : Text → Set Json) : Option (List Schema) → Option (List (Set Json))
  | none => none
  | some members => some (listValues refs members)
termination_by structural members => members

/-- The values of schemas, one by one. -/
def listValues (refs : Text → Set Json) : List Schema → List (Set Json)
  | [] => []
  | schema :: rest => values refs schema :: listValues refs rest
termination_by structural members => members

end

/-- A schema that says more than null. -/
def isConstrained (schema : Schema) : Bool :=
  schema.ref.isSome || schema.type.isSome || schema.oneOf.isSome || schema.anyOf.isSome ||
    schema.allOf.isSome

/-- Every keyword of the schema admits the value. -/
structure Admits (refs : Text → Set Json) (schema : Schema) (value : Json) : Prop where
  ref : ∀ target ∈ schema.ref, value ∈ refs target
  type : ∀ name ∈ schema.type, value.hasType name = true
  enum : ∀ allowed ∈ schema.enum, ∃ literal ∈ allowed, literal.same value = true
  minimum : ∀ bound ∈ schema.minimum, value.isAtLeast bound = true
  maximum : ∀ bound ∈ schema.maximum, value.isAtMost bound = true
  minLength : ∀ length ∈ schema.minLength, value.isAsLongAs length = true
  maxItems : ∀ count ∈ schema.maxItems, (value.elements.length : Int) ≤ count
  required : ∀ names ∈ schema.required, ∀ name ∈ names, value.hasField name = true
  items : ∀ item ∈ schema.items, ∀ element ∈ value.elements, element ∈ item.values refs
  properties : ∀ property ∈ schema.properties.getD [], ∀ field ∈ value.field? property.1,
    field ∈ property.2.values refs
  additional : ∀ field ∈ value.fields, field.1 ∉ Fields.keys (schema.properties.getD []) →
    field.2 ∈ additionalValues refs schema.additional
  oneOf : ∀ members ∈ schema.oneOf, InExactlyOne (members.map (values refs)) value
  anyOf : ∀ members ∈ schema.anyOf, ∃ member ∈ members, value ∈ member.values refs
  allOf : ∀ members ∈ schema.allOf, ∀ member ∈ members, value ∈ member.values refs

variable {refs : Text → Set Json}

theorem itemValues_eq (item : Option Schema) : itemValues refs item = item.map (values refs) := by
  cases item <;> rfl

theorem namedValues_eq (properties : List (Text × Schema)) :
    namedValues refs properties =
      properties.map fun property => (property.1, property.2.values refs) := by
  induction properties with
  | nil => rfl
  | cons property rest ih =>
      show (property.1, values refs property.2) :: namedValues refs rest = _
      rw [ih, List.map_cons]

theorem propertyValues_eq (properties : Option (List (Text × Schema))) :
    propertyValues refs properties =
      (properties.getD []).map fun property => (property.1, property.2.values refs) := by
  cases properties with
  | none => rfl
  | some properties => exact namedValues_eq properties

theorem listValues_eq (members : List Schema) :
    listValues refs members = members.map (values refs) := by
  induction members with
  | nil => rfl
  | cons member rest ih =>
      show values refs member :: listValues refs rest = _
      rw [ih, List.map_cons]

theorem memberValues_eq (members : Option (List Schema)) :
    memberValues refs members = members.map (List.map (values refs)) := by
  cases members with
  | none => rfl
  | some members => exact congrArg some (listValues_eq members)

/-- A value is described if it is null and null is, or if every keyword of a schema that is more
than the type of null admits it. -/
theorem mem_values_iff {schema : Schema} {value : Json} :
    value ∈ schema.values refs ↔
      schema.nullable = true ∧ value = .null ∨
        (schema.nullable = true → schema.isConstrained = true) ∧ schema.Admits refs value := by
  obtain ⟨⟩ := schema
  simp only [values, itemValues_eq, propertyValues_eq, memberValues_eq, Set.mem_ofPred_eq,
    isConstrained, Bool.or_eq_true, or_assoc, Option.mem_def, Option.map_eq_some_iff, Fields.keys,
    List.map_map, List.mem_map]
  refine or_congr_right (and_congr_right fun _ => ?_)
  constructor
  · rintro ⟨href, htype, henum, hminimum, hmaximum, hminLength, hmaxItems, hrequired, hitems,
      hproperties, hadditional, honeOf, hanyOf, hallOf⟩
    refine ⟨href, htype, henum, hminimum, hmaximum, hminLength, hmaxItems, hrequired, ?_, ?_, ?_, ?_,
      ?_, ?_⟩
    · exact fun item hitem element => hitems _ ⟨item, hitem, rfl⟩ element
    · exact fun property hproperty field => hproperties _ ⟨property, hproperty, rfl⟩ field
    · exact fun field hfield hunlisted =>
        hadditional field hfield (by simpa [Fields.keys] using hunlisted)
    · exact fun members hmembers => honeOf _ ⟨members, hmembers, rfl⟩
    · exact fun members hmembers => by simpa using hanyOf _ ⟨members, hmembers, rfl⟩
    · exact fun members hmembers => by simpa using hallOf _ ⟨members, hmembers, rfl⟩
  · rintro ⟨href, htype, henum, hminimum, hmaximum, hminLength, hmaxItems, hrequired, hitems,
      hproperties, hadditional, honeOf, hanyOf, hallOf⟩
    refine ⟨href, htype, henum, hminimum, hmaximum, hminLength, hmaxItems, hrequired, ?_, ?_, ?_, ?_,
      ?_, ?_⟩
    · rintro _ ⟨item, hitem, rfl⟩
      exact hitems item hitem
    · rintro _ ⟨property, hproperty, rfl⟩
      exact hproperties property hproperty
    · exact fun field hfield hunlisted =>
        hadditional field hfield (by simpa [Fields.keys] using hunlisted)
    · rintro _ ⟨members, hmembers, rfl⟩
      exact honeOf members hmembers
    · rintro _ ⟨members, hmembers, rfl⟩
      simpa using hanyOf members hmembers
    · rintro _ ⟨members, hmembers, rfl⟩
      simpa using hallOf members hmembers

/-! ## Sameness -/

/-- Two schemas describe the same values. -/
def Describes (refs : Text → Set Json) (left right : Schema) : Prop :=
  left.values refs = right.values refs

theorem Describes.equivalentAt (schema : Schema) : EquivalentAt (Describes refs) schema :=
  ⟨rfl, fun h => Eq.symm h, fun h h' => Eq.trans h h'⟩

theorem map_values_eq {lefts rights : List Schema} (h : Forall₂ (Describes refs) lefts rights) :
    lefts.map (values refs) = rights.map (values refs) := by
  induction h with
  | nil => rfl
  | cons hhead _ ih => rw [List.map_cons, List.map_cons, ih, hhead]

theorem additionalValues_eq {left right : Option (Additional Schema)}
    (h : Option.Rel (Additional.Rel (Describes refs)) left right) :
    additionalValues refs left = additionalValues refs right := by
  cases h with
  | none => rfl
  | some hrel =>
      cases hrel with
      | allowed allowed => rfl
      | schema hsame => exact hsame

/-- What one schema admits is admitted by every schema that agrees at the root and has children of
the same meaning. -/
theorem Admits.of_sameNode {left right : Schema} {value : Json}
    (h : SameNode (Describes refs) left right) (hleft : left.Admits refs value) :
    right.Admits refs value := by
  have hfields := Fields.Matches.getD h.properties
  refine ⟨h.ref ▸ hleft.ref, h.type ▸ hleft.type, ?_, h.minimum ▸ hleft.minimum,
    h.maximum ▸ hleft.maximum, h.minLength ▸ hleft.minLength, h.maxItems ▸ hleft.maxItems,
    h.required ▸ hleft.required, ?_, ?_, ?_, ?_, ?_, ?_⟩
  · intro allowed hallowed
    obtain ⟨listed, hlisted, hsame⟩ := exists_left_of_mem_option h.enum hallowed
    obtain ⟨literal, hliteral, hvalue⟩ := hleft.enum listed hlisted
    obtain ⟨other, hother, hsame⟩ := exists_right_of_mem hsame hliteral
    -- the literal is the same as the value, so its counterpart is
    have hback : Json.Same other literal := (Json.same_equivalentAt literal).symm hsame
    exact ⟨other, hother, (Json.same_equivalentAt other).trans hback hvalue⟩
  · intro item hitem
    obtain ⟨element, helement, hsame⟩ := exists_left_of_mem_option h.items hitem
    exact hsame ▸ hleft.items element helement
  · -- the fields of a name stand in the same order on both sides
    rintro ⟨name, schema⟩ hproperty field hfield
    obtain ⟨other, hother, hsame⟩ :=
      exists_right_of_mem (hfields name).flip (Fields.mem_valuesOf.mpr hproperty)
    have hmem := hleft.properties (name, other) (Fields.mem_valuesOf.mp hother) field hfield
    exact hsame ▸ hmem
  · intro field hfield hunlisted
    have hmem := hleft.additional field hfield (mt (hfields.mem_keys_iff field.1).mp hunlisted)
    exact additionalValues_eq h.additional ▸ hmem
  · intro members hmembers
    obtain ⟨others, hothers, hsame⟩ := exists_left_of_mem_option h.oneOf hmembers
    exact map_values_eq hsame ▸ hleft.oneOf others hothers
  · intro members hmembers
    obtain ⟨others, hothers, hsame⟩ := exists_left_of_mem_option h.anyOf hmembers
    obtain ⟨other, hother, hvalue⟩ := hleft.anyOf others hothers
    obtain ⟨member, hmember, hsame⟩ := exists_right_of_mem hsame hother
    exact ⟨member, hmember, hsame ▸ hvalue⟩
  · intro members hmembers member hmember
    obtain ⟨others, hothers, hsame⟩ := exists_left_of_mem_option h.allOf hmembers
    obtain ⟨other, hother, hsame⟩ := exists_right_of_mem hsame.flip hmember
    have hvalue := hleft.allOf others hothers other hother
    exact hsame ▸ hvalue

/-- Being constrained is a matter of the root. -/
theorem SameNode.isConstrained_eq {R : Schema → Schema → Prop} {left right : Schema}
    (h : SameNode R left right) : left.isConstrained = right.isConstrained := by
  have hmembers : ∀ {o p : Option (List Schema)}, Option.Rel (Forall₂ R) o p →
      o.isSome = p.isSome := by
    intro o p hrel
    cases hrel <;> rfl
  rw [isConstrained, isConstrained, h.ref, h.type, hmembers h.oneOf, hmembers h.anyOf,
    hmembers h.allOf]

/-- **The same schemas describe the same values.** -/
theorem Same.values_eq {left right : Schema} (h : Same left right) :
    left.values refs = right.values refs := by
  induction left using Schema.ind generalizing right with
  | node left ih =>
      have hnode : SameNode (Describes refs) left right :=
        (same_iff.mp h).imp_of_mem fun child hchild other hsame => ih child hchild hsame
      -- the children describe the same in both directions, so the roots admit the same
      have hback : SameNode (Describes refs) right left :=
        (SameNode.equivalentAt fun child _ => Describes.equivalentAt child).symm hnode
      ext value
      rw [mem_values_iff, mem_values_iff, hnode.nullable, hnode.isConstrained_eq]
      exact or_congr_right (and_congr_right fun _ =>
        ⟨fun hleft => hleft.of_sameNode hnode, fun hright => hright.of_sameNode hback⟩)

theorem Same.admits_iff {left right : Schema} (h : Same left right) {value : Json} :
    left.Admits refs value ↔ right.Admits refs value := by
  have himp : ∀ {left right : Schema}, Same left right → left.Admits refs value →
      right.Admits refs value := fun hsame hleft =>
    hleft.of_sameNode ((same_iff.mp hsame).imp_of_mem fun _ _ _ hchild => hchild.values_eq)
  exact ⟨himp h, himp (same_symm h)⟩

/-! ## Types tell values apart -/

theorem typeName_of_integer {schema : Schema} (h : schema.type = some ("integer" : Text)) :
    schema.typeName = some ("number" : Text) :=
  if_pos h

theorem typeName_of_not_integer {schema : Schema} (h : schema.type ≠ some ("integer" : Text)) :
    schema.typeName = schema.type :=
  if_neg h

/-- The value of a type is of the sort that the name of the type names. -/
theorem typeName_of_hasType {schema : Schema} {type : Text} {value : Json}
    (h : schema.type = some type) (hvalue : value.hasType type = true) :
    schema.typeName = value.typeName := by
  by_cases hinteger : type = "integer"
  · -- the only type whose name is another one
    subst hinteger
    rw [typeName_of_integer h]
    cases value with
    | int value => rfl
    | _ => exact absurd hvalue (by simp only [Json.hasType]; decide)
  · rw [typeName_of_not_integer (by simpa [h] using hinteger), h]
    cases value <;> simp only [Json.hasType, hinteger, decide_false, Bool.false_or,
      decide_eq_true_eq, Bool.false_eq_true] at hvalue <;> rw [hvalue] <;> rfl

/-- Types with different names have no value in common. -/
theorem disjoint_of_typeName_ne {left right : Schema} (hleft : left.typeName.isSome = true)
    (hright : right.typeName.isSome = true) (hne : left.typeName ≠ right.typeName)
    (hnotNull : left.nullable = false) (hnotNull' : right.nullable = false) {value : Json}
    (h : value ∈ left.values refs) : value ∉ right.values refs := by
  intro h'
  have hname : ∀ {schema : Schema}, schema.typeName.isSome = true → schema.nullable = false →
      value ∈ schema.values refs → schema.typeName = value.typeName := by
    intro schema hsome hnotNull hmem
    rw [mem_values_iff] at hmem
    simp only [hnotNull, Bool.false_eq_true, false_and, false_or, IsEmpty.forall_iff, true_and]
      at hmem
    -- not being nullable, the schema describes values of its type only
    cases ht : schema.type with
    | some type => exact typeName_of_hasType ht (hmem.type type ht)
    | none =>
        rw [typeName_of_not_integer (by simp [ht]), ht] at hsome
        exact absurd hsome (by simp)
  exact hne ((hname hleft hnotNull h).trans (hname hright hnotNull' h').symm)

end Schema

end Schemata
