import Schemata.Proofs.Invariants

/-!
# The shape of resolved schemas

A schema that resolution returns uses its fields in few combinations only, at the root and
everywhere inside (`Schema.WellShaped`): it is of one kind, the keywords of a type come with the
type, and a list of allowed values has values of its type and no bounds beside it.

The one step that looks at several members is the pool of the values that they allow of a type:
its values are literals of the type because those of each member are (`WellShaped.pooled`).
-/

namespace Schemata

/-- The names of the primitive types. -/
def typeNames : List Text := ["string", "integer", "number", "boolean", "object", "array"]

/-- The names of the types whose values can be listed. -/
def literalTypes : List Text := ["string", "integer", "boolean"]

/-- A type whose values can be listed is a primitive type without parts. -/
theorem simple_of_mem_literalTypes {type : Text} (h : type ∈ literalTypes) :
    type ∈ typeNames ∧ type ≠ "array" ∧ type ≠ "object" := by
  simp only [literalTypes, List.mem_cons, List.not_mem_nil, or_false] at h
  rcases h with rfl | rfl | rfl <;> simp [typeNames]

/-- Whether a value may be listed for that type. The empty text may not. -/
def Json.isLiteralOf (type : Text) : Json → Bool
  | .str text => type = "string" && !text.isEmpty
  | .int _ => type = "integer"
  | .bool _ => type = "boolean"
  | _ => false

/-- Literals of one type that are the same are equal. -/
theorem Json.eq_of_isLiteralOf {type : Text} {left right : Json} (hleft : left.isLiteralOf type = true)
    (hright : right.isLiteralOf type = true) (h : Json.Same left right) : left = right := by
  cases left with
  | str text => exact (Json.same_str_iff.mp h).symm
  | int number =>
      have htype : type = "integer" := by simpa [Json.isLiteralOf] using hleft
      subst htype
      cases right with
      | int other => rw [Json.same_int_int_iff.mp h]
      | _ => simp [Json.isLiteralOf] at hright
  | bool truth =>
      have htype : type = "boolean" := by simpa [Json.isLiteralOf] using hleft
      subst htype
      cases right with
      | bool other => rw [Json.same_bool_bool_iff.mp h]
      | _ => simp [Json.isLiteralOf] at hright
  | _ => simp [Json.isLiteralOf] at hleft

namespace Schema

/-- The fields that are set at a root go together. -/
structure WellShaped (schema : Schema) : Prop where
  /-- At most one of the five fields that say what kind of schema this is. -/
  kind : [schema.ref.isSome, schema.type.isSome, schema.oneOf.isSome, schema.anyOf.isSome,
    schema.allOf.isSome].count true ≤ 1
  type : ∀ type ∈ schema.type, type ∈ typeNames
  elements : schema.items.isSome = true ∨ schema.maxItems.isSome = true →
    schema.type = some ("array" : Text)
  /-- An array has elements, or it is empty. -/
  array : schema.type = some ("array" : Text) →
    schema.items.isSome = true ∧ schema.maxItems = none ∨
      schema.items = none ∧ schema.maxItems = some 0
  fields : schema.properties.isSome = true ∨ schema.required.isSome = true ∨
    schema.additional.isSome = true → schema.type = some ("object" : Text)
  additional : schema.additional.isSome = true →
    schema.properties = none ∧ schema.additional ≠ some (.allowed false)
  required : ∀ names ∈ schema.required, names ≠ [] ∧
    ∃ properties ∈ schema.properties, ∀ name ∈ names, name ∈ Fields.keys properties
  bounds : schema.minimum.isSome = true ∨ schema.maximum.isSome = true →
    schema.type = some ("integer" : Text)
  minLength : ∀ length ∈ schema.minLength, schema.type = some ("string" : Text) ∧ length = 1
  enum : ∀ values ∈ schema.enum, values ≠ [] ∧
    (∃ type ∈ literalTypes, schema.type = some type ∧
      ∀ value ∈ values, value.isLiteralOf type = true) ∧
    schema.minimum = none ∧ schema.maximum = none ∧ schema.minLength = none
  noDefault : schema.hasDefault = false ∧ schema.defaultValue = .null
  /-- Two keywords that schemas may have are not made use of. -/
  unused : schema.maxLength = none ∧ schema.minItems = none

namespace WellShaped

/-- A schema with a type is of no other kind. -/
theorem alone {schema : Schema} (h : WellShaped schema) (htype : schema.type.isSome = true) :
    schema.ref = none ∧ schema.oneOf = none ∧ schema.anyOf = none ∧ schema.allOf = none := by
  have hkind := h.kind
  rw [htype] at hkind
  cases href : schema.ref <;> cases honeOf : schema.oneOf <;> cases hanyOf : schema.anyOf <;>
    cases hallOf : schema.allOf <;> simp [href, honeOf, hanyOf, hallOf] at hkind ⊢

theorem relabel {schema : Schema} (context : Text) (nullable : Bool) (description : Option Text)
    (h : WellShaped schema) : WellShaped { schema with context, nullable, description } :=
  ⟨h.kind, h.type, h.elements, h.array, h.fields, h.additional, h.required, h.bounds, h.minLength,
    h.enum, h.noDefault, h.unused⟩

theorem builtin (builtin : Builtin) : WellShaped builtin.schema := by
  cases builtin <;> constructor <;>
    simp [Builtin.schema, int64, typeNames, literalTypes, Json.isLiteralOf]

/-- A type with a list of literals of the type, and perhaps a format. -/
theorem listed (context : Text) (format : Option Text) {type : Text} {values : List Json}
    (htype : type ∈ literalTypes) (hne : values ≠ [])
    (hall : ∀ value ∈ values, value.isLiteralOf type = true) :
    WellShaped { context, type := some type, format, enum := some values } := by
  have hsimple := simple_of_mem_literalTypes htype
  constructor <;> simp [hsimple, htype, hne]
  exact hall

theorem texts (context : Text) (texts : List Text) (hne : texts ≠ []) :
    WellShaped (ofTextLiterals context texts) := by
  unfold ofTextLiterals
  split
  · constructor <;> simp [typeNames]
  · next hempty =>
    refine listed context none (by simp [literalTypes]) (by simpa using hne) fun value hvalue => ?_
    obtain ⟨text, htext, rfl⟩ := List.mem_map.mp hvalue
    have hnonempty : text ≠ [] := fun heq => hempty (heq ▸ htext)
    simpa [Json.isLiteralOf] using hnonempty

theorem ints (context : Text) (values : List Int) (hne : values ≠ []) :
    WellShaped (ofIntLiterals context values) := by
  refine listed context (some "int64") (by simp [literalTypes]) (by simpa using hne)
    fun value hvalue => ?_
  obtain ⟨number, -, rfl⟩ := List.mem_map.mp hvalue
  simp [Json.isLiteralOf]

theorem shape (context : Text) (fields : List (ShapeField TypeExpr)) (schemas : List Schema)
    (hlength : fields.length = schemas.length) :
    WellShaped (ofShape context fields ((fields.map ShapeField.key).zip schemas)) := by
  have hkeys : ((fields.map ShapeField.key).zip schemas).map Prod.fst =
      fields.map ShapeField.key :=
    List.map_fst_zip (by simp [hlength])
  -- only the required names have to do with another field
  constructor
  case required =>
    simp only [ofShape]
    intro names hnames
    split at hnames
    · simp at hnames
    · next hnonempty =>
      obtain rfl := Option.mem_some.mp hnames
      refine ⟨by simpa using hnonempty, _, rfl, fun name hname => ?_⟩
      obtain ⟨field, hfield, rfl⟩ := List.mem_map.mp hname
      rw [Fields.mem_keys_ofList, hkeys]
      exact List.mem_map_of_mem (List.mem_filter.mp hfield).1
  all_goals simp [ofShape, typeNames]

/-- The pool of a type lists literals of the type, of each member that has one. -/
theorem pooled (context : Text) (members : List Schema) (type : Option Text)
    (h : ∀ member ∈ members, WellShaped member) (htype : type ∈ openTypes members) :
    WellShaped (Schema.pooled context members type) := by
  obtain ⟨⟨member, hmember, hsome, rfl⟩, -⟩ := mem_openTypes.mp htype
  obtain ⟨values, hvalues⟩ := Option.isSome_iff_exists.mp hsome
  obtain ⟨hne, ⟨name, hname, hmemberType, -⟩, -⟩ := (h member hmember).enum values hvalues
  have hnonempty : pool member.type members ≠ [] := by
    obtain ⟨literal, hliteral⟩ := List.exists_mem_of_ne_nil values hne
    exact List.ne_nil_of_mem (mem_pool.mpr ⟨member, hmember, rfl, values, hvalues, hliteral⟩)
  -- a value of the pool is listed by a member of the same type, whose list has literals of it
  have hliterals : ∀ value ∈ pool member.type members, value.isLiteralOf name = true := by
    intro value hvalue
    obtain ⟨other, hother, hsame, listed, hlisted, hmem⟩ := mem_pool.mp hvalue
    obtain ⟨-, ⟨otherName, -, hotherType, hall⟩, -⟩ := (h other hother).enum listed hlisted
    rw [hsame, hmemberType, Option.some.injEq] at hotherType
    exact hotherType ▸ hall value hmem
  rw [Schema.pooled, hmemberType]
  rw [hmemberType] at hnonempty hliterals
  exact listed context none hname hnonempty hliterals

/-- The shape is an invariant of resolution. -/
theorem invariant : Invariant WellShaped where
  relabel := relabel
  builtin := builtin
  reference context target := by constructor <;> simp
  emptyList context := by constructor <;> simp [typeNames]
  list context items := by constructor <;> simp [typeNames]
  map context values := by constructor <;> simp [typeNames]
  range context minimum maximum := by constructor <;> simp [int64, typeNames]
  shape := shape
  texts := texts
  ints := ints
  pooled := pooled
  null context nullable := by constructor <;> simp
  allOf context nullable schemas _ := by constructor <;> simp
  oneOf context nullable schemas _ _ := by constructor <;> simp
  anyOf context nullable schemas _ _ := by constructor <;> simp

end WellShaped

end Schema

namespace Resolver

open Schema

/-- **What resolution returns is well-shaped, at the root and everywhere inside.** -/
theorem resolve_wellShaped {r : Resolver} {context : Text} {expr : TypeExpr} {schema : Schema}
    (h : (r.resolve context expr).outcome = .ok schema) :
    ∀ part, Subtree part schema → WellShaped part :=
  (resolves_of_ok h).throughout WellShaped.invariant

/-- A shape with a range of integers or null, and a list of texts and truth values. -/
theorem wellShaped_of_shape :
    let expr : TypeExpr := .shape
      [⟨"id", .union [.identifier "positive-int", .identifier "null"], false⟩,
        ⟨"tags", .generic "list"
          [.union [.literal (.str "on"), .identifier "true", .literal (.str "off")]], true⟩]
    ∃ schema, (({} : Resolver).resolve "$" expr).outcome = .ok schema ∧
      ∀ part, Subtree part schema → WellShaped part := by
  intro expr
  have hends : ∃ schema, (({} : Resolver).resolve "$" expr).outcome = .ok schema := ⟨_, rfl⟩
  obtain ⟨schema, h⟩ := hends
  exact ⟨schema, h, resolve_wellShaped h⟩

end Resolver

end Schemata
