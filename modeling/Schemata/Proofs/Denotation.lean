import Schemata.Proofs.Displaced

/-!
# What expressions denote

The values of a type expression, read off the expression alone (`TypeExpr.values`): a name denotes
what is built in or what its definition is read as, a union denotes what one of its members denotes,
a container denotes lists or objects of what its parts denote.

**Resolution preserves meaning**: for every expression that a schema can express
(`Resolver.Expressible`), resolution ends with a schema that describes what the expression denotes.
The induction is over the expressible expressions. A union is where it is at stake, and the laws of
unions settle it; every other rule has a lemma that says what its schema describes.
-/

namespace Schemata

open List (Forall₂)

namespace Builtin

/-- The values that a built-in type denotes. Every number is a floating-point number, also one that
is written as an integer. -/
def values : Builtin → Set Json
  | .string | .nonFalsyString | .numericString => {value | ∃ text, value = .str text}
  | .nonEmptyString => {value | ∃ text, text ≠ [] ∧ value = .str text}
  | .int | .integer => {value | ∃ number, value = .int number}
  | .nonNegativeInt => {value | ∃ number : Int, 0 ≤ number ∧ value = .int number}
  | .positiveInt => {value | ∃ number : Int, 1 ≤ number ∧ value = .int number}
  | .negativeInt => {value | ∃ number : Int, number ≤ -1 ∧ value = .int number}
  | .nonPositiveInt => {value | ∃ number : Int, number ≤ 0 ∧ value = .int number}
  | .bool | .boolean => {value | ∃ truth, value = .bool truth}
  | .trueValue => {.bool true}
  | .falseValue => {.bool false}
  | .numeric | .float | .double =>
    {value | (∃ number, value = .int number) ∨ ∃ number, value = .float number}
  | .mixed => Set.univ
  | .empty => ∅
  | .array => {value | (∃ items, value = .arr items) ∨ ∃ fields, value = .obj fields}
  | .object | .stdClass => {value | ∃ fields, value = .obj fields}
  | .null => {.null}

/-- Whether the schema of a built-in type can say what the type denotes. -/
def isExpressible : Builtin → Bool
  | .mixed | .empty | .array => false
  | _ => true

end Builtin

/-- The lists of such elements. -/
def listsOf (elements : Set Json) : Set Json :=
  {value | ∃ items, value = .arr items ∧ ∀ item ∈ items, item ∈ elements}

/-- The objects with such values, under any names. -/
def mapsOf (values : Set Json) : Set Json :=
  {value | ∃ fields, value = .obj fields ∧ ∀ field ∈ fields, field.2 ∈ values}

/-- The integers within the bounds that are given. -/
def rangeOf (low high : Option Int) : Set Json :=
  {value | ∃ number, value = .int number ∧ (∀ bound ∈ low, bound ≤ number) ∧
    ∀ bound ∈ high, number ≤ bound}

/-- The objects with the fields of a shape, optional ones perhaps, and any others. -/
def recordsOf (fields : List (ShapeField (Set Json))) : Set Json :=
  {value | ∃ entries, value = .obj entries ∧ ∀ field ∈ fields,
    (field.optional = false → (Fields.get? entries field.key).isSome = true) ∧
      ∀ found ∈ Fields.get? entries field.key, found ∈ field.type}

namespace TypeExpr

/-- The values that a name denotes: a built-in type, or what its definition is read as. -/
def nameValues (r : Resolver) (refs : Text → Set Json) (name : Text) : Set Json :=
  match Builtin.ofName? name.unrooted with
  | some builtin => builtin.values
  | none => {value | ∃ target ∈ r.target? name.unrooted, value ∈ refs target}

mutual

/-- The values that an expression denotes. -/
def values (r : Resolver) (refs : Text → Set Json) : TypeExpr → Set Json
  | .identifier name => nameValues r refs name
  | .qualified parts => nameValues r refs (lastPart parts)
  | .nullable inner => insert .null (values r refs inner)
  | .union members => {value | ∃ set ∈ memberValues r refs members, value ∈ set}
  | .intersection members => {value | ∀ set ∈ memberValues r refs members, value ∈ set}
  | .arrayOf element => listsOf (values r refs element)
  | .generic name args =>
    match args with
    | [element] => listsOf (values r refs element)
    | [first, second] =>
      if name = "int" then rangeOf first.intLiteral? second.intLiteral?
      else mapsOf (values r refs second)
    | _ => ∅
  | .shape fields => recordsOf (fieldValues r refs fields)
  | .literal value => {value}
  | .described inner _ => values r refs inner

/-- The values that each member denotes. -/
def memberValues (r : Resolver) (refs : Text → Set Json) : List TypeExpr → List (Set Json)
  | [] => []
  | member :: rest => values r refs member :: memberValues r refs rest

/-- The fields of a shape with the values that they denote. -/
def fieldValues (r : Resolver) (refs : Text → Set Json) :
    List (ShapeField TypeExpr) → List (ShapeField (Set Json))
  | [] => []
  | ⟨key, type, optional⟩ :: rest =>
    ⟨key, values r refs type, optional⟩ :: fieldValues r refs rest

end

variable {r : Resolver} {refs : Text → Set Json}

theorem memberValues_eq (members : List TypeExpr) :
    memberValues r refs members = members.map (values r refs) := by
  induction members with
  | nil => rw [memberValues, List.map_nil]
  | cons member rest ih => rw [memberValues, ih, List.map_cons]

theorem fieldValues_eq (fields : List (ShapeField TypeExpr)) :
    fieldValues r refs fields =
      fields.map fun field => ⟨field.key, values r refs field.type, field.optional⟩ := by
  induction fields with
  | nil => rw [fieldValues, List.map_nil]
  | cons field rest ih => rw [fieldValues, ih, List.map_cons]

/-- The name `empty` denotes nothing, rooted or not. -/
theorem values_empty {expr : TypeExpr} (h : expr.isIdentifier "empty" = true) :
    values r refs expr = ∅ := by
  cases expr with
  | identifier name =>
      have hname : name.unrooted = "empty" := by simpa [isIdentifier] using h
      have hbuiltin : Builtin.ofName? name.unrooted = some .empty :=
        hname ▸ Builtin.ofName?_name .empty
      rw [values, nameValues, hbuiltin]
      rfl
  | _ => cases h

end TypeExpr

/-- A list of nothing is empty. -/
theorem listsOf_empty : listsOf ∅ = {.arr []} := by
  ext value
  constructor
  · intro hleft
    rcases hleft with ⟨items, rfl, hall⟩
    rw [List.eq_nil_iff_forall_not_mem.mpr hall]
    rfl
  · rintro rfl
    exact ⟨[], rfl, fun item hitem => absurd hitem List.not_mem_nil⟩

/-! ## Rule by rule -/

namespace Schema

variable {refs : Text → Set Json} {context : Text}

theorem values_reference (target : Text) :
    ({ context, ref := some target } : Schema).values refs = refs target := by
  ext value
  rw [mem_values_of_not_nullable rfl]
  refine ⟨fun h => h.ref target rfl, fun h => ?_⟩
  constructor <;> simp [additionalValues, h]

/-- The schema of a built-in type describes what the type denotes. -/
theorem values_builtin {builtin : Builtin} (h : builtin.isExpressible = true) :
    ({ builtin.schema with context := context } : Schema).values refs = builtin.values := by
  ext value
  have hshape : WellShaped { builtin.schema with context := context } :=
    (WellShaped.builtin builtin).relabel context builtin.schema.nullable builtin.schema.description
  cases builtin with
  | mixed | empty | array => cases h
  | int | integer | nonNegativeInt | positiveInt | negativeInt | nonPositiveInt =>
      refine mem_range_iff.trans ?_
      simp [Builtin.schema, Builtin.values, int64, and_comm]
  | null => exact (IsNull.mem_values_iff ⟨context, none, rfl⟩)
  | object | stdClass =>
      rw [mem_values_of_not_nullable rfl]
      refine ⟨fun hadmits => Json.hasType_object_iff.mp (hadmits.type _ rfl), ?_⟩
      intro hvalue
      rcases hvalue with ⟨fields, rfl⟩
      constructor <;> simp [Builtin.schema, additionalValues, Json.hasType]
  | string | nonFalsyString | numericString =>
      rw [mem_values_of_not_nullable rfl, hshape.admits_iff rfl (by simp) (by simp),
        Json.hasType_string_iff]
      simp [Builtin.schema, Builtin.values]
  | nonEmptyString =>
      rw [mem_values_of_not_nullable rfl, hshape.admits_iff rfl (by simp) (by simp),
        Json.hasType_string_iff]
      constructor
      · intro hleft
        rcases hleft with ⟨⟨text, rfl⟩, -, -, -, hlength⟩
        exact ⟨text, Json.isAsLongAs_one_iff.mp (hlength 1 rfl), rfl⟩
      · intro hright
        rcases hright with ⟨text, hne, rfl⟩
        simp [Builtin.schema, Json.isAsLongAs_one_iff, hne]
  | bool | boolean =>
      rw [mem_values_of_not_nullable rfl, hshape.admits_iff rfl (by simp) (by simp),
        Json.hasType_boolean_iff]
      simp [Builtin.schema, Builtin.values]
  | trueValue | falseValue =>
      rw [mem_values_of_not_nullable rfl, hshape.admits_iff rfl (by simp) (by simp),
        Json.hasType_boolean_iff]
      constructor
      · intro hleft
        rcases hleft with ⟨⟨truth, rfl⟩, hlisted, -⟩
        have hsame := hlisted _ rfl
        simp only [List.mem_singleton, exists_eq_left, Json.same_bool_bool_iff] at hsame
        rw [← hsame]
        rfl
      · rintro rfl
        simp [Builtin.schema]
  | numeric | float | double =>
      rw [mem_values_of_not_nullable rfl, hshape.admits_iff rfl (by simp) (by simp),
        Json.hasType_number_iff]
      simp [Builtin.schema, Builtin.values]

theorem values_emptyList :
    ({ context, type := some "array", maxItems := some 0 } : Schema).values refs = {.arr []} := by
  ext value
  rw [mem_values_of_not_nullable rfl]
  constructor
  · intro h
    obtain ⟨items, rfl⟩ := Json.hasType_array_iff.mp (h.type _ rfl)
    have hcount := h.maxItems 0 rfl
    simp only [Json.elements] at hcount
    have hnil : items = [] := List.length_eq_zero_iff.mp (by omega)
    rw [hnil]
    rfl
  · rintro rfl
    constructor <;> simp [additionalValues, Json.hasType, Json.elements, Json.fields]

theorem values_list (items : Schema) :
    ({ context, type := some "array", items := some items } : Schema).values refs =
      listsOf (items.values refs) := by
  ext value
  rw [mem_values_of_not_nullable rfl]
  constructor
  · intro h
    obtain ⟨elements, rfl⟩ := Json.hasType_array_iff.mp (h.type _ rfl)
    exact ⟨elements, rfl, h.items items rfl⟩
  · intro hright
    rcases hright with ⟨elements, rfl, hall⟩
    constructor <;> simp [additionalValues, Json.hasType, Json.elements]
    exact hall

theorem values_map (values : Schema) :
    ({ context, type := some "object", additional := some (.schema values) } : Schema).values refs =
      mapsOf (values.values refs) := by
  ext value
  rw [mem_values_of_not_nullable rfl]
  constructor
  · intro h
    obtain ⟨fields, rfl⟩ := Json.hasType_object_iff.mp (h.type _ rfl)
    exact ⟨fields, rfl, fun field hfield => h.additional field hfield (by simp [Fields.keys])⟩
  · intro hright
    rcases hright with ⟨fields, rfl, hall⟩
    constructor <;> simp [additionalValues, Json.hasType, Json.fields]
    exact fun name found hfield _ => hall (name, found) hfield

theorem values_range (minimum maximum : Option Int) :
    ({ int64 with context, minimum, maximum } : Schema).values refs = rangeOf minimum maximum := by
  ext value
  exact mem_range_iff

/-- The names that a shape requires are the keys of its fields that are not optional. -/
theorem forall_required_iff {fields : List (ShapeField TypeExpr)} {named : Fields Schema}
    {P : Text → Prop} :
    (∀ names ∈ (ofShape context fields named).required, ∀ name ∈ names, P name) ↔
      ∀ field ∈ fields, field.optional = false → P field.key := by
  have hkeys : (∀ name ∈ (fields.filter fun field => !field.optional).map ShapeField.key, P name) ↔
      ∀ field ∈ fields, field.optional = false → P field.key := by
    rw [List.forall_mem_map]
    simp
  rw [← hkeys]
  simp only [ofShape]
  split
  · next hempty => simp [List.isEmpty_iff.mp hempty]
  · simp

/-- A shape whose keys differ describes objects with its fields. -/
theorem values_shape {fields : List (ShapeField TypeExpr)} {schemas : List Schema}
    (hkeys : (fields.map ShapeField.key).Nodup) (hlength : fields.length = schemas.length) :
    (ofShape context fields ((fields.map ShapeField.key).zip schemas)).values refs =
      recordsOf ((fields.zip schemas).map fun pair =>
        ⟨pair.1.key, pair.2.values refs, pair.1.optional⟩) := by
  have hfields : (fields.zip schemas).map Prod.fst = fields :=
    List.map_fst_zip (Nat.le_of_eq hlength)
  have hproperties : Fields.ofList ((fields.map ShapeField.key).zip schemas) =
      (fields.zip schemas).map fun pair => (pair.1.key, pair.2) := by
    rw [Fields.ofList_of_nodup, List.zip_map_left]
    · rfl
    · rwa [List.map_fst_zip (by simp [hlength])]
  ext value
  rw [mem_values_of_not_nullable rfl]
  constructor
  · intro h
    obtain ⟨entries, rfl⟩ := Json.hasType_object_iff.mp (h.type _ rfl)
    refine ⟨entries, rfl, fun field hfield => ?_⟩
    obtain ⟨⟨field, schema⟩, hpair, rfl⟩ := List.mem_map.mp hfield
    refine ⟨fun hrequired => ?_, fun found hfound => ?_⟩
    · exact forall_required_iff.mp h.required field (List.of_mem_zip hpair).1 hrequired
    · refine h.properties (field.key, schema) ?_ found hfound
      simp only [ofShape, Option.getD_some, hproperties]
      exact List.mem_map_of_mem hpair
  · intro hright
    rcases hright with ⟨entries, rfl, hall⟩
    have hrequired : ∀ field ∈ fields, field.optional = false →
        (Json.obj entries).hasField field.key = true := by
      intro field hfield
      rw [← hfields] at hfield
      obtain ⟨pair, hpair, rfl⟩ := List.mem_map.mp hfield
      exact (hall _ (List.mem_map_of_mem hpair)).1
    constructor
    case required => exact forall_required_iff.mpr hrequired
    case properties =>
      intro property hproperty found hfound
      simp only [ofShape, Option.getD_some, hproperties] at hproperty
      obtain ⟨pair, hpair, rfl⟩ := List.mem_map.mp hproperty
      exact (hall _ (List.mem_map_of_mem hpair)).2 found hfound
    all_goals simp [ofShape, additionalValues, Json.hasType]

end Schema

namespace Resolver

open Schema

/-! ## Expressible expressions -/

/-- `Expressible r refs expr`: a schema can say what the expression denotes, whatever it is made of.
Types without a schema of their own, intersections, shapes that repeat a key, the empty text among
literals and descriptions inside of an expression are left out, and so are unions with a listed
integer that is displaced. -/
inductive Expressible (r : Resolver) (refs : Text → Set Json) : TypeExpr → Prop
  | builtin {name : Text} {builtin : Builtin} : Builtin.ofName? name.unrooted = some builtin →
      builtin.isExpressible = true → Expressible r refs (.identifier name)
  | reference {name target : Text} : Builtin.ofName? name.unrooted = none →
      r.target? name.unrooted = some target → Expressible r refs (.identifier name)
  | qualified {parts : List Text} : Expressible r refs (.identifier (TypeExpr.lastPart parts)) →
      Expressible r refs (.qualified parts)
  | nullable {inner : TypeExpr} : Expressible r refs inner → Expressible r refs (.nullable inner)
  | union {members : List TypeExpr} : members ≠ [] →
      (∀ member ∈ members, Expressible r refs member) →
      (∀ context schemas, r.ResolvesAll context members schemas →
        ∀ value, ¬ Displaced refs schemas value) →
      Expressible r refs (.union members)
  | arrayOf {element : TypeExpr} : Expressible r refs element →
      Expressible r refs (.arrayOf element)
  | emptyList {name : Text} {element : TypeExpr} : name = "array" ∨ name = "list" →
      element.isIdentifier "empty" = true → Expressible r refs (.generic name [element])
  | list {name : Text} {element : TypeExpr} : name = "array" ∨ name = "list" →
      Expressible r refs element → Expressible r refs (.generic name [element])
  | map {element : TypeExpr} : Expressible r refs element →
      Expressible r refs (.generic "array" [.identifier "string", element])
  | range {low high : TypeExpr} : Expressible r refs (.generic "int" [low, high])
  | shape {fields : List (ShapeField TypeExpr)} : (fields.map ShapeField.key).Nodup →
      (∀ field ∈ fields, Expressible r refs field.type) → Expressible r refs (.shape fields)
  | text {text : Text} : text ≠ [] → Expressible r refs (.literal (.str text))
  | int {value : Int} : Expressible r refs (.literal (.int value))

variable {r : Resolver} {refs : Text → Set Json}

/-- What the induction gives for an expression in a context. -/
def Keeps (r : Resolver) (refs : Text → Set Json) (context : Text) (expr : TypeExpr)
    (schema : Schema) : Prop :=
  r.Resolves context expr schema ∧ schema.description = none ∧
    schema.values refs = expr.values r refs

/-- None of the names without a schema of their own is expressible. -/
theorem Expressible.isIdentifier_eq_false {expr : TypeExpr} (h : Expressible r refs expr)
    (builtin : Builtin) (hnot : builtin.isExpressible = false) :
    expr.isIdentifier builtin.name = false := by
  cases h with
  | builtin hbuiltin hexpressible =>
      refine decide_eq_false fun heq => ?_
      rw [heq, Builtin.ofName?_name, Option.some.injEq] at hbuiltin
      rw [hbuiltin, hexpressible] at hnot
      exact Bool.true_eq_false.mp hnot
  | reference hbuiltin _ =>
      refine decide_eq_false fun heq => ?_
      rw [heq, Builtin.ofName?_name] at hbuiltin
      cases hbuiltin
  | _ => rfl

/-- Parts that have a schema each have a list of schemas. -/
theorem exists_schemas {α : Type} {R : α → Schema → Prop} {parts : List α}
    (h : ∀ part ∈ parts, ∃ schema, R part schema) : ∃ schemas, Forall₂ R parts schemas := by
  induction parts with
  | nil => exact ⟨[], .nil⟩
  | cons part parts ih =>
      obtain ⟨⟨schema, hschema⟩, hrest⟩ := List.forall_mem_cons.mp h
      obtain ⟨schemas, hschemas⟩ := ih hrest
      exact ⟨schema :: schemas, .cons hschema hschemas⟩

/-- A union keeps what its members keep, if nothing is displaced. -/
theorem keeps_union {context : Text} {members : List TypeExpr} {schemas : List Schema}
    (hne : members ≠ []) (hall : Forall₂ (Keeps r refs context) members schemas)
    (hnames : ∀ member ∈ members, member.isIdentifier "mixed" = false)
    (hkept : ∀ value, ¬ Displaced refs schemas value) :
    ∃ schema, Keeps r refs context (.union members) schema := by
  have hok := hall.imp fun member schema hkeeps => hkeeps.1.resolve_ok
  have hbare : ∀ schema ∈ schemas, schema.description = none := by
    intro schema hschema
    obtain ⟨member, -, hkeeps⟩ := exists_right_of_mem hall.flip hschema
    exact hkeeps.2.1
  obtain ⟨schema, h⟩ := (exists_union_iff hne hok).mpr fun _ => hnames
  refine ⟨schema, resolves_of_ok h, description_union hne hok hbare h, ?_⟩
  ext value
  rw [TypeExpr.values, TypeExpr.memberValues_eq]
  constructor
  · intro hvalue
    obtain ⟨part, hpart, hmem⟩ := exists_mem_of_mem_union hne hok hbare h hvalue
    obtain ⟨member, hmember, hkeeps⟩ := exists_right_of_mem hall.flip hpart
    exact ⟨_, List.mem_map_of_mem hmember, hkeeps.2.2 ▸ hmem⟩
  · intro hright
    rcases hright with ⟨_, hset, hvalue⟩
    obtain ⟨member, hmember, rfl⟩ := List.mem_map.mp hset
    obtain ⟨part, hpart, hkeeps⟩ := exists_right_of_mem hall hmember
    exact (mem_union_iff_not_displaced hne hok h ⟨part, hpart, hkeeps.2.2 ▸ hvalue⟩).mpr
      (hkept value)

theorem Expressible.exists_keeps {expr : TypeExpr} (h : Expressible r refs expr) (context : Text) :
    ∃ schema, Keeps r refs context expr schema := by
  induction h generalizing context with
  | @builtin name builtin hbuiltin hexpressible =>
      -- the name that strict resolution refuses is not expressible
      have hbare : r.strict = true → name ≠ "array" := by
        rintro - rfl
        have harray : Builtin.ofName? (Text.unrooted "array") = some .array := by decide
        rw [harray, Option.some.injEq] at hbuiltin
        subst hbuiltin
        cases hexpressible
      refine ⟨_, .builtin hbare hbuiltin, ?_, ?_⟩
      · cases builtin <;> rfl
      · rw [values_builtin hexpressible, TypeExpr.values, TypeExpr.nameValues, hbuiltin]
  | reference hbuiltin htarget =>
      refine ⟨_, .reference hbuiltin htarget, rfl, ?_⟩
      rw [values_reference, TypeExpr.values, TypeExpr.nameValues, hbuiltin]
      simp [htarget]
  | qualified _ ih =>
      obtain ⟨schema, hschema, hlabel, hvalues⟩ := ih context
      exact ⟨schema, .qualified hschema, hlabel, by rw [hvalues, TypeExpr.values, TypeExpr.values]⟩
  | nullable _ ih =>
      obtain ⟨schema, hschema, hlabel, hvalues⟩ := ih context
      refine ⟨_, .nullable hschema, hlabel, ?_⟩
      rw [hschema.regular.values_nullable, hvalues, TypeExpr.values]
  | @union members hne hmembers hkept ih =>
      -- the members keep their meaning in the context of the union
      obtain ⟨schemas, hall⟩ := exists_schemas fun member hmember => ih member hmember context
      have hok := hall.imp fun member schema hkeeps => hkeeps.1.resolve_ok
      exact keeps_union hne hall
        (fun member hmember => (hmembers member hmember).isIdentifier_eq_false .mixed rfl)
        (hkept context schemas hok)
  | arrayOf _ ih =>
      obtain ⟨schema, hschema, -, hvalues⟩ := ih (context ++ ": items")
      exact ⟨_, .arrayOf hschema, rfl, by rw [values_list, hvalues, TypeExpr.values]⟩
  | @emptyList name element hname hempty =>
      refine ⟨_, .emptyList hname hempty, rfl, ?_⟩
      rw [values_emptyList, TypeExpr.values, TypeExpr.values_empty hempty, listsOf_empty]
  | list hname hexpressible ih =>
      obtain ⟨schema, hschema, -, hvalues⟩ := ih context
      refine ⟨_, .list hname ?_ hschema, rfl, ?_⟩
      · exact hexpressible.isIdentifier_eq_false .empty rfl
      · rw [values_list, hvalues, TypeExpr.values]
  | map _ ih =>
      obtain ⟨schema, hschema, -, hvalues⟩ := ih (context ++ ": additionalProperties")
      refine ⟨_, .map hschema, rfl, ?_⟩
      rw [values_map, hvalues, TypeExpr.values, if_neg (by decide)]
  | range =>
      refine ⟨_, .range, rfl, ?_⟩
      rw [values_range, TypeExpr.values, if_pos rfl]
  | @shape fields hkeys _ ih =>
      obtain ⟨schemas, hall⟩ := exists_schemas fun field hfield => ih field hfield context
      obtain ⟨hlength, hzip⟩ := forall_zip_of_forall₂ hall
      refine ⟨_, .shape hlength fun pair hpair => (hzip pair hpair).1, rfl, ?_⟩
      have hfields : (fields.zip schemas).map Prod.fst = fields :=
        List.map_fst_zip (Nat.le_of_eq hlength)
      rw [values_shape hkeys hlength, TypeExpr.values, TypeExpr.fieldValues_eq]
      -- field by field, the schema describes what the type denotes
      conv_rhs => rw [← hfields, List.map_map]
      refine congrArg recordsOf (List.map_congr_left fun pair hpair => ?_)
      simp [(hzip pair hpair).2.2]
  | @text text hne =>
      refine ⟨_, .literal rfl, ofTextLiterals_description context _, ?_⟩
      ext value
      rw [mem_ofTextLiterals_iff (List.cons_ne_nil _ _), TypeExpr.values]
      simp [hne.symm]
  | @int number =>
      refine ⟨_, .literal rfl, rfl, ?_⟩
      ext value
      rw [mem_ofIntLiterals_iff (List.cons_ne_nil _ _), TypeExpr.values]
      simp

/-- **Resolution preserves meaning.** Every expressible expression, with a description or without,
has a schema in every context, and the schema describes what the expression denotes. -/
theorem resolve_preserves_values {expr : TypeExpr} (h : Expressible r refs expr) (context : Text) :
    (∃ schema, (r.resolve context expr).outcome = .ok schema ∧
        schema.values refs = expr.values r refs) ∧
      ∀ description, ∃ schema,
        (r.resolve context (.described expr description)).outcome = .ok schema ∧
          schema.values refs = (TypeExpr.described expr description).values r refs := by
  obtain ⟨schema, hschema, -, hvalues⟩ := h.exists_keeps context
  refine ⟨⟨schema, hschema.resolve_ok, hvalues⟩, fun description => ?_⟩
  refine ⟨_, (Resolves.described hschema).resolve_ok, ?_⟩
  rw [TypeExpr.values, ← hvalues]
  obtain ⟨⟩ := schema
  rfl

/-- A shape whose fields are made of a listed integer beside all integers and null, and of a list of
texts. -/
theorem preserves_values_of_shape :
    let expr : TypeExpr := .shape
      [⟨"id", .union [.literal (.int 5), .identifier "int", .identifier "null"], false⟩,
        ⟨"tags", .generic "list" [.literal (.str "on")], true⟩]
    ∃ schema, (({} : Resolver).resolve "$" expr).outcome = .ok schema ∧
      schema.values (fun _ => ∅) = expr.values {} fun _ => ∅ := by
  intro expr
  have hint : Expressible {} (fun _ => ∅) (.identifier "int") := .builtin rfl rfl
  have hnull : Expressible {} (fun _ => ∅) (.identifier "null") := .builtin rfl rfl
  have hid : Expressible {} (fun _ => ∅)
      (.union [.literal (.int 5), .identifier "int", .identifier "null"]) := by
    refine .union (List.cons_ne_nil _ _) (by simp [Expressible.int, hint, hnull]) ?_
    intro context schemas hall
    have hmembers : ResolvesAll {} context
        [.literal (.int 5), .identifier "int", .identifier "null"]
        [ofIntLiterals context [5], { int64 with context }, { context, nullable := true }] :=
      .cons rfl (.cons rfl (.cons rfl .nil))
    obtain rfl := hmembers.unique hall
    exact not_displaced_of_unbounded (regular_of_forall₂ hall)
      (by simp [ListsIntegers, IsIntegerRange, ofIntLiterals, int64])
  have htags : Expressible {} (fun _ => ∅) (.generic "list" [.literal (.str "on")]) :=
    .list (.inr rfl) (.text (by decide))
  have hexpr : Expressible {} (fun _ => ∅) expr := .shape (by decide) (by simp [hid, htags])
  exact (resolve_preserves_values hexpr "$").1

end Resolver

end Schemata
