import Schemata.Proofs.Combination

/-!
# Rewriting schemas

Resolution copies two things into a schema that it never looks into: the contexts, and the texts of the
references. `Schema.rewrite` puts others in their place, all over a tree.

* **one layer** — what is rewritten agrees with the schema in every other field, with rewritten children
  (`Schema.rewrite_eq`);
* **sameness** — rewriting neither makes schemas the same nor keeps them from being the same, if it takes
  different references to different references (`Schema.same_rewrite_iff`);
* **combining** — which members of a union or an intersection are repeated, which enums are merged and
  which form the result has is decided by what is the same as what and by types. So rewritten members are
  combined to the rewritten schema (`Schema.combine_rewrite`).
-/

namespace Schemata

open List (Forall₂)

/-! ## Fields and options -/

/-- The same is said about unlisted keys, with another schema. -/
def Additional.map {α β : Type} (f : α → β) : Additional α → Additional β
  | .allowed value => .allowed value
  | .schema value => .schema (f value)

theorem Additional.rel_map_iff {α β : Type} {R : β → β → Prop} {f f' : α → β}
    {left right : Additional α} :
    Additional.Rel R (left.map f) (right.map f') ↔
      Additional.Rel (fun a b => R (f a) (f' b)) left right := by
  constructor
  · intro h
    cases left <;> cases right <;> cases h
    · exact .allowed _
    · next h => exact .schema h
  · intro h
    cases h with
    | allowed value => exact .allowed value
    | schema h => exact .schema h

theorem option_rel_map_iff {α β γ δ : Type} {R : γ → δ → Prop} {f : α → γ} {g : β → δ}
    {left : Option α} {right : Option β} :
    Option.Rel R (left.map f) (right.map g) ↔ Option.Rel (fun a b => R (f a) (g b)) left right := by
  cases left <;> cases right <;> simp

namespace Fields

variable {α β : Type}

theorem valuesOf_map (f : α → β) (fields : Fields α) (name : Text) :
    valuesOf (fields.map fun field => (field.1, f field.2)) name =
      (valuesOf fields name).map f := by
  induction fields with
  | nil => rfl
  | cons field rest ih =>
      rw [List.map_cons, valuesOf_cons, valuesOf_cons, ih]
      split <;> simp

theorem insert_map (f : α → β) (fields : Fields α) (key : Text) (value : α) :
    insert (fields.map fun field => (field.1, f field.2)) key (f value) =
      (insert fields key value).map fun field => (field.1, f field.2) := by
  induction fields with
  | nil => rfl
  | cons field rest ih =>
      rw [List.map_cons, insert, insert, ih]
      split <;> rfl

theorem ofList_map (f : α → β) (pairs : List (Text × α)) :
    ofList (pairs.map fun pair => (pair.1, f pair.2)) =
      (ofList pairs).map fun field => (field.1, f field.2) := by
  have hfold : ∀ known : Fields α,
      (pairs.map fun pair => (pair.1, f pair.2)).foldl
          (fun fields pair => insert fields pair.1 pair.2)
          (known.map fun field => (field.1, f field.2)) =
        (pairs.foldl (fun fields pair => insert fields pair.1 pair.2) known).map
          fun field => (field.1, f field.2) := by
    intro known
    induction pairs generalizing known with
    | nil => rfl
    | cons pair pairs ih =>
        rw [List.map_cons, List.foldl_cons, List.foldl_cons, ← ih, insert_map]
  exact hfold []

theorem matches_map_iff {R : β → β → Prop} {f f' : α → β} {left right : Fields α} :
    Matches R (left.map fun field => (field.1, f field.2))
        (right.map fun field => (field.1, f' field.2)) ↔
      Matches (fun a b => R (f a) (f' b)) left right := by
  refine forall_congr' fun name => ?_
  rw [valuesOf_map, valuesOf_map, List.forall₂_map_left_iff, List.forall₂_map_right_iff]

end Fields

namespace Schema

/-! ## Rewriting -/

mutual

/-- The schema with another context for every context in it, and with another reference for every
reference. -/
def rewrite (f g : Text → Text) : Schema → Schema
  | { context, ref, type, format, nullable, hasDefault, defaultValue, items, properties, oneOf,
      anyOf, allOf, additional, required, description, minLength, maxLength, minimum, maximum,
      minItems, maxItems, enum } =>
    { context := f context, ref := ref.map g, type, format, nullable, hasDefault, defaultValue,
      items := rewriteItem f g items,
      properties := rewriteProperties f g properties,
      oneOf := rewriteMembers f g oneOf,
      anyOf := rewriteMembers f g anyOf,
      allOf := rewriteMembers f g allOf,
      additional := rewriteAdditional f g additional,
      required, description, minLength, maxLength, minimum, maximum, minItems, maxItems, enum }
termination_by structural schema => schema

/-- The items of a list, rewritten. -/
def rewriteItem (f g : Text → Text) : Option Schema → Option Schema
  | some schema => some (rewrite f g schema)
  | none => none
termination_by structural item => item

/-- The properties of an object, rewritten. -/
def rewriteProperties (f g : Text → Text) :
    Option (List (Text × Schema)) → Option (List (Text × Schema))
  | some properties => some (rewriteNamed f g properties)
  | none => none
termination_by structural properties => properties

/-- Schemas by name, rewritten. -/
def rewriteNamed (f g : Text → Text) : List (Text × Schema) → List (Text × Schema)
  | [] => []
  | (name, schema) :: rest => (name, rewrite f g schema) :: rewriteNamed f g rest
termination_by structural properties => properties

/-- What is said about unlisted keys, rewritten. -/
def rewriteAdditional (f g : Text → Text) :
    Option (Additional Schema) → Option (Additional Schema)
  | some (.schema schema) => some (.schema (rewrite f g schema))
  | some (.allowed value) => some (.allowed value)
  | none => none
termination_by structural additional => additional

/-- The members of a combination, rewritten. -/
def rewriteMembers (f g : Text → Text) : Option (List Schema) → Option (List Schema)
  | some members => some (rewriteList f g members)
  | none => none
termination_by structural members => members

/-- Schemas in order, rewritten. -/
def rewriteList (f g : Text → Text) : List Schema → List Schema
  | [] => []
  | schema :: rest => rewrite f g schema :: rewriteList f g rest
termination_by structural members => members

end

variable (f g : Text → Text)

theorem rewriteList_eq (members : List Schema) :
    rewriteList f g members = members.map (rewrite f g) := by
  induction members with
  | nil => rfl
  | cons member rest ih => rw [rewriteList, ih, List.map_cons]

theorem rewriteNamed_eq (properties : Fields Schema) :
    rewriteNamed f g properties =
      properties.map fun property => (property.1, property.2.rewrite f g) := by
  induction properties with
  | nil => rfl
  | cons property rest ih => rw [rewriteNamed, ih, List.map_cons]

/-- **Rewriting, one layer.** -/
theorem rewrite_eq (schema : Schema) :
    schema.rewrite f g =
      { schema with
        context := f schema.context
        ref := schema.ref.map g
        items := schema.items.map (rewrite f g)
        properties := schema.properties.map (List.map fun property =>
          (property.1, property.2.rewrite f g))
        oneOf := schema.oneOf.map (List.map (rewrite f g))
        anyOf := schema.anyOf.map (List.map (rewrite f g))
        allOf := schema.allOf.map (List.map (rewrite f g))
        additional := schema.additional.map (Additional.map (rewrite f g)) } := by
  have hitem : ∀ item, rewriteItem f g item = item.map (rewrite f g) := by
    rintro (_ | _) <;> rfl
  have hproperties : ∀ properties, rewriteProperties f g properties =
      properties.map (List.map fun property => (property.1, property.2.rewrite f g)) := by
    rintro (_ | properties)
    · rfl
    · rw [rewriteProperties, rewriteNamed_eq, Option.map_some]
  have hmembers : ∀ members, rewriteMembers f g members = members.map (List.map (rewrite f g)) := by
    rintro (_ | members)
    · rfl
    · rw [rewriteMembers, rewriteList_eq, Option.map_some]
  have hadditional : ∀ additional, rewriteAdditional f g additional =
      additional.map (Additional.map (rewrite f g)) := by
    rintro (_ | _ | _) <;> rfl
  cases schema
  rw [rewrite, hitem, hproperties, hmembers, hmembers, hmembers, hadditional]

@[simp] theorem ref_rewrite (schema : Schema) : (schema.rewrite f g).ref = schema.ref.map g := by
  rw [rewrite_eq]

@[simp] theorem type_rewrite (schema : Schema) : (schema.rewrite f g).type = schema.type := by
  rw [rewrite_eq]

@[simp] theorem nullable_rewrite (schema : Schema) :
    (schema.rewrite f g).nullable = schema.nullable := by
  rw [rewrite_eq]

@[simp] theorem enum_rewrite (schema : Schema) : (schema.rewrite f g).enum = schema.enum := by
  rw [rewrite_eq]

theorem rewrite_withNullable (schema : Schema) (nullable : Bool) :
    { schema with nullable }.rewrite f g = { schema.rewrite f g with nullable } := by
  cases schema
  rfl

theorem rewrite_withDescription (schema : Schema) (description : Option Text) :
    { schema with description }.rewrite f g = { schema.rewrite f g with description } := by
  cases schema
  rfl

/-- The children of a schema are rewritten with it. -/
theorem children_rewrite (schema : Schema) :
    (schema.rewrite f g).children = schema.children.map (rewrite f g) := by
  have hmembers : ∀ members : Option (List Schema),
      (members.map (List.map (rewrite f g))).getD [] = (members.getD []).map (rewrite f g) := by
    rintro (_ | _) <;> rfl
  have hproperties : ∀ properties : Option (Fields Schema),
      ((properties.map (List.map fun property => (property.1, property.2.rewrite f g))).getD []).map
        Prod.snd = ((properties.getD []).map Prod.snd).map (rewrite f g) := by
    rintro (_ | _) <;> simp
  have hitems : ∀ item : Option Schema,
      (item.map (rewrite f g)).toList = item.toList.map (rewrite f g) := by
    rintro (_ | _) <;> rfl
  rw [rewrite_eq]
  simp only [children, hitems, hproperties, hmembers, List.map_append]
  rcases schema.additional with _ | _ | _ <;> rfl

/-- A part of what is rewritten is a part, rewritten. -/
theorem exists_part_of_rewrite {part schema : Schema} (h : Subtree part (schema.rewrite f g)) :
    ∃ original, Subtree original schema ∧ part = original.rewrite f g := by
  generalize htree : schema.rewrite f g = tree at h
  induction h generalizing schema with
  | refl => exact ⟨schema, .refl schema, htree.symm⟩
  | child hchild _ ih =>
      subst htree
      rw [children_rewrite] at hchild
      obtain ⟨child, hmem, rfl⟩ := List.mem_map.mp hchild
      obtain ⟨original, hpart, heq⟩ := ih rfl
      exact ⟨original, .child hmem hpart, heq⟩

variable {f g}

/-- **Only rewriting does to each layer what rewriting does.** -/
theorem eq_rewrite_of_layers (move : Schema → Schema)
    (h : ∀ schema : Schema, move schema =
      { schema with
        context := f schema.context
        ref := schema.ref.map g
        items := schema.items.map move
        properties := schema.properties.map (List.map fun property =>
          (property.1, move property.2))
        oneOf := schema.oneOf.map (List.map move)
        anyOf := schema.anyOf.map (List.map move)
        allOf := schema.allOf.map (List.map move)
        additional := schema.additional.map (Additional.map move) })
    (schema : Schema) : move schema = schema.rewrite f g := by
  induction schema using Schema.ind with
  | node schema ih =>
      have heach : schema.EachChild fun child => move child = child.rewrite f g :=
        eachChild_of_forall ih
      have hmembers : ∀ members : Option (List Schema),
          (∀ list ∈ members, ∀ member ∈ list, move member = member.rewrite f g) →
            members.map (List.map move) = members.map (List.map (rewrite f g)) :=
        fun members hall => Option.map_congr fun list hlist => List.map_congr_left (hall list hlist)
      have hitems : schema.items.map move = schema.items.map (rewrite f g) :=
        Option.map_congr heach.items
      have hproperties : schema.properties.map (List.map fun property =>
            (property.1, move property.2)) =
          schema.properties.map (List.map fun property => (property.1, property.2.rewrite f g)) :=
        Option.map_congr fun properties hproperties => List.map_congr_left fun property hproperty =>
          congrArg (property.1, ·) (heach.properties properties hproperties property hproperty)
      have hadditional : schema.additional.map (Additional.map move) =
          schema.additional.map (Additional.map (rewrite f g)) := by
        rcases hvalues : schema.additional with _ | value | child
        · rfl
        · rfl
        · exact congrArg (some ∘ Additional.schema) (heach.additional child hvalues)
      rw [h, rewrite_eq, hitems, hproperties, hmembers _ heach.oneOf, hmembers _ heach.anyOf,
        hmembers _ heach.allOf, hadditional]

/-- Rewriting twice is rewriting once. -/
theorem rewrite_rewrite (f' g' : Text → Text) (schema : Schema) :
    (schema.rewrite f g).rewrite f' g' = schema.rewrite (f' ∘ f) (g' ∘ g) := by
  refine eq_rewrite_of_layers (fun schema => (schema.rewrite f g).rewrite f' g')
    (fun schema => ?_) schema
  have hadditional : ∀ additional : Additional Schema,
      (additional.map (rewrite f g)).map (rewrite f' g') =
        additional.map fun schema => (schema.rewrite f g).rewrite f' g' := by
    rintro (_ | _) <;> rfl
  show (schema.rewrite f g).rewrite f' g' = _
  rw [rewrite_eq f' g' (schema.rewrite f g), rewrite_eq f g schema]
  simp only [Option.map_map, Function.comp_def, List.map_map, hadditional]

theorem rewrite_id (schema : Schema) : schema.rewrite id id = schema := by
  have hadditional : (Additional.map id : Additional Schema → Additional Schema) = id := by
    funext additional
    cases additional <;> rfl
  refine (eq_rewrite_of_layers id (fun schema => ?_) schema).symm
  simp only [id_eq, Option.map_id, List.map_id_fun', List.map_id_fun, hadditional]
  cases schema
  rfl

/-! ## Sameness -/

/-- Rewritten roots agree if the roots do. -/
theorem sameNode_rewrite_iff {R : Schema → Schema → Prop} {f' : Text → Text}
    (hg : Function.Injective g) {left right : Schema} :
    SameNode R (left.rewrite f g) (right.rewrite f' g) ↔
      SameNode (fun a b => R (a.rewrite f g) (b.rewrite f' g)) left right := by
  have hmembers : ∀ {lefts rights : Option (List Schema)},
      Option.Rel (Forall₂ R) (lefts.map (List.map (rewrite f g)))
          (rights.map (List.map (rewrite f' g))) ↔
        Option.Rel (Forall₂ fun a b => R (a.rewrite f g) (b.rewrite f' g)) lefts rights := by
    simp [option_rel_map_iff]
  have hproperties : ∀ {lefts rights : Option (Fields Schema)},
      Option.Rel (Fields.Matches R)
          (lefts.map (List.map fun field => (field.1, field.2.rewrite f g)))
          (rights.map (List.map fun field => (field.1, field.2.rewrite f' g))) ↔
        Option.Rel (Fields.Matches fun a b => R (a.rewrite f g) (b.rewrite f' g)) lefts rights := by
    simp [option_rel_map_iff, Fields.matches_map_iff]
  have hadditional : ∀ {lefts rights : Option (Additional Schema)},
      Option.Rel (Additional.Rel R) (lefts.map (Additional.map (rewrite f g)))
          (rights.map (Additional.map (rewrite f' g))) ↔
        Option.Rel (Additional.Rel fun a b => R (a.rewrite f g) (b.rewrite f' g)) lefts rights := by
    simp [option_rel_map_iff, Additional.rel_map_iff]
  rw [rewrite_eq, rewrite_eq]
  constructor
  · intro h
    exact { h with
      ref := Option.map_injective hg h.ref
      items := option_rel_map_iff.mp h.items
      properties := hproperties.mp h.properties
      oneOf := hmembers.mp h.oneOf
      anyOf := hmembers.mp h.anyOf
      allOf := hmembers.mp h.allOf
      additional := hadditional.mp h.additional }
  · intro h
    exact { h with
      ref := congrArg (Option.map g) h.ref
      items := option_rel_map_iff.mpr h.items
      properties := hproperties.mpr h.properties
      oneOf := hmembers.mpr h.oneOf
      anyOf := hmembers.mpr h.anyOf
      allOf := hmembers.mpr h.allOf
      additional := hadditional.mpr h.additional }

/-- **Rewritten schemas are the same if the schemas are**, whatever their contexts, if different
references are taken to different references. -/
theorem same_rewrite_iff {f' : Text → Text} (hg : Function.Injective g) {left right : Schema} :
    Same (left.rewrite f g) (right.rewrite f' g) ↔ Same left right := by
  induction left using Schema.ind generalizing right with
  | node left ih =>
      rw [same_iff, sameNode_rewrite_iff hg, same_iff]
      constructor
      · exact SameNode.imp_of_mem fun child hchild _ => (ih child hchild).mp
      · exact SameNode.imp_of_mem fun child hchild _ => (ih child hchild).mpr

/-- A schema with other contexts is the same. -/
theorem same_rewrite_contexts (f : Text → Text) (schema : Schema) :
    Same (schema.rewrite f id) schema := by
  have hself : Same (schema.rewrite f id) (schema.rewrite id id) :=
    (same_rewrite_iff Function.injective_id).mpr (same_equivalentAt schema).refl
  rwa [rewrite_id] at hself

/-- What is rewritten is empty if the schema is. -/
theorem same_rewrite_empty_iff (hg : Function.Injective g) {schema : Schema} :
    Same (schema.rewrite f g) {} ↔ Same schema {} := by
  show Same (schema.rewrite f g) (({} : Schema).rewrite id g) ↔ Same schema {}
  exact same_rewrite_iff hg

/-! ## Combining rewritten members -/

section Combining

variable (f) (hg : Function.Injective g)

include hg

theorem same_rewrite (left right : Schema) :
    (left.rewrite f g).same (right.rewrite f g) = left.same right :=
  Bool.eq_iff_iff.mpr (same_rewrite_iff hg)

theorem deduplicate_rewrite (members : List Schema) :
    deduplicate (members.map (rewrite f g)) = (deduplicate members).map (rewrite f g) := by
  induction members with
  | nil => rfl
  | cons member members ih =>
      rw [List.map_cons, deduplicate_cons, deduplicate_cons, ih, List.map_cons, List.filter_map]
      refine congrArg _ (congrArg _ (List.filter_congr fun other _ => ?_))
      simp [isNew, same_rewrite f hg]

omit hg

theorem openTypes_rewrite (members : List Schema) :
    openTypes (members.map (rewrite f g)) = openTypes members := by
  simp [openTypes, enumTypes, List.filter_map, Function.comp_def]

theorem pool_rewrite (type : Option Text) (members : List Schema) :
    pool type (members.map (rewrite f g)) = pool type members := by
  have hliterals : ∀ member : Schema,
      literalsOf type (member.rewrite f g) = literalsOf type member := by
    simp [literalsOf]
  simp [pool, List.flatMap_map, hliterals]

theorem mergeEnums_rewrite (context : Text) (members : List Schema) :
    mergeEnums (f context) (members.map (rewrite f g)) =
      (mergeEnums context members).map (rewrite f g) := by
  have hpooled : ∀ type, pooled (f context) (members.map (rewrite f g)) type =
      (pooled context members type).rewrite f g := by
    intro type
    rw [pooled, pool_rewrite]
    rfl
  rw [mergeEnums_eq, mergeEnums_eq, List.map_append, List.map_map, openTypes_rewrite,
    List.filter_map]
  congr 1
  · simp [Function.comp_def]
  · exact List.map_congr_left fun type _ => hpooled type

theorem areDistinguished_rewrite (members : List Schema) :
    areDistinguished (members.map (rewrite f g)) = areDistinguished members := by
  have htypeName : ∀ schema : Schema, (schema.rewrite f g).typeName = schema.typeName := by
    intro schema
    rw [typeName, type_rewrite, typeName]
  simp [areDistinguished, htypeName, List.all_map, Function.comp_def]

include hg

/-- **Rewritten members are combined to the rewritten schema.** -/
theorem combine_rewrite (context : Text) (members : List Schema) (nullable : Bool)
    (junction : Junction) :
    combine (f context) (members.map (rewrite f g)) nullable junction =
      (combine context members nullable junction).rewrite f g := by
  rw [combine, combine, deduplicate_rewrite f hg, mergeEnums_rewrite]
  generalize hmerged : mergeEnums context (deduplicate members) = merged
  have hdistinguished := areDistinguished_rewrite (g := g) f merged
  -- the cases of the match in the definition
  rcases merged with _ | ⟨first, _ | ⟨second, rest⟩⟩
  · rfl
  · simp only [List.map_cons, List.map_nil, rewrite_withNullable]
  · cases junction with
    | intersection =>
        exact (rewrite_eq f g { context, nullable, allOf := some (first :: second :: rest) }).symm
    | union =>
        cases htold : areDistinguished (first :: second :: rest) with
        | true =>
            simp only [List.map_cons] at hdistinguished ⊢
            rw [hdistinguished, htold, if_pos rfl, if_pos rfl]
            exact
              (rewrite_eq f g { context, nullable, oneOf := some (first :: second :: rest) }).symm
        | false =>
            simp only [List.map_cons] at hdistinguished ⊢
            rw [hdistinguished, htold, if_neg Bool.false_ne_true, if_neg Bool.false_ne_true]
            exact
              (rewrite_eq f g { context, nullable, anyOf := some (first :: second :: rest) }).symm

end Combining

end Schema

end Schemata
