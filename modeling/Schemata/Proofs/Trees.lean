import Schemata.Resolve.Basic

/-!
# Induction over values, schemas and expressions

JSON values, schemas and type expressions are trees whose nodes hold lists and options of trees.
This module has what a proof about all of them starts with:

* **induction** — `Json.ind`, `Schema.ind` and `TypeExpr.ind` give the hypothesis for every member of
  a list, so that `induction` works as on a plain inductive type;
* **parts** — a JSON value and all that is inside of it (`Json.IsPart`);
* **children** — the schemas directly inside a schema, whichever field holds them
  (`Schema.children`);
* **subtrees** — a schema and all that is inside of it (`Schema.Subtree`). What holds throughout a
  schema holds of its root and throughout its children (`Schema.throughout_iff`).
-/

namespace Schemata

/-- Induction over JSON values. -/
@[elab_as_elim, induction_eliminator]
theorem Json.ind {motive : Json → Prop} (null : motive .null)
    (bool : ∀ value, motive (.bool value)) (int : ∀ value, motive (.int value))
    (float : ∀ value, motive (.float value)) (str : ∀ text, motive (.str text))
    (arr : ∀ items, (∀ item ∈ items, motive item) → motive (.arr items))
    (obj : ∀ fields, (∀ field ∈ fields, motive field.2) → motive (.obj fields)) :
    ∀ value, motive value := by
  intro value
  -- of a list, or of fields, the motive holds member by member
  refine Json.rec (motive_1 := motive) (motive_2 := fun items => ∀ item ∈ items, motive item)
    (motive_3 := fun fields => ∀ field ∈ fields, motive field.2)
    (motive_4 := fun field => motive field.2) null bool int float str arr obj ?_ ?_ ?_ ?_ ?_ value
  · exact fun _ h => absurd h List.not_mem_nil
  · exact fun _ _ head tail => List.forall_mem_cons.mpr ⟨head, tail⟩
  · exact fun _ h => absurd h List.not_mem_nil
  · exact fun _ _ head tail => List.forall_mem_cons.mpr ⟨head, tail⟩
  · exact fun _ _ h => h

/-- Induction over type expressions. -/
@[elab_as_elim, induction_eliminator]
theorem TypeExpr.ind {motive : TypeExpr → Prop} (identifier : ∀ name, motive (.identifier name))
    (qualified : ∀ parts, motive (.qualified parts))
    (nullable : ∀ inner, motive inner → motive (.nullable inner))
    (union : ∀ members, (∀ member ∈ members, motive member) → motive (.union members))
    (intersection : ∀ members, (∀ member ∈ members, motive member) → motive (.intersection members))
    (arrayOf : ∀ element, motive element → motive (.arrayOf element))
    (generic : ∀ name args, (∀ arg ∈ args, motive arg) → motive (.generic name args))
    (shape : ∀ fields, (∀ field ∈ fields, motive field.type) → motive (.shape fields))
    (literal : ∀ value, motive (.literal value))
    (described : ∀ inner description, motive inner → motive (.described inner description)) :
    ∀ expr, motive expr := by
  intro expr
  refine TypeExpr.rec (motive_1 := motive) (motive_2 := fun exprs => ∀ expr ∈ exprs, motive expr)
    (motive_3 := fun fields => ∀ field ∈ fields, motive field.type)
    (motive_4 := fun field => motive field.type) identifier qualified nullable union intersection
    arrayOf generic shape literal described ?_ ?_ ?_ ?_ ?_ expr
  · exact fun _ h => absurd h List.not_mem_nil
  · exact fun _ _ head tail => List.forall_mem_cons.mpr ⟨head, tail⟩
  · exact fun _ h => absurd h List.not_mem_nil
  · exact fun _ _ head tail => List.forall_mem_cons.mpr ⟨head, tail⟩
  · exact fun _ _ _ h => h

theorem Fields.mem_of_get? {α : Type} {fields : Fields α} {name : Text} {value : α}
    (h : get? fields name = some value) : (name, value) ∈ fields := by
  induction fields with
  | nil => cases h
  | cons field rest ih =>
      obtain ⟨known, first⟩ := field
      by_cases hname : known = name
      · rw [get?, if_pos hname] at h
        rw [hname, Option.some.inj h]
        exact List.mem_cons_self
      · rw [get?, if_neg hname] at h
        exact List.mem_cons_of_mem _ (ih h)

namespace Json

/-- A value is a part of itself, and the parts of what a list or an object holds are parts of it. -/
inductive IsPart : Json → Json → Prop
  | refl (value : Json) : IsPart value value
  | item {part item : Json} {items : List Json} : item ∈ items → IsPart part item →
      IsPart part (.arr items)
  | field {part : Json} {field : Text × Json} {fields : Fields Json} : field ∈ fields →
      IsPart part field.2 → IsPart part (.obj fields)

theorem IsPart.trans {part middle whole : Json} (h : IsPart part middle) (hmiddle : IsPart middle whole) :
    IsPart part whole := by
  induction hmiddle with
  | refl => exact h
  | item hitem _ ih => exact .item hitem ih
  | field hfield _ ih => exact .field hfield ih

/-- What a field holds is a part of it. -/
theorem isPart_of_field? {name : Text} {value whole : Json} (h : whole.field? name = some value) :
    IsPart value whole := by
  cases whole with
  | obj fields => exact .field (Fields.mem_of_get? h) (.refl value)
  | _ => cases h

end Json

namespace Schema

/-- The schemas directly inside a schema. -/
def children (schema : Schema) : List Schema :=
  schema.items.toList ++ (schema.properties.getD []).map Prod.snd ++ schema.oneOf.getD [] ++
    schema.anyOf.getD [] ++ schema.allOf.getD [] ++
    match schema.additional with
    | some (.schema values) => [values]
    | _ => []

/-- A child is held by one of six fields. -/
theorem mem_children {schema child : Schema} :
    child ∈ schema.children ↔
      schema.items = some child ∨
        (∃ properties ∈ schema.properties, ∃ property ∈ properties, property.2 = child) ∨
        (∃ members ∈ schema.oneOf, child ∈ members) ∨
        (∃ members ∈ schema.anyOf, child ∈ members) ∨
        (∃ members ∈ schema.allOf, child ∈ members) ∨
        schema.additional = some (.schema child) := by
  have hproperties : child ∈ (schema.properties.getD []).map Prod.snd ↔
      ∃ properties ∈ schema.properties, ∃ property ∈ properties, property.2 = child := by
    cases schema.properties <;> simp
  have hmembers : ∀ members : Option (List Schema),
      child ∈ members.getD [] ↔ ∃ list ∈ members, child ∈ list := by
    intro members
    cases members <;> simp
  have hadditional : (child ∈ match schema.additional with
      | some (.schema values) => [values]
      | _ => []) ↔ schema.additional = some (.schema child) := by
    split
    · next values h => simp [h, eq_comm]
    · next h => simpa using fun heq => h child heq
  simp only [children, List.mem_append, hproperties, hmembers, hadditional, Option.mem_toList,
    Option.mem_def, or_assoc]

/-- Something holds of what each of the six fields holds. -/
structure EachChild (P : Schema → Prop) (schema : Schema) : Prop where
  items : ∀ child ∈ schema.items, P child
  properties : ∀ properties ∈ schema.properties, ∀ property ∈ properties, P property.2
  oneOf : ∀ members ∈ schema.oneOf, ∀ member ∈ members, P member
  anyOf : ∀ members ∈ schema.anyOf, ∀ member ∈ members, P member
  allOf : ∀ members ∈ schema.allOf, ∀ member ∈ members, P member
  additional : ∀ child, schema.additional = some (.schema child) → P child

/-- What holds of every child holds field by field. -/
theorem eachChild_of_forall {P : Schema → Prop} {schema : Schema}
    (h : ∀ child ∈ schema.children, P child) : schema.EachChild P := by
  constructor
  case items =>
    intro child hchild
    exact h child (mem_children.mpr (.inl hchild))
  case properties =>
    intro list hlist property hproperty
    exact h property.2 (mem_children.mpr (.inr (.inl ⟨list, hlist, property, hproperty, rfl⟩)))
  case oneOf =>
    intro list hlist member hmember
    exact h member (mem_children.mpr (.inr (.inr (.inl ⟨list, hlist, hmember⟩))))
  case anyOf =>
    intro list hlist member hmember
    exact h member (mem_children.mpr (.inr (.inr (.inr (.inl ⟨list, hlist, hmember⟩)))))
  case allOf =>
    intro list hlist member hmember
    exact h member (mem_children.mpr (.inr (.inr (.inr (.inr (.inl ⟨list, hlist, hmember⟩))))))
  case additional =>
    intro child hchild
    exact h child (mem_children.mpr (.inr (.inr (.inr (.inr (.inr hchild))))))

/-- Induction over schemas: what holds of a schema if it holds of its children holds of all. -/
@[elab_as_elim]
theorem ind {motive : Schema → Prop}
    (node : ∀ schema : Schema, (∀ child ∈ schema.children, motive child) → motive schema) :
    ∀ schema, motive schema := by
  intro schema
  -- the motives of the optional fields speak about what they hold, if they hold anything
  refine Schema.rec (motive_1 := motive) (motive_2 := fun item => ∀ child ∈ item, motive child)
    (motive_3 := fun properties => ∀ list ∈ properties, ∀ property ∈ list, motive property.2)
    (motive_4 := fun members => ∀ list ∈ members, ∀ member ∈ list, motive member)
    (motive_5 := fun additional => ∀ child, additional = some (.schema child) → motive child)
    (motive_6 := fun properties => ∀ property ∈ properties, motive property.2)
    (motive_7 := fun members => ∀ member ∈ members, motive member)
    (motive_8 := fun additional => ∀ child, additional = .schema child → motive child)
    (motive_9 := fun property => motive property.2) ?_ ?_ ?_ ?_ ?_ ?_ ?_ ?_ ?_ ?_ ?_ ?_ ?_ ?_ ?_ ?_
    schema
  · intro _ _ _ _ _ _ _ items properties oneOf anyOf allOf additional _ _ _ _ _ _ _ _ _
      hitems hproperties honeOf hanyOf hallOf hadditional
    refine node _ fun child hchild => ?_
    rcases mem_children.mp hchild with h | ⟨list, hlist, property, hmem, rfl⟩ | ⟨list, hlist, h⟩ |
      ⟨list, hlist, h⟩ | ⟨list, hlist, h⟩ | h
    · exact hitems child h
    · exact hproperties list hlist property hmem
    · exact honeOf list hlist child h
    · exact hanyOf list hlist child h
    · exact hallOf list hlist child h
    · exact hadditional child h
  · exact fun _ h => absurd h (by simp)
  · exact fun _ h child hchild => by simpa [← Option.mem_some.mp hchild] using h
  · exact fun _ h => absurd h (by simp)
  · exact fun _ h list hlist => by simpa [← Option.mem_some.mp hlist] using h
  · exact fun _ h => absurd h (by simp)
  · exact fun _ h list hlist => by simpa [← Option.mem_some.mp hlist] using h
  · exact fun _ h => absurd h (by simp)
  · exact fun _ h child hchild => h child (Option.some.inj hchild)
  · exact fun _ h => absurd h List.not_mem_nil
  · exact fun _ _ head tail => List.forall_mem_cons.mpr ⟨head, tail⟩
  · exact fun _ h => absurd h List.not_mem_nil
  · exact fun _ _ head tail => List.forall_mem_cons.mpr ⟨head, tail⟩
  · exact fun _ _ h => absurd h (by simp)
  · exact fun _ h child hchild => Additional.schema.inj hchild ▸ h
  · exact fun _ _ h => h

/-- `Subtree part schema`: the part is the schema itself or inside of it. -/
inductive Subtree : Schema → Schema → Prop
  | refl (schema : Schema) : Subtree schema schema
  | child {part child schema : Schema} : child ∈ schema.children → Subtree part child →
      Subtree part schema

/-- What holds of every part of a schema holds of its root and of every part of its children. -/
theorem throughout_iff {P : Schema → Prop} {schema : Schema} :
    (∀ part, Subtree part schema → P part) ↔
      P schema ∧ ∀ child ∈ schema.children, ∀ part, Subtree part child → P part := by
  constructor
  · intro h
    exact ⟨h schema (.refl schema), fun child hchild part hpart => h part (.child hchild hpart)⟩
  · rintro ⟨hroot, hchildren⟩ part hpart
    cases hpart with
    | refl => exact hroot
    | child hchild hpart => exact hchildren _ hchild part hpart

end Schema

end Schemata
