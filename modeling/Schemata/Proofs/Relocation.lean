import Schemata.Proofs.Readback
import Schemata.Proofs.Rewriting

/-!
# Schemas in another place

The contexts in a schema say where its parts come from, and nothing else depends on them.
`Schema.relocate` puts another context for every context in a tree, and leaves the references alone:
one layer of it is `Schema.relocate_eq`. The tree is then the same (`Schema.same_relocate`) and is written as
the same object, in a parameter or elsewhere (`Schema.serialize_relocate`).
-/

namespace Schemata

namespace Schema

/-- The schema with another context for every context in it. -/
def relocate (f : Text → Text) : Schema → Schema := rewrite f id

variable (f : Text → Text)

theorem relocate_eq (schema : Schema) :
    schema.relocate f =
      { schema with
        context := f schema.context
        items := schema.items.map (relocate f)
        properties := schema.properties.map (List.map fun property =>
          (property.1, property.2.relocate f))
        oneOf := schema.oneOf.map (List.map (relocate f))
        anyOf := schema.anyOf.map (List.map (relocate f))
        allOf := schema.allOf.map (List.map (relocate f))
        additional := schema.additional.map (Additional.map (relocate f)) } := by
  have hlayer := rewrite_eq f id schema
  rw [Option.map_id_fun, id_eq] at hlayer
  exact hlayer

/-- Of a schema that is where it was, every part is. -/
theorem context_of_relocate_eq {part schema : Schema} (hpart : Subtree part schema)
    (h : schema.relocate f = schema) : f part.context = part.context := by
  induction hpart with
  | refl =>
      have hcontext : (part.relocate f).context = f part.context := by rw [relocate_eq]
      rw [← hcontext, h]
  | child hchild _ ih =>
      rename_i schema _
      have hchildren : schema.children.map (relocate f) = schema.children.map id := by
        rw [relocate, ← children_rewrite, ← relocate, h, List.map_id]
      exact ih (List.map_inj_left.mp hchildren _ hchild)

/-- A schema is the same wherever it is. -/
theorem same_relocate (schema : Schema) : Same (schema.relocate f) schema :=
  same_rewrite_contexts f schema

/-- A schema is written in the same way wherever it is. -/
theorem normalized_relocate (schema : Schema) :
    (schema.relocate f).normalized = schema.normalized := by
  induction schema using Schema.ind with
  | node schema ih =>
      have heach : schema.EachChild fun child => (child.relocate f).normalized = child.normalized :=
        eachChild_of_forall ih
      have hmembers : ∀ members : Option (List Schema),
          (∀ list ∈ members, ∀ member ∈ list,
              (member.relocate f).normalized = member.normalized) →
            normalizedMembers (members.map (List.map (relocate f))) =
              normalizedMembers members := by
        rintro (_ | list) h
        · rfl
        · rw [Option.map_some, normalizedMembers, normalizedMembers, normalizedList_eq,
            normalizedList_eq, List.map_map]
          exact congrArg some (List.map_congr_left (h list rfl))
      have hitem :
          normalizedItem (schema.items.map (relocate f)) = normalizedItem schema.items := by
        cases hitems : schema.items with
        | none => rfl
        | some item => exact congrArg some (heach.items item hitems)
      have hproperties : normalizedProperties (schema.properties.map (List.map fun property =>
          (property.1, property.2.relocate f))) = normalizedProperties schema.properties := by
        cases hproperties : schema.properties with
        | none => rfl
        | some properties =>
            have hnamed : normalizedNamed (properties.map fun property =>
                (property.1, property.2.relocate f)) = normalizedNamed properties := by
              rw [normalizedNamed_eq, normalizedNamed_eq, List.map_map]
              refine List.map_congr_left fun property hproperty => ?_
              exact congrArg (property.1, ·) (heach.properties _ hproperties property hproperty)
            cases properties with
            | nil => rfl
            | cons property rest => exact congrArg some hnamed
      have hadditional :
          normalizedAdditional (schema.additional.map (Additional.map (relocate f))) =
            normalizedAdditional schema.additional := by
        rcases hadditional : schema.additional with _ | value | child
        · rfl
        · rfl
        · exact congrArg (some ∘ Additional.schema) (heach.additional child hadditional)
      rw [normalized_eq, normalized_eq schema, relocate_eq]
      simp only [hitem, hproperties, hmembers _ heach.oneOf, hmembers _ heach.anyOf,
        hmembers _ heach.allOf, hadditional]

theorem asParameter_relocate (schema : Schema) :
    (schema.relocate f).asParameter = schema.asParameter.relocate f := by
  have htype : (schema.relocate f).type = schema.type := type_rewrite f id schema
  unfold asParameter
  by_cases hboolean : schema.type = some "boolean"
  · rw [if_pos hboolean, if_pos (htype.trans hboolean), relocate_eq]
    rfl
  · rw [if_neg hboolean, if_neg fun h => hboolean (htype.symm.trans h)]
    exact (rewrite_withDescription f id schema none).symm

/-- **A schema is written as one object wherever it is**, in a parameter or elsewhere. -/
theorem serialize_relocate (schema : Schema) (parameter : Bool) :
    (schema.relocate f).serialize parameter = schema.serialize parameter := by
  cases parameter with
  | false => exact writtenAlike _ _ (normalized_relocate f schema)
  | true =>
      show (schema.relocate f).asParameter.toJson = schema.asParameter.toJson
      rw [asParameter_relocate]
      exact writtenAlike _ _ (normalized_relocate f schema.asParameter)

end Schema

end Schemata
