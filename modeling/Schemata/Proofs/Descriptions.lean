import Schemata.Proofs.Levels
import Schemata.Proofs.Words

/-!
# Descriptions

What a description says is written with the blanks that it needs: as its words, with one space between
neighbours. Whether there is something to say is asked before, of the text as it is given. So an empty
description is left out, but one of nothing but blanks is written as an empty one
(`Resolver.blank_description_is_written`); `Schema.descriptions_are_neat` says that nothing else goes
wrong, at any level.
-/

namespace Schemata

namespace Schema

theorem field?_description (schema : Schema) :
    schema.toJson.field? "description" = (normalDescription schema.description).map Json.str := by
  rw [field?_toJson, ← descriptionKeyword_eq]
  simp [keywordTable, Fields.get?]

/-- A description is normalised if there is one and it is not empty. -/
theorem normalDescription_eq_some_iff {description : Option Text} {written : Text} :
    normalDescription description = some written ↔
      ∃ text, description = some text ∧ text ≠ [] ∧ text.normalizeSpace = written := by
  simp [normalDescription, Option.filter_eq_some_iff, and_assoc]

/-- **A description is written neatly.** At every level of the object of a schema there is a description
exactly if the schema there has one that is not empty. It has no blank at either end and no blanks but
single spaces, and it is empty exactly if the one of the schema is blank. So there is a description exactly
if that of the schema has something in it that is no blank, unless it is blank without being empty. -/
theorem descriptions_are_neat (schema : Schema) (path : List Slot) {part : Schema}
    (h : schema.at? path = some part) :
    ∃ object, (schema.serialize false).at? path = some object ∧
      ((object.field? "description").isSome = true ↔
        ∃ text, part.description = some text ∧ text ≠ []) ∧
      (∀ value, object.field? "description" = some value →
        ∃ text written, part.description = some text ∧ value = .str written ∧ written.IsNeat ∧
          (written = [] ↔ text.IsBlank)) ∧
      ((∀ text, part.description = some text → text.IsBlank → text = []) ↔
        ((object.field? "description").isSome = true ↔
          ∃ text, part.description = some text ∧ ¬ text.IsBlank)) := by
  have hlevel : (schema.serialize false).at? path = some (part.serialize false) :=
    (at?_toJson schema path).trans (congrArg (Option.map toJson) h)
  have hfield : (part.serialize false).field? "description" =
      (normalDescription part.description).map Json.str := field?_description part
  have hwritten : ((part.serialize false).field? "description").isSome = true ↔
      ∃ text, part.description = some text ∧ text ≠ [] := by
    rw [hfield, Option.isSome_map, Option.isSome_iff_exists]
    simp only [normalDescription_eq_some_iff]
    exact ⟨fun ⟨_, text, hsome, hne, _⟩ => ⟨text, hsome, hne⟩,
      fun ⟨text, hsome, hne⟩ => ⟨_, text, hsome, hne, rfl⟩⟩
  refine ⟨_, hlevel, hwritten, fun value hvalue => ?_, ?_⟩
  · rw [hfield] at hvalue
    obtain ⟨written, hnormal, rfl⟩ := Option.map_eq_some_iff.mp hvalue
    obtain ⟨text, hsome, -, rfl⟩ := normalDescription_eq_some_iff.mp hnormal
    exact ⟨text, _, hsome, rfl, Text.isNeat_normalizeSpace text, Text.normalizeSpace_eq_nil_iff⟩
  · rw [hwritten]
    cases hdescription : part.description with
    | none => simp
    | some text =>
        -- an empty text is blank, so only one direction can fail
        have hempty : text = [] → text.IsBlank := by
          rintro rfl
          nofun
        simp only [Option.some.injEq, exists_eq_left', forall_eq', Ne, not_iff_not]
        exact ⟨fun hblank => ⟨hempty, hblank⟩, fun hboth => hboth.mpr⟩

/-- The elements of a list are described in two lines, and the description is written in one. -/
theorem description_of_elements_is_neat :
    let element : Schema := { type := some "string", description := some "the\n  name " }
    let list : Schema := { type := some "array", items := some element }
    list.at? [.items] = some element ∧
      ∃ object, (list.serialize false).at? [.items] = some object ∧
        object.field? "description" = some (.str "the name") ∧ Text.IsNeat "the name" := by
  intro element list
  have hpart : list.at? [.items] = some element := rfl
  obtain ⟨object, hobject, -, hneat, -⟩ := descriptions_are_neat list [.items] hpart
  have hlevel : (list.serialize false).at? [.items] = some (element.serialize false) :=
    at?_toJson list [.items]
  obtain rfl : element.serialize false = object := Option.some.inj (hlevel.symm.trans hobject)
  have hvalue : (element.serialize false).field? "description" = some (.str "the name") := rfl
  obtain ⟨text, written, -, hwritten, hisNeat, -⟩ := hneat _ hvalue
  obtain rfl : _ = written := Json.str.inj hwritten
  exact ⟨hpart, _, hobject, hvalue, hisNeat⟩

end Schema

namespace Resolver

open Schema

/-- A parameter is described by nothing but blanks, and an empty description is written. -/
theorem blank_description_is_written :
    ∃ schema, (({} : Resolver).resolve "$" (.described (.identifier "string") " \n ")).outcome =
        .ok schema ∧
      schema.description = some (" \n " : Text) ∧ Text.IsBlank " \n " ∧
      (schema.serialize false).field? "description" = some (.str []) := by
  refine ⟨_, rfl, rfl, ?_, rfl⟩
  exact Text.normalizeSpace_eq_nil_iff.mp rfl

end Resolver

end Schemata
