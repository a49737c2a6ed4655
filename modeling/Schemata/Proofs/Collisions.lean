import Schemata.Proofs.FirstOccurrences
import Schemata.Proofs.References

/-!
# Names with one reference

What references leave out of a name tells two names apart in most cases, but not in all: where a definition
has the name that is left of another one, both are referred to as one.

* **what is left** — a name loses what it starts with exactly if something is left of it
  (`schemaName_append`, `schemaName_of_kept`), so two names come to one only if one of them is what is left
  of the other (`schemaName_eq_iff`);
* **references** — the schemas of two names are the same exactly if the references are
  (`Schema.same_reference_iff`), and a union of both keeps both unless they are
  (`Schema.combine_references`).

`Resolver.references_differ_unless_names_clash` puts them together.
-/

namespace Schemata

/-! ## What is left of a name -/

theorem schemaName_append (start : Text) {rest : Text} (h : rest ≠ []) :
    schemaName start (start ++ rest) = rest := by
  have hlength : start.length < (start ++ rest).length := by
    have hrest := List.length_pos_of_ne_nil h
    rw [List.length_append]
    omega
  have hstarts : start.isPrefixOf (start ++ rest) = true :=
    List.isPrefixOf_iff_prefix.mpr (List.prefix_append start rest)
  rw [schemaName, if_pos ⟨hstarts, hlength⟩, List.drop_left]

theorem schemaName_of_kept {start name : Text} (h : ∀ rest, rest ≠ [] → name ≠ start ++ rest) :
    schemaName start name = name := by
  rw [schemaName, if_neg]
  rintro ⟨hstarts, hlength⟩
  obtain ⟨rest, rfl⟩ := List.isPrefixOf_iff_prefix.mp hstarts
  refine h rest ?_ rfl
  rintro rfl
  rw [List.append_nil] at hlength
  omega

/-- The shorter name is what is left of the longer one, and nothing is left out of it. -/
structure Clash (start long short : Text) : Prop where
  long_eq : long = start ++ short
  short_ne_nil : short ≠ []
  kept : ∀ rest, rest ≠ [] → short ≠ start ++ rest

theorem Clash.schemaName_eq {start long short : Text} (h : Clash start long short) :
    schemaName start long = schemaName start short := by
  rw [h.long_eq, schemaName_append start h.short_ne_nil, schemaName_of_kept h.kept]

/-- **Two names come to one only if one of them is what is left of the other.** -/
theorem schemaName_eq_iff {start left right : Text} (hne : left ≠ right) :
    schemaName start left = schemaName start right ↔ Clash start left right ∨ Clash start right left := by
  constructor
  · intro h
    by_cases hleft : ∃ rest, rest ≠ [] ∧ left = start ++ rest
    · obtain ⟨rest, hrest, rfl⟩ := hleft
      rw [schemaName_append start hrest] at h
      by_cases hright : ∃ other, other ≠ [] ∧ right = start ++ other
      · -- both lose what they start with, so they were equal before
        obtain ⟨other, hother, rfl⟩ := hright
        rw [schemaName_append start hother] at h
        exact absurd (congrArg (start ++ ·) h) hne
      · have hkept : ∀ other, other ≠ [] → right ≠ start ++ other :=
          fun other hother heq => hright ⟨other, hother, heq⟩
        rw [schemaName_of_kept hkept] at h
        subst h
        exact .inl ⟨rfl, hrest, hkept⟩
    · have hkept : ∀ rest, rest ≠ [] → left ≠ start ++ rest :=
        fun rest hrest heq => hleft ⟨rest, hrest, heq⟩
      rw [schemaName_of_kept hkept] at h
      by_cases hright : ∃ other, other ≠ [] ∧ right = start ++ other
      · obtain ⟨other, hother, rfl⟩ := hright
        rw [schemaName_append start hother] at h
        subst h
        exact .inr ⟨rfl, hother, hkept⟩
      · rw [schemaName_of_kept fun other hother heq => hright ⟨other, hother, heq⟩] at h
        exact absurd h hne
  · rintro (h | h)
    · exact h.schemaName_eq
    · exact h.schemaName_eq.symm

/-! ## References -/

namespace Schema

/-- The schema that refers to a target. -/
abbrev reference (context target : Text) : Schema := { context, ref := some target }

variable {context left right : Text}

theorem same_reference_iff :
    Same (reference context left) (reference context right) ↔ left = right := by
  constructor
  · intro h
    exact Option.some.inj (same_iff.mp h).ref
  · rintro rfl
    exact (same_equivalentAt _).refl

/-- **Two references are one member if they are equal, and are told apart by nothing else.** -/
theorem combine_references (context left right : Text) :
    combine context [reference context left, reference context right] false .union =
      if left = right then reference context left
      else { context, anyOf := some [reference context left, reference context right] } := by
  by_cases h : left = right
  · subst h
    have hone : mergedMembers context [reference context left, reference context left] =
        [reference context left] := by
      have hsame : Same (reference context left) (reference context left) := same_reference_iff.mpr rfl
      rw [mergedMembers, deduplicate_cons, deduplicate_of_pairwise (List.pairwise_singleton _ _)]
      simp [isNew, hsame, mergeEnums, EnumGroups.ofMembers]
    rw [if_pos rfl, combine_of_single hone]
  · have hpair : [{ context, ref := some left }, { context, ref := some right }].Pairwise
        fun left right : Schema => left.same right = false :=
      List.pairwise_pair.mpr (Bool.eq_false_iff.mpr fun hsame => h (same_reference_iff.mp hsame))
    rw [if_neg h, combine, deduplicate_of_pairwise hpair]
    rfl

end Schema

namespace Resolver

open Schema

/-- The name is that of a definition: it is neither built in nor rooted. -/
structure IsDefinition (known : List Json) (name : Text) : Prop where
  mem : .str name ∈ known
  not_builtin : ∀ builtin : Builtin, builtin.name ≠ name
  not_rooted : name.head? ≠ some (CodePoint.ofChar '\\')

variable {known : List Json} {name : Text}

theorem IsDefinition.of_mem (hmem : .str name ∈ known) (hbuiltin : Builtin.ofName? name = none)
    (hroot : name.head? ≠ some (CodePoint.ofChar '\\')) : IsDefinition known name :=
  ⟨hmem, Builtin.ofName?_eq_none_iff.mp hbuiltin, hroot⟩

theorem IsDefinition.unrooted_eq (h : IsDefinition known name) : name.unrooted = name := by
  have hroot := h.not_rooted
  cases name with
  | nil => rfl
  | cons c rest =>
      rw [Text.unrooted, if_neg]
      rintro rfl
      exact hroot rfl

/-- The name is none of those that resolution looks for. -/
theorem IsDefinition.isIdentifier_eq_false (h : IsDefinition known name) (builtin : Builtin) :
    (TypeExpr.identifier name).isIdentifier builtin.name = false := by
  rw [TypeExpr.isIdentifier, h.unrooted_eq, decide_eq_false_iff_not]
  exact fun heq => h.not_builtin builtin heq.symm

/-- The name of a definition is resolved to a reference, and nothing is recorded on the way. -/
theorem IsDefinition.resolveIdentifier_eq {r : Resolver} {start taken : Text}
    (h : IsDefinition known name) (hknown : r.definitions = .arr known)
    (hstart : r.config.refPrefix = .str start) (htaken : r.config.schemaNamePrefix = .str taken)
    (context : Text) :
    r.resolveIdentifier context name = pure (reference context (start ++ schemaName taken name)) := by
  have harray : decide (name = "array") = false :=
    decide_eq_false fun heq => h.not_builtin .array heq.symm
  have hbuiltin : Builtin.ofName? name = none := Builtin.ofName?_eq_none_iff.mpr h.not_builtin
  have hmentions : r.definitions.mentions? name = some true := by
    rw [hknown]
    exact Json.mentions?_arr_iff.mpr h.mem
  unfold resolveIdentifier
  rw [harray, h.unrooted_eq, hbuiltin]
  unfold resolveReference
  rw [hmentions, Config.reference_eq hstart htaken]
  rfl

/-- Among the members of a union the name adds its reference, and nothing is recorded on the way. -/
theorem IsDefinition.resolveMembers_eq {r : Resolver} {context : Text} {schema : Schema}
    (h : IsDefinition known name) (hname : r.resolveIdentifier context name = pure schema)
    (others : List TypeExpr) :
    r.resolveMembers context (.identifier name :: others) =
      r.resolveMembers context others >>= fun rest => pure (rest.add schema) := by
  have hnull : (TypeExpr.identifier name).isIdentifier "null" = false := h.isIdentifier_eq_false .null
  have hmixed : (TypeExpr.identifier name).isIdentifier "mixed" = false :=
    h.isIdentifier_eq_false .mixed
  rw [resolveMembers, hnull, hmixed, resolve, hname]
  rfl

/-- **Different definitions have different references unless their names clash.** With a list of
definitions and texts for both settings, the names of two definitions are resolved to references. These are
equal exactly if one name is what is left of the other without what references leave out, and nothing is
left out of it. A union of the two keeps both, in order, if they differ, and is the one reference if they
are equal. -/
theorem references_differ_unless_names_clash (known : List Json) (start taken : Text) (switch : Json)
    (strict : Bool) (context left right : Text) (hne : left ≠ right) (hleft : IsDefinition known left)
    (hright : IsDefinition known right) :
    let config : Config :=
      { schemaNamePrefix := .str taken, refPrefix := .str start, errorsAreFatal := switch }
    let r : Resolver := { definitions := .arr known, config, strict }
    ∃ leftRef rightRef : Text,
      r.resolveIdentifier context left = pure (reference context leftRef) ∧
      r.resolveIdentifier context right = pure (reference context rightRef) ∧
      (leftRef = rightRef ↔ Clash taken left right ∨ Clash taken right left) ∧
      r.resolve context (.union [.identifier left, .identifier right]) =
        pure (if leftRef = rightRef then reference context leftRef
          else { context, anyOf := some [reference context leftRef, reference context rightRef] }) := by
  intro config r
  have hleftRef := hleft.resolveIdentifier_eq (r := r) rfl rfl rfl context
  have hrightRef := hright.resolveIdentifier_eq (r := r) rfl rfl rfl context
  refine ⟨_, _, hleftRef, hrightRef, ?_, ?_⟩
  · rw [List.append_cancel_left_eq, schemaName_eq_iff hne]
  · rw [resolve, if_neg (by simp), hleft.resolveMembers_eq hleftRef, hright.resolveMembers_eq hrightRef]
    exact congrArg pure (combine_references context _ _)

/-- Two names lose what references leave out, and what is left of them differs. -/
theorem union_keeps_both_notes :
    let known : List Json := [.str "NotesItem", .str "NotesList"]
    let config : Config := { schemaNamePrefix := .str "Notes" }
    let r : Resolver := { definitions := .arr known, config, strict := false }
    ("NotesItem" : Text) ≠ "NotesList" ∧
      IsDefinition known "NotesItem" ∧ IsDefinition known "NotesList" ∧
      ∃ leftRef rightRef : Text, leftRef ≠ rightRef ∧
        r.resolve "$" (.union [.identifier "NotesItem", .identifier "NotesList"]) =
          pure { context := "$", anyOf := some [reference "$" leftRef, reference "$" rightRef] } := by
  intro known config r
  have hne : ("NotesItem" : Text) ≠ "NotesList" := by decide
  have hitem : IsDefinition known "NotesItem" := .of_mem (by simp [known]) (by decide) (by decide)
  have hlist : IsDefinition known "NotesList" := .of_mem (by simp [known]) (by decide) (by decide)
  obtain ⟨leftRef, rightRef, -, -, hclash, hunion⟩ := references_differ_unless_names_clash known
    "#/components/schemas/" "Notes" (.bool false) false "$" "NotesItem" "NotesList" hne hitem hlist
  have hdiffer : leftRef ≠ rightRef := by
    intro heq
    -- neither name is the other one behind what is left out
    rcases hclash.mp heq with h | h
    · exact absurd h.long_eq (by decide)
    · exact absurd h.long_eq (by decide)
  rw [if_neg hdiffer] at hunion
  exact ⟨hne, hitem, hlist, leftRef, rightRef, hdiffer, hunion⟩

/-- Two definitions with one reference: one of them is called what is left of the name of the other. A
union of the two keeps one member. -/
theorem two_definitions_share_reference :
    let known : List Json := [.str "NotesItem", .str "Item"]
    let config : Config := { schemaNamePrefix := .str "Notes" }
    let r : Resolver := { definitions := .arr known, config, strict := false }
    let shared := reference "$" "#/components/schemas/Item"
    ("NotesItem" : Text) ≠ "Item" ∧ IsDefinition known "NotesItem" ∧ IsDefinition known "Item" ∧
      r.resolveIdentifier "$" "NotesItem" = pure shared ∧ r.resolveIdentifier "$" "Item" = pure shared ∧
      r.resolve "$" (.union [.identifier "NotesItem", .identifier "Item"]) = pure shared := by
  intro known config r shared
  have hnotes : IsDefinition known "NotesItem" := .of_mem (by simp [known]) (by decide) (by decide)
  have hitem : IsDefinition known "Item" := .of_mem (by simp [known]) (by decide) (by decide)
  exact ⟨by decide, hnotes, hitem, rfl, rfl, rfl⟩

end Resolver

end Schemata
