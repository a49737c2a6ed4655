import Schemata.Proofs.Invariants

/-!
# References

A reference leads to the schema of a definition, and a resolved schema has no other references than to
definitions whose names stand in the expression:

* **spelling** — with texts for both settings, the reference to a name is the one text in front of the
  name without the other (`Config.reference_eq`);
* **references** — combining members rewrites no reference and makes none, so those of a resolved schema
  are targets of names in the expression (`Resolver.Resolves.ref_of_name`);
* **failures** — a run that ends with a problem ends with one of form, or with a name of the expression
  that is neither built in nor defined (`Resolver.complaint_of_error`). The messages of the two kinds
  differ (`Problem.message_ne_of_isFormal`).

`Resolver.resolve_references_defined` puts them together.
-/

namespace Schemata

/-! ## Spelling -/

theorem schemaName_nil (name : Text) : schemaName [] name = name := by
  simp [schemaName]

namespace Config

/-- What is taken off a name depends on the text of the setting, also if that is empty and so is
switched off. -/
theorem schemaNameOf_eq {config : Config} {taken : Text}
    (htaken : config.schemaNamePrefix = .str taken) (name : Text) :
    config.schemaNameOf name = .ok (schemaName taken name) := by
  unfold schemaNameOf
  rw [htaken]
  cases taken with
  | nil => simp [Json.isOn, schemaName_nil]
  | cons c rest => simp [Json.isOn]

theorem reference_eq {config : Config} {start taken : Text} (hstart : config.refPrefix = .str start)
    (htaken : config.schemaNamePrefix = .str taken) (name : Text) :
    config.reference name = .ok (start ++ schemaName taken name) := by
  unfold reference
  rw [schemaNameOf_eq htaken, hstart]
  rfl

/-- A reference that cannot be written is the fault of a setting. -/
theorem misuse_of_reference_error {config : Config} {name : Text} {failure : Failure}
    (h : config.reference name = .error failure) : ∃ misuse, failure = .misuse misuse := by
  unfold reference at h
  cases hname : config.schemaNameOf name with
  | error other =>
      obtain rfl : other = failure := by simpa [hname, bind, Except.bind] using h
      unfold schemaNameOf at hname
      split at hname
      · split at hname
        · cases hname
        · exact ⟨_, (Except.error.inj hname).symm⟩
      · cases hname
  | ok target =>
      simp only [hname, bind, Except.bind] at h
      split at h
      · cases h
      · exact ⟨_, (Except.error.inj h).symm⟩

end Config

theorem Builtin.ofName?_eq_none_iff {name : Text} :
    ofName? name = none ↔ ∀ builtin : Builtin, builtin.name ≠ name := by
  simp [ofName?, mem_all]

/-! ## Messages -/

/-- Texts that differ at the start differ however they go on. -/
theorem append_ne_append {left right : Text} (n : Nat) (hleft : n ≤ left.length)
    (hright : n ≤ right.length) (h : left.take n ≠ right.take n) (rest other : Text) :
    left ++ rest ≠ right ++ other := by
  intro heq
  have hstart := congrArg (List.take n) heq
  rw [List.take_append_of_le_length hleft, List.take_append_of_le_length hright] at hstart
  exact h hstart

/-- No problem of form has the message of an unknown name. -/
theorem Problem.message_ne_of_isFormal {problem : Problem} (h : problem.isFormal = true)
    (name : Text) : problem.message ≠ (unknownIdentifier name).message := by
  simp only [message, List.append_assoc]
  cases problem with
  | unknownIdentifier _ | custom _ => cases h
  | bareArray | unsupportedGeneric _ | mapKey _ =>
      exact append_ne_append 1 (by decide) (by decide) (by decide) _ _
  | noRule expr => exact append_ne_append 31 (by decide) (by decide) (by decide) _ _
  | mixedMember | emptyUnion | emptyIntersection | unsupportedLiteral =>
      -- nothing follows in these messages
      intro heq
      exact append_ne_append 3 (by decide) (by decide) (by decide) [] _
        ((List.append_nil _).trans heq)

/-- The message of an unknown name shows the name. -/
theorem Problem.unknownIdentifier_message_inj {name other : Text}
    (h : (unknownIdentifier name).message = (unknownIdentifier other).message) : name = other :=
  List.append_cancel_left (List.append_cancel_right h)

namespace Resolver

open Schema

variable {r : Resolver} {context : Text} {expr : TypeExpr} {schema : Schema}

/-! ## References -/

/-- **A reference in a resolved schema is the target of a name in the expression.** -/
theorem Resolves.ref_of_name (h : r.Resolves context expr schema) :
    ∀ part, Subtree part schema → ∀ ref ∈ part.ref,
      ∃ name ∈ expr.names, Builtin.ofName? name = none ∧ r.target? name = some ref := by
  refine h.throughout_of_references (P := fun part => ∀ ref ∈ part.ref, ∃ name ∈ expr.names,
    Builtin.ofName? name = none ∧ r.target? name = some ref) ?_ ?_
  · constructor
    case relabel => exact fun _ _ _ h => h
    case builtin => exact fun builtin => by cases builtin <;> simp [Builtin.schema, int64]
    case texts =>
      intro context texts _
      unfold ofTextLiterals
      split <;> simp
    all_goals simp [int64, ofShape, ofIntLiterals, pooled]
  · intro name hname hbuiltin context target htarget ref href
    obtain rfl : target = ref := Option.some.inj href
    exact ⟨name, hname, hbuiltin, htarget⟩

/-! ## Failures -/

/-- The problems that a run on an expression with these names may end with: the expression has one by
its form, or one of the names is neither built in nor defined. -/
def IsComplaint (r : Resolver) (names : List Text) (problem : Problem) : Prop :=
  problem.isFormal = true ∨ ∃ name ∈ names, problem = .unknownIdentifier name ∧
    Builtin.ofName? name = none ∧ r.definitions.mentions? name = some false

/-- If the report ends with a problem then it is such a complaint. -/
def EndsInComplaint (r : Resolver) (names : List Text) {α : Type} (report : Report α) : Prop :=
  ∀ place problem, report.outcome = .error (.unrepresentable place problem) →
    r.IsComplaint names problem

theorem endsInComplaint_iff {names : List Text} {α : Type} {report : Report α} :
    r.EndsInComplaint names report ↔
      FailsAs (fun failure => ∀ place problem, failure = .unrepresentable place problem →
        r.IsComplaint names problem) report.outcome := by
  constructor
  · intro h failure hfailure place problem heq
    exact h place problem (heq ▸ hfailure)
  · intro h place problem hproblem
    exact h _ hproblem place problem rfl

theorem congruence_endsInComplaint {shown : List Int} (r : Resolver) (names : List Text) :
    Report.Congruence shown fun _ report _ => r.EndsInComplaint names report := by
  simp only [endsInComplaint_iff]
  refine Report.congruence_failsAs fun context problem hformal _ place other heq => ?_
  obtain ⟨-, rfl⟩ := Failure.unrepresentable.inj heq
  exact .inl hformal

theorem leaves_endInComplaint (r : Resolver) (names : List Text) :
    LeavesRelated (fun _ report _ => r.EndsInComplaint names report) r r names := by
  constructor
  case recoverable =>
    intro cause context problem hformal _ place other h
    unfold errorIf Report.error at h
    split at h
    · split at h
      · obtain ⟨-, rfl⟩ := Failure.unrepresentable.inj (Except.error.inj h)
        exact .inl hformal
      · cases h
    · cases h
  case reference =>
    intro name hname hbuiltin context place problem h
    unfold resolveReference at h
    split at h
    · cases h
    · next hunknown =>
      obtain ⟨-, rfl⟩ := Failure.unrepresentable.inj (Except.error.inj h)
      exact .inr ⟨name, hname, rfl, hbuiltin, hunknown⟩
    · split at h
      · cases h
      · next failure hfailure =>
        obtain ⟨misuse, rfl⟩ := Config.misuse_of_reference_error hfailure
        cases h

/-- **A run ends with a problem of form or with an unknown name of the expression.** -/
theorem complaint_of_error {place : Text} {problem : Problem}
    (h : (r.resolve context expr).outcome = .error (.unrepresentable place problem)) :
    r.IsComplaint expr.names problem :=
  resolve_congr (congruence_endsInComplaint r expr.names) (leaves_endInComplaint r expr.names)
    context place problem h

/-- With a list of definitions and texts for both settings, the names that can be referred to are those
of the list, and the reference is spelled in one way. -/
theorem target?_eq_some_iff {known : List Json} {start taken : Text} {name ref : Text}
    (hknown : r.definitions = .arr known) (hstart : r.config.refPrefix = .str start)
    (htaken : r.config.schemaNamePrefix = .str taken) :
    r.target? name = some ref ↔ .str name ∈ known ∧ ref = start ++ schemaName taken name := by
  unfold target?
  rw [← Json.mentions?_arr_iff, ← hknown, Config.reference_eq hstart htaken]
  cases r.definitions.mentions? name with
  | none => simp
  | some mentioned => cases mentioned <;> simp [Except.toOption, eq_comm]

/-- **No reference dangles.** With a list of definitions and texts for both settings, every reference in
what an expression resolves to, at any depth, is spelled for a name that stands in the expression, is
defined and is not built in. If resolution ends with the message that a name is unknown, the name stands
in the expression and is neither defined nor built in. -/
theorem resolve_references_defined (known : List Json) (start taken : Text) (switch : Json)
    (strict : Bool) (context : Text) (expr : TypeExpr) :
    let config : Config :=
      { schemaNamePrefix := .str taken, refPrefix := .str start, errorsAreFatal := switch }
    let r : Resolver := { definitions := .arr known, config, strict }
    (∀ schema, (r.resolve context expr).outcome = .ok schema →
      ∀ part, Subtree part schema → ∀ ref, part.ref = some ref →
        ∃ name ∈ expr.names, .str name ∈ known ∧ (∀ builtin : Builtin, builtin.name ≠ name) ∧
          ref = start ++ schemaName taken name) ∧
    ∀ place problem name, (r.resolve context expr).outcome = .error (.unrepresentable place problem) →
      problem.message = "Unable to resolve OpenAPI type for identifier '" ++ name ++ "'" →
        name ∈ expr.names ∧ .str name ∉ known ∧ ∀ builtin : Builtin, builtin.name ≠ name := by
  intro config r
  constructor
  · intro schema h part hpart ref href
    obtain ⟨name, hname, hbuiltin, htarget⟩ := (resolves_of_ok h).ref_of_name part hpart ref href
    obtain ⟨hknown, hspelled⟩ := (target?_eq_some_iff rfl rfl rfl).mp htarget
    exact ⟨name, hname, hknown, Builtin.ofName?_eq_none_iff.mp hbuiltin, hspelled⟩
  · intro place problem name h hmessage
    rcases complaint_of_error h with hformal | ⟨unknown, hunknown, rfl, hbuiltin, hmentioned⟩
    · exact absurd hmessage (Problem.message_ne_of_isFormal hformal name)
    · obtain rfl := Problem.unknownIdentifier_message_inj hmessage
      refine ⟨hunknown, fun hknown => ?_, Builtin.ofName?_eq_none_iff.mp hbuiltin⟩
      rw [show r.definitions = .arr known from rfl, Json.mentions?_arr_iff.mpr hknown] at hmentioned
      cases hmentioned

/-- A list whose items are of a defined or of a built-in name refers to the definition alone, although
the built-in name is among the definitions too. A name that is not among them is unknown. -/
theorem references_to_item :
    let r : Resolver :=
      { definitions := .arr [.str "NotesItem", .str "int"],
        config := { schemaNamePrefix := .str "Notes" }, strict := false }
    let expr : TypeExpr := .arrayOf (.union [.identifier "\\NotesItem", .identifier "int"])
    let missing : TypeExpr := .nullable (.qualified ["Notes", "Missing"])
    (∃ schema, (r.resolve "$" expr).outcome = .ok schema ∧
      (∃ part, Subtree part schema ∧ part.ref ≠ none) ∧
      ∀ part, Subtree part schema → ∀ ref, part.ref = some ref →
        ref = "#/components/schemas/Item") ∧
    (r.resolve "$" missing).outcome =
        .error (.unrepresentable "$" (.unknownIdentifier "Missing")) ∧
      ("Missing" : Text) ∈ missing.names := by
  intro r expr missing
  obtain ⟨hrefs, -⟩ := resolve_references_defined [.str "NotesItem", .str "int"]
    "#/components/schemas/" "Notes" (.bool false) false "$" expr
  constructor
  · have hends : ∃ schema, (r.resolve "$" expr).outcome = .ok schema ∧
        ∃ part, Subtree part schema ∧ part.ref ≠ none :=
      ⟨_, rfl, _, .child List.mem_cons_self (.child List.mem_cons_self (.refl _)), nofun⟩
    obtain ⟨schema, h, hpart⟩ := hends
    refine ⟨schema, h, hpart, fun part hpart ref href => ?_⟩
    obtain ⟨name, hname, -, hbuiltin, rfl⟩ := hrefs schema h part hpart ref href
    rcases List.mem_pair.mp hname with rfl | rfl
    · decide
    · -- this name is built in
      exact absurd rfl (hbuiltin .int)
  · obtain ⟨-, hmissing⟩ := resolve_references_defined [.str "NotesItem", .str "int"]
      "#/components/schemas/" "Notes" (.bool false) false "$" missing
    exact ⟨rfl, (hmissing "$" (.unknownIdentifier "Missing") "Missing" rfl rfl).1⟩

end Resolver

end Schemata
