import Schemata.Diagnostic

/-!
# Computations that report diagnostics

A `Report` is the diagnostics that a computation recorded, in order, and its result or the failure
that ended it. Sequencing appends: `Report.entries_bind` says which entries a computation in two
steps records, `Report.outcome_bind` how it ends.
-/

namespace Schemata

/-- Recorded diagnostics, and how the computation ended. -/
structure Report (α : Type) where
  entries : List Diagnostic
  outcome : Except Failure α

namespace Report

variable {α β : Type}

instance : Monad Report where
  pure value := ⟨[], .ok value⟩
  bind report next :=
    match report.outcome with
    | .ok value => ⟨report.entries ++ (next value).entries, (next value).outcome⟩
    | .error failure => ⟨report.entries, .error failure⟩

/-- Ends without a diagnostic. -/
def fail (failure : Failure) : Report α := ⟨[], .error failure⟩

/-- Records a fatal problem and ends with it. -/
def panic (context : Text) (problem : Problem) : Report α :=
  ⟨[⟨.fatal, context, problem⟩], .error (.unrepresentable context problem)⟩

/-- Records a recoverable problem, which is fatal all the same if reporting is strict. -/
def error (strict : Bool) (context : Text) (problem : Problem) : Report Unit :=
  if strict then panic context problem else ⟨[⟨.error, context, problem⟩], .ok ()⟩

/-- The result of reading the part of a document at `base`. -/
def ofDecoded (base : Text) : Decoded α → Report α
  | .ok value => pure value
  | .error (.fault steps defect) => fail (.malformed (Step.renderPath base steps) defect)
  | .error (.unprintable _) => fail (.exhausted .digits)

theorem entries_bind (report : Report α) (next : α → Report β) :
    (report >>= next).entries =
      match report.outcome with
      | .ok value => report.entries ++ (next value).entries
      | .error _ => report.entries := by
  simp only [bind]
  cases report.outcome <;> rfl

theorem outcome_bind (report : Report α) (next : α → Report β) :
    (report >>= next).outcome = report.outcome.bind fun value => (next value).outcome := by
  simp only [bind]
  cases report.outcome <;> rfl

theorem id_map_eq (report : Report α) : id <$> report = report := by
  obtain ⟨entries, outcome⟩ := report
  cases outcome <;> simp [Functor.map]

theorem pure_bind_eq (value : α) (next : α → Report β) : pure value >>= next = next value := by
  simp [bind, pure]

theorem bind_assoc_eq {γ : Type} (report : Report α) (next : α → Report β) (last : β → Report γ) :
    report >>= next >>= last = report >>= fun value => next value >>= last := by
  obtain ⟨entries, outcome⟩ := report
  cases outcome with
  | error failure => rfl
  | ok value =>
    simp only [bind]
    cases (next value).outcome <;> simp [List.append_assoc]

instance : LawfulMonad Report :=
  LawfulMonad.mk' Report id_map_eq pure_bind_eq bind_assoc_eq

end Report

end Schemata
