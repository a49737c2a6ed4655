import Schemata.Proofs.Faults
import Schemata.Proofs.References
import Schemata.Session

/-!
# What is recorded, and how it ended

A fatal problem is recorded and ends the computation. That these two agree:

* **reports** — recoverable problems come first, and only if reporting is not strict; a fatal one is
  the last entry, and there is one exactly if the computation ended with it (`Report.Logged`).
  Sequencing keeps this, so every resolution has it (`Resolver.resolve_logged`);
* **one action** — what it appends to the record of a session tells how it is answered (`Tells`,
  `Session.exists_appends`);
* **a run** — the fatal entries that any number of actions append are those of the answers, one for
  one (`Session.actAll_appends`).

`Session.log_agrees_with_answers` puts them together.
-/

namespace Schemata

/-- Recoverable problems only, and none at all if these are fatal. -/
def Tolerated (strict : Bool) (entries : List Diagnostic) : Prop :=
  ∀ entry ∈ entries, entry.severity = .error ∧ strict = false

namespace Tolerated

variable {strict : Bool} {entries others : List Diagnostic}

theorem nil : Tolerated strict [] := fun _ h => absurd h List.not_mem_nil

theorem append (h : Tolerated strict entries) (hothers : Tolerated strict others) :
    Tolerated strict (entries ++ others) := by
  intro entry hentry
  exact (List.mem_append.mp hentry).elim (h entry) (hothers entry)

end Tolerated

/-- Whether a diagnostic is fatal. -/
def Diagnostic.isFatal (d : Diagnostic) : Bool := d.severity = .fatal

/-- What is tolerated is not fatal. -/
theorem Tolerated.filter_isFatal {strict : Bool} {entries : List Diagnostic}
    (h : Tolerated strict entries) : entries.filter Diagnostic.isFatal = [] := by
  rw [List.filter_eq_nil_iff]
  intro entry hentry
  simp [Diagnostic.isFatal, (h entry hentry).1]

namespace Report

variable {α β : Type} {strict : Bool}

/-- How a computation ended that went by the rules for diagnostics, and what it recorded. -/
inductive Logged (strict : Bool) : Report α → Prop
  | done {entries : List Diagnostic} (value : α) :
      Tolerated strict entries → Logged strict ⟨entries, .ok value⟩
  | raised {before : List Diagnostic} (context : Text) (problem : Problem) :
      Tolerated strict before →
        Logged strict
          ⟨before ++ [⟨.fatal, context, problem⟩], .error (.unrepresentable context problem)⟩
  | misused {entries : List Diagnostic} (misuse : Misuse) :
      Tolerated strict entries → Logged strict ⟨entries, .error (.misuse misuse)⟩

namespace Logged

theorem pure (value : α) : Logged strict (pure value) := .done value .nil

theorem panic (context : Text) (problem : Problem) :
    Logged strict (Report.panic context problem : Report α) :=
  .raised context problem .nil

theorem misuse (misuse : Misuse) : Logged strict (fail (.misuse misuse) : Report α) :=
  .misused misuse .nil

theorem error (context : Text) (problem : Problem) :
    Logged strict (Report.error strict context problem) := by
  cases strict with
  | true => exact panic context problem
  | false =>
      refine .done () fun entry hentry => ?_
      obtain rfl := List.mem_singleton.mp hentry
      exact ⟨rfl, rfl⟩

theorem bind {report : Report α} {next : α → Report β} (h : Logged strict report)
    (hnext : ∀ value, Logged strict (next value)) : Logged strict (report >>= next) := by
  cases h with
  | raised context problem hbefore => exact .raised context problem hbefore
  | misused misuse hentries => exact .misused misuse hentries
  | done value hentries =>
      -- what the first step tolerated stands before what the second step records
      have hlater := hnext value
      show Logged strict ⟨_ ++ (next value).entries, (next value).outcome⟩
      generalize next value = later at hlater ⊢
      cases hlater with
      | done result hmore => exact .done result (hentries.append hmore)
      | misused misuse hmore => exact .misused misuse (hentries.append hmore)
      | raised context problem hbefore =>
          rw [← List.append_assoc]
          exact .raised context problem (hentries.append hbefore)

/-- Only reading a value that writes no expression ends in a fault of it. -/
theorem outcome_ne_malformed {report : Report α} (h : Logged strict report) (path : Text)
    (defect : Defect) : report.outcome ≠ .error (.malformed path defect) := by
  cases h <;> nofun

/-- Resolving needs no resource that may run out. -/
theorem outcome_ne_exhausted {report : Report α} (h : Logged strict report) (resource : Resource) :
    report.outcome ≠ .error (.exhausted resource) := by
  cases h <;> nofun

end Logged

/-- A run that goes by the rules does so in spite of the other one. -/
theorem congruence_logged {shown : List Int} :
    Congruence shown fun _ report _ => Logged strict report where
  pure := .pure
  bind := .bind
  panic context problem _ _ := .panic context problem

end Report

open Report

namespace Resolver

variable (r : Resolver)

theorem resolveReference_logged (context name : Text) :
    Logged r.strict (r.resolveReference context name) := by
  unfold resolveReference
  split
  · exact .misuse _
  · exact .panic _ _
  · split
    · exact .pure _
    · next failure hfailure =>
      obtain ⟨misuse, rfl⟩ := Config.misuse_of_reference_error hfailure
      exact .misuse misuse

theorem leaves_logged (names : List Text) :
    LeavesRelated (fun _ report _ => Logged r.strict report) r r names := by
  constructor
  case recoverable =>
    intro cause context problem _ _
    cases cause with
    | false => exact .pure ()
    | true => exact .error context problem
  case reference => exact fun name _ _ context => r.resolveReference_logged context name

/-- **Resolution goes by the rules for diagnostics.** -/
theorem resolve_logged (context : Text) (expr : TypeExpr) :
    Logged r.strict (r.resolve context expr) :=
  resolve_congr congruence_logged (r.leaves_logged expr.names) context

/-- So does the resolution of a value that writes an expression; of one that writes none, nothing is
recorded. -/
theorem schemaOf_logged (base context : Text) (node : Json) (default? : Option Json) :
    Logged r.strict (r.schemaOf base context node default?) ∨
      ∃ path defect, r.schemaOf base context node default? = fail (.malformed path defect) := by
  rw [schemaOf_eq]
  cases hexpr : TypeExpr.ofJson node with
  | error e =>
      obtain ⟨steps, defect, -, rfl, -⟩ := TypeExpr.exists_fault_of_error hexpr
      exact .inr ⟨_, _, rfl⟩
  | ok expr =>
      refine .inl (Logged.bind (.pure expr) fun expr => ?_)
      refine (r.resolve_logged context expr).bind fun schema => ?_
      cases default? <;> exact .pure _

end Resolver

/-! ## Sessions -/

/-- The diagnostic of a problem that ended something, if a problem did. -/
def Failure.raised? : Failure → Option Diagnostic
  | .unrepresentable context problem => some ⟨.fatal, context, problem⟩
  | _ => none

/-- The diagnostic of a problem that ended something is fatal. -/
theorem Failure.isFatal_of_raised {failure : Failure} {entry : Diagnostic}
    (h : failure.raised? = some entry) : entry.isFatal = true := by
  cases failure <;> cases h
  rfl

/-- What was recorded tells why something failed, if it did. -/
structure Tells (strict : Bool) (recorded : List Diagnostic) (failure? : Option Failure) :
    Prop where
  /-- A problem that ended it is the last entry, and was met after what is tolerated. -/
  raised : ∀ entry, failure?.bind Failure.raised? = some entry →
    ∃ before, Tolerated strict before ∧ recorded = before ++ [entry]
  /-- If no problem ended it then all is tolerated. -/
  settled : failure?.bind Failure.raised? = none → Tolerated strict recorded
  /-- Of a value that writes no expression nothing is recorded. -/
  malformed : ∀ path defect, failure? = some (.malformed path defect) → recorded = []

namespace Tells

variable {strict : Bool} {recorded : List Diagnostic} {failure? : Option Failure}

theorem silent : Tells strict [] none := ⟨nofun, fun _ => .nil, fun _ _ _ => rfl⟩

/-- The problem that ended it is the one fatal entry. -/
theorem filter_isFatal (h : Tells strict recorded failure?) :
    recorded.filter Diagnostic.isFatal = (failure?.bind Failure.raised?).toList := by
  cases hraised : failure?.bind Failure.raised? with
  | none => exact (h.settled hraised).filter_isFatal
  | some entry =>
      obtain ⟨before, hbefore, rfl⟩ := h.raised entry hraised
      obtain ⟨failure, -, hfailure⟩ := Option.bind_eq_some_iff.mp hraised
      have hfatal := Failure.isFatal_of_raised hfailure
      rw [List.filter_append, hbefore.filter_isFatal, List.nil_append, List.filter_singleton,
        hfatal]
      rfl

end Tells

namespace Report

variable {α : Type} {strict : Bool}

/-- Why a computation ended without a result, if it did. -/
def failure? (report : Report α) : Option Failure :=
  match report.outcome with
  | .ok _ => none
  | .error failure => some failure

theorem Logged.tells {report : Report α} (h : Logged strict report) :
    Tells strict report.entries report.failure? := by
  cases h with
  | done value hentries => exact ⟨nofun, fun _ => hentries, nofun⟩
  | misused misuse hentries => exact ⟨nofun, fun _ => hentries, nofun⟩
  | raised context problem hbefore =>
      refine ⟨fun entry hentry => ?_, nofun, nofun⟩
      obtain rfl : _ = entry := Option.some.inj hentry
      exact ⟨_, hbefore, rfl⟩

end Report

namespace Session

/-- Why an action failed, if it is answered that it did. -/
def Answer.failure? : Answer → Option Failure
  | .resolved (.error failure) _ => some failure
  | .reported failure? _ => failure?
  | _ => none

/-- The diagnostic of the problem that an action ended with, if it ended with one. -/
def Answer.raised? (answer : Answer) : Option Diagnostic := answer.failure?.bind Failure.raised?

/-- The entries that an action appends to the record, which tell how it is answered. -/
def Appends (session : Session) (action : Action) (appended : List Diagnostic) : Prop :=
  (session.act action).1.entries = session.entries ++ appended ∧
    Tells session.strict appended (session.act action).2.failure?

theorem appends_of_report {session : Session} {report : Report Unit}
    (h : Logged session.strict report) :
    (session.report report).1.entries = session.entries ++ report.entries ∧
      Tells session.strict report.entries (session.report report).2.failure? := by
  have htells := h.tells
  obtain ⟨entries, outcome⟩ := report
  cases outcome <;> exact ⟨rfl, htells⟩

/-- The answer to a resolution is that it failed exactly if it did. -/
theorem failure?_resolve (session : Session) (context : Text) (node : Json) (default? : Option Json)
    (parameter : Bool) :
    (session.act (.resolve context node default? parameter)).2.failure? =
      (session.resolver.schemaOf "$" context node default?).failure? := by
  simp only [act]
  generalize session.resolver.schemaOf "$" context node default? = report
  obtain ⟨entries, outcome⟩ := report
  cases outcome <;> rfl

/-- **One action appends to the record, and what it appends tells how it is answered.** -/
theorem exists_appends (session : Session) (action : Action) :
    ∃ appended, session.Appends action appended := by
  have hsilent : (session.act action).1.entries = session.entries →
      (session.act action).2.failure? = none → ∃ appended, session.Appends action appended := by
    intro hentries hanswer
    refine ⟨[], hentries.trans (List.append_nil _).symm, ?_⟩
    rw [hanswer]
    exact .silent
  cases action with
  | resolve context node default? parameter =>
      refine ⟨(session.resolver.schemaOf "$" context node default?).entries, rfl, ?_⟩
      rw [failure?_resolve]
      rcases session.resolver.schemaOf_logged "$" context node default? with h | ⟨path, defect, h⟩
      · exact h.tells
      · rw [h]
        exact ⟨nofun, fun _ => .nil, fun _ _ _ => rfl⟩
  | error context message => exact ⟨_, appends_of_report (.error _ _)⟩
  | panic context message => exact ⟨_, appends_of_report (.panic _ _)⟩
  | setStrict strict => exact hsilent rfl rfl
  | define name => exact hsilent rfl rfl
  | configure fields => exact hsilent rfl rfl
  | errors => exact hsilent rfl rfl
  | entries => exact hsilent rfl rfl
  | undefine name =>
      cases herased : eraseFirst? name session.definitions with
      | some names => exact hsilent (by simp only [act, herased]) (by simp only [act, herased]; rfl)
      | none => exact hsilent (by simp only [act, herased]) (by simp only [act, herased]; rfl)

/-- **Over a run the fatal problems that are appended are those of the answers, one for one.** -/
theorem actAll_appends (session : Session) (actions : List Action) :
    ∃ appended, (session.actAll actions).1.entries = session.entries ++ appended ∧
      appended.filter Diagnostic.isFatal =
        (session.actAll actions).2.filterMap Answer.raised? := by
  induction actions generalizing session with
  | nil => exact ⟨[], (List.append_nil _).symm, rfl⟩
  | cons action rest ih =>
      obtain ⟨first, hentries, htells⟩ := session.exists_appends action
      obtain ⟨others, hothers, hfatal⟩ := ih (session.act action).1
      refine ⟨first ++ others, ?_, ?_⟩
      · show ((session.act action).1.actAll rest).1.entries = _
        rw [hothers, hentries, List.append_assoc]
      · show _ = ((session.act action).2 :: ((session.act action).1.actAll rest).2).filterMap _
        rw [List.filter_append, htells.filter_isFatal, hfatal, List.filterMap_cons]
        show (Answer.raised? _).toList ++ _ = _
        cases (session.act action).2.raised? <;> rfl

/-- What is shown as recoverable is all that is not fatal. -/
theorem errors_answer (session : Session) :
    (session.act .errors).2 =
      .diagnostics (session.entries.filter fun entry => !entry.isFatal) := by
  have hrecoverable : ∀ entry : Diagnostic,
      decide (entry.severity = .error) = !entry.isFatal := by
    rintro ⟨_ | _, context, problem⟩ <;> rfl
  simp only [act, hrecoverable]

/-- **The record and the answers agree over any session.** An action only appends to the record. It
is answered with a problem that ended it exactly if it appended one fatal entry, which is then its
last, the diagnostic of that problem; otherwise it appended recoverable problems only, and none at
all while these are fatal; a value that writes no expression is not recorded. So the fatal entries
of a run are those of its answers, one for one and in order, and what it shows as recoverable is the
rest. -/
theorem log_agrees_with_answers :
    (∀ (session : Session) (action : Action),
      let next := (session.act action).1
      let answer := (session.act action).2
      ∃ appended, next.entries = session.entries ++ appended ∧
        (answer.raised?.isSome ↔ (appended.filter Diagnostic.isFatal).length = 1) ∧
        (∀ entry, answer.raised? = some entry → appended.getLast? = some entry) ∧
        (answer.raised? = none →
          ∀ entry ∈ appended, entry.severity = .error ∧ session.strict = false) ∧
        ∀ path defect, answer.failure? = some (.malformed path defect) → appended = []) ∧
    ∀ (session : Session) (actions : List Action),
      let last := (session.actAll actions).1
      let answers := (session.actAll actions).2
      ∃ appended, last.entries = session.entries ++ appended ∧
        appended.filter Diagnostic.isFatal = answers.filterMap Answer.raised? ∧
        (last.entries.filter Diagnostic.isFatal).length =
          (session.entries.filter Diagnostic.isFatal).length +
            (answers.filter fun answer => answer.raised?.isSome).length ∧
        (last.act .errors).2 =
          .diagnostics (last.entries.filter fun entry => !entry.isFatal) := by
  constructor
  · intro session action next answer
    obtain ⟨appended, hentries, htells⟩ := session.exists_appends action
    refine ⟨appended, hentries, ?_, fun entry hentry => ?_, htells.settled, htells.malformed⟩
    · rw [htells.filter_isFatal]
      show answer.raised?.isSome ↔ answer.raised?.toList.length = 1
      cases answer.raised? <;> simp
    · obtain ⟨before, -, hlast⟩ := htells.raised entry hentry
      rw [hlast, List.getLast?_concat]
  · intro session actions last answers
    obtain ⟨appended, hentries, hfatal⟩ := session.actAll_appends actions
    refine ⟨appended, hentries, hfatal, ?_, last.errors_answer⟩
    have hcount : (answers.filterMap Answer.raised?).length =
        (answers.filter fun answer => answer.raised?.isSome).length := by
      rw [← List.countP_eq_length_filter, List.length_filterMap_eq_countP]
    show ((session.actAll actions).1.entries.filter Diagnostic.isFatal).length = _
    rw [hentries, List.filter_append, List.length_append, hfatal, ← hcount]

/-- A bare `array` is recorded only, until recoverable problems are fatal. Then it ends the action;
a value that writes no expression does too, and is not recorded. -/
theorem record_of_bare_arrays :
    let node : Json := .obj [("kind", .str "identifier"), ("name", .str "array")]
    let session : Session := {}
    let strict : Session := { strict := true }
    let actions : List Action := [.resolve "$" node none false, .setStrict true,
      .resolve "$" node none false, .resolve "$" (.int 5) none false, .panic "here" "no"]
    (∃ appended, (session.act (.resolve "$" node none false)).1.entries = appended ∧
      ∀ entry ∈ appended, entry.severity = .error ∧ session.strict = false) ∧
    (∃ appended, (strict.act (.resolve "$" node none false)).1.entries = appended ∧
      appended.getLast? = some ⟨.fatal, "$", .bareArray⟩) ∧
    (strict.act (.resolve "$" (.int 5) none false)).1.entries = [] ∧
    ∃ appended, (session.actAll actions).1.entries = appended ∧
      appended.filter Diagnostic.isFatal =
        [⟨.fatal, "$", .bareArray⟩, ⟨.fatal, "here", .custom "no"⟩] := by
  intro node session strict actions
  obtain ⟨hact, hrun⟩ := log_agrees_with_answers
  refine ⟨?_, ?_, ?_, ?_⟩
  · obtain ⟨appended, hentries, -, -, hsettled, -⟩ := hact session (.resolve "$" node none false)
    exact ⟨appended, hentries, hsettled rfl⟩
  · obtain ⟨appended, hentries, -, hraised, -⟩ := hact strict (.resolve "$" node none false)
    exact ⟨appended, hentries, hraised _ rfl⟩
  · obtain ⟨appended, hentries, -, -, -, hmalformed⟩ :=
      hact strict (.resolve "$" (.int 5) none false)
    exact hentries.trans (hmalformed _ _ rfl)
  · obtain ⟨appended, hentries, hfatal, -⟩ := hrun session actions
    exact ⟨appended, hentries, hfatal⟩

end Session

end Schemata
