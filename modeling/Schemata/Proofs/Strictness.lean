import Schemata.Document
import Schemata.Proofs.Names

/-!
# Strict reporting

Whether recoverable problems are fatal changes what a computation does in one way only: it ends at
the first diagnostic, which is then its last. `Report.cut` is that change, made after the fact to
the report of a lenient computation:

* **sequencing** — to cut a computation in two steps is to cut both steps (`Report.cut_bind`), so
  sequencing keeps that one computation is the other one, cut (`Report.congruence_cut`);
* **resolution** — the only leaf that looks at the switch is the report of a recoverable problem
  (`Resolver.errorIf_cut`); from there the two runs are in step through every expression
  (`Resolver.resolve_cut`);
* **documents** — so they are through all entries of a document (`Document.convert_strict`), up to and
  including faults that are no diagnostics.
-/

namespace Schemata

namespace Report

variable {α β : Type}

/-- The report up to its first diagnostic, which is made fatal; all of it if there is none. -/
def cut (report : Report α) : Report α :=
  match report.entries with
  | [] => report
  | first :: _ => panic first.context first.problem

theorem cut_of_nil {report : Report α} (h : report.entries = []) : report.cut = report := by
  unfold cut
  rw [h]

theorem cut_of_cons {report : Report α} {first : Diagnostic} {rest : List Diagnostic}
    (h : report.entries = first :: rest) : report.cut = panic first.context first.problem := by
  unfold cut
  rw [h]

@[simp] theorem cut_pure (value : α) : (pure value : Report α).cut = pure value := rfl

@[simp] theorem cut_fail (failure : Failure) : (fail failure : Report α).cut = fail failure := rfl

@[simp] theorem cut_panic (context : Text) (problem : Problem) :
    (panic context problem : Report α).cut = panic context problem := rfl

@[simp] theorem cut_ofDecoded (base : Text) (decoded : Decoded α) :
    (ofDecoded base decoded).cut = ofDecoded base decoded := by
  cases decoded with
  | ok value => rfl
  | error e => cases e <;> rfl

/-- **A computation in two steps is cut by cutting both.** -/
@[simp] theorem cut_bind (report : Report α) (next : α → Report β) :
    (report >>= next).cut = report.cut >>= fun value => (next value).cut := by
  obtain ⟨entries, outcome⟩ := report
  cases entries with
  | nil =>
      -- nothing is recorded yet, so the second step decides
      have hcut : Report.cut ⟨[], outcome⟩ = ⟨[], outcome⟩ := cut_of_nil rfl
      rw [hcut]
      cases outcome with
      | error failure => rfl
      | ok value =>
          show Report.cut ⟨[] ++ (next value).entries, (next value).outcome⟩ =
            ⟨[] ++ (next value).cut.entries, (next value).cut.outcome⟩
          rw [List.nil_append, List.nil_append]
  | cons first rest =>
      -- the first diagnostic is recorded already, whatever the second step does
      have hcut : Report.cut ⟨first :: rest, outcome⟩ = panic first.context first.problem :=
        cut_of_cons rfl
      rw [hcut]
      cases outcome with
      | error failure => rfl
      | ok value => rfl

theorem congruence_cut {shown : List Int} :
    Congruence shown fun _ strict lenient => strict = lenient.cut where
  pure value := (cut_pure value).symm
  bind := by
    intro α β strict lenient next other h hnext
    rw [h, cut_bind, funext hnext]
  panic context problem _ _ := (cut_panic context problem).symm

/-- A cut report ends well exactly if there was nothing to cut. -/
theorem outcome_cut_ok_iff {report : Report α} {value : α} :
    report.cut.outcome = .ok value ↔ report.outcome = .ok value ∧ report.entries = [] := by
  cases hentries : report.entries with
  | nil =>
      rw [cut_of_nil hentries]
      exact (and_iff_left rfl).symm
  | cons first rest =>
      rw [cut_of_cons hentries]
      constructor
      · intro h
        exact absurd h (by simp [panic])
      · rintro ⟨-, h⟩
        exact absurd h (by simp)

end Report

open Report

namespace Resolver

variable (r : Resolver)

/-- The resolver that takes recoverable problems as fatal, or does not. -/
def withStrict (strict : Bool) : Resolver := { r with strict }

theorem errorIf_cut (cause : Bool) (context : Text) (problem : Problem) :
    (r.withStrict true).errorIf cause context problem =
      ((r.withStrict false).errorIf cause context problem).cut := by
  cases cause <;> rfl

/-- A reference does not depend on the switch, and what is recorded on the way is fatal already. -/
theorem resolveReference_cut (context name : Text) :
    (r.withStrict true).resolveReference context name =
      ((r.withStrict false).resolveReference context name).cut := by
  show r.resolveReference context name = (r.resolveReference context name).cut
  unfold resolveReference
  split
  · rw [cut_fail]
  · rw [cut_panic]
  · split
    · rw [cut_pure]
    · rw [cut_fail]

/-- The two runs are in step on an expression, wherever it stands. -/
def InStep (expr : TypeExpr) : Prop :=
  ∀ context, (r.withStrict true).resolve context expr =
    ((r.withStrict false).resolve context expr).cut

theorem leaves_cut (names : List Text) :
    LeavesRelated (fun _ strict lenient => strict = lenient.cut) (r.withStrict true)
      (r.withStrict false) names :=
  ⟨fun cause context problem _ _ => errorIf_cut r cause context problem,
    fun name _ _ context => resolveReference_cut r context name⟩

/-- **The two runs are in step on every expression.** -/
theorem resolve_cut (r : Resolver) (expr : TypeExpr) : r.InStep expr :=
  resolve_congr congruence_cut (leaves_cut r expr.names)

theorem schemaOf_cut (r : Resolver) (base context : Text) (node : Json) (default? : Option Json) :
    (r.withStrict true).schemaOf base context node default? =
      ((r.withStrict false).schemaOf base context node default?).cut := by
  simp only [schemaOf_eq, cut_bind, cut_ofDecoded, resolve_cut r _ context]
  cases default? <;> rfl

end Resolver

namespace Document

theorem convertEntry_cut (r : Resolver) (name : Text) (entry : Json) :
    convertEntry {} (r.withStrict true) name entry =
      (convertEntry {} (r.withStrict false) name entry).cut := by
  unfold convertEntry
  cases nodeOf name entry with
  | error failure => rfl
  | ok node =>
      -- the calls do not run out
      simp only [interrupted]
      rw [cut_bind, ← Resolver.schemaOf, ← Resolver.schemaOf_cut]
      rfl

theorem convertEntries_cut (r : Resolver) (entries : Fields Json) :
    convertEntries {} (r.withStrict true) entries =
      (convertEntries {} (r.withStrict false) entries).cut := by
  induction entries with
  | nil => rfl
  | cons field entries ih =>
      simp only [convertEntries, cut_bind, cut_pure, convertEntry_cut, ih]

theorem convert_cut (config : Config) (document : Json) :
    convert config true document = (convert config false document).cut := by
  unfold convert convertOn
  split
  · next fields =>
    split
    · next entries _ =>
      exact convertEntries_cut { definitions := definitions fields, config } entries
    · rw [cut_fail]
  · rw [cut_fail]

/-- **A strict conversion is the lenient one, cut at its first diagnostic.** Where the lenient one
records nothing, both end alike and the strict one records nothing either; else the strict one ends
with the first diagnostic of the lenient one, which is all that it records, as fatal. So it ends
well exactly if the lenient one does without a diagnostic, with the same objects. -/
theorem convert_strict (config : Config) (document : Json) :
    let lenient := convert config false document
    let strict := convert config true document
    (match lenient.entries with
      | [] => strict.entries = [] ∧ strict.outcome = lenient.outcome
      | first :: _ =>
        strict.entries = [{ first with severity := .fatal }] ∧
          strict.outcome = .error (.unrepresentable first.context first.problem)) ∧
      ∀ objects, strict.outcome = .ok objects ↔
        lenient.outcome = .ok objects ∧ lenient.entries = [] := by
  intro lenient strict
  have hcut : strict = lenient.cut := convert_cut config document
  rw [hcut]
  refine ⟨?_, fun objects => outcome_cut_ok_iff⟩
  cases hentries : lenient.entries with
  | nil =>
      rw [cut_of_nil hentries]
      exact ⟨hentries, rfl⟩
  | cons first rest =>
      rw [cut_of_cons hentries]
      exact ⟨rfl, rfl⟩

end Document

end Schemata
