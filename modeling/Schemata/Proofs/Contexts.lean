import Schemata.Proofs.Logging
import Schemata.Proofs.Relocation
import Schemata.Proofs.RewrittenRuns

/-!
# Contexts decide nothing

The context of an expression says where it stands, in diagnostics and in schemas. Resolution only
copies it and puts something behind it. So two runs on an expression, in two places, are the same
run in other words:

* **runs** — a map of contexts that takes all that stands inside of one place to the same inside of
  another (`Moves`) takes the one run to the other (`Resolver.resolve_relocate`);
* **what contexts there are** — of such maps there are many. One that leaves a place as it is may do
  anything to a context outside of it, and still leaves the run as it is: so there is no such
  context in the run (`Inside.of_fixed`).

`Resolver.resolve_alike` puts them together.
-/

namespace Schemata

open List (Forall₂)

/-! ## Runs in another place -/

namespace Resolver

open Report

variable {f : Text → Text} {here there : Text}

theorem resolveReference_relocate (r : Resolver) (h : Moves f here there) (name : Text) :
    (r.resolveReference here name).relocate f (Schema.rewrite f id) =
      r.resolveReference there name := by
  unfold resolveReference
  rw [← h.whole]
  split
  · rfl
  · rfl
  · split
    · rfl
    · next hfailure =>
      obtain ⟨misuse, rfl⟩ := Config.misuse_of_reference_error hfailure
      rfl

/-- **A run in another place is the run, moved.** -/
theorem resolve_relocate (r : Resolver) (h : Moves f here there) (expr : TypeExpr) :
    (r.resolve here expr).relocate f (Schema.relocate f) = r.resolve there expr := by
  have hsame : Rewrites f id r r :=
    { strict := rfl
      injective := Function.injective_id
      references := resolveReference_relocate r }
  exact resolve_rewrite hsame h expr

end Resolver

/-! ## Two places -/

/-- The context of some place inside of `here`. -/
def Inside (here context : Text) : Prop := ∃ trail, IsTrail trail ∧ context = here ++ trail

/-- **A context that every map leaves which leaves the inside of `here` is inside.** -/
theorem Inside.of_fixed {here context : Text}
    (h : ∀ f, Moves f here here → f context = context) : Inside here context := by
  by_contra houtside
  -- a map that changes that context only, which no trail leads to
  have hmoves : Moves (Function.update id context (':' :: context)) here here := by
    intro trail htrail
    exact Function.update_of_ne (fun heq => houtside ⟨trail, htrail, heq.symm⟩) _ _
  have hfixed := h _ hmoves
  rw [Function.update_self] at hfixed
  exact absurd (congrArg List.length hfixed) (by simp)

/-- The context with `there` for `here` in front. -/
def moved (here there context : Text) : Text := there ++ context.drop here.length

theorem moves_moved (here there : Text) : Moves (moved here there) here there := by
  intro trail _
  rw [moved, List.drop_left]

/-- The two contexts are those of one place, inside of `here` and inside of `there`. -/
def SamePlace (here there context other : Text) : Prop :=
  ∃ trail, IsTrail trail ∧ context = here ++ trail ∧ other = there ++ trail

theorem Inside.samePlace {here there context : Text} (h : Inside here context) :
    SamePlace here there context (moved here there context) := by
  obtain ⟨trail, htrail, rfl⟩ := h
  exact ⟨trail, htrail, rfl, moves_moved here there trail htrail⟩

/-- The two diagnostics are the same but for the place that they are read from. -/
structure Diagnostic.Alike (here there : Text) (left right : Diagnostic) : Prop where
  severity : left.severity = right.severity
  problem : left.problem = right.problem
  context : SamePlace here there left.context right.context

/-- The two failures are the same but for the place that they are read from. -/
inductive Failure.Alike (here there : Text) : Failure → Failure → Prop
  | unrepresentable {context other : Text} (problem : Problem) :
      SamePlace here there context other →
        Alike here there (.unrepresentable context problem) (.unrepresentable other problem)
  | misuse (misuse : Misuse) : Alike here there (.misuse misuse) (.misuse misuse)

namespace Resolver

variable (r : Resolver) (here : Text) (expr : TypeExpr)

/-- Every context that is recorded is inside of the context of the expression. -/
theorem inside_of_mem_entries {entry : Diagnostic} (h : entry ∈ (r.resolve here expr).entries) :
    Inside here entry.context := by
  refine .of_fixed fun f hmoves => ?_
  have hentries := congrArg Report.entries (r.resolve_relocate hmoves expr)
  have hfixed := List.map_inj_left.mp (hentries.trans (List.map_id _).symm) entry h
  exact congrArg Diagnostic.context hfixed

/-- Every context in the schema is. -/
theorem inside_of_subtree {schema part : Schema} (h : (r.resolve here expr).outcome = .ok schema)
    (hpart : Schema.Subtree part schema) : Inside here part.context := by
  refine .of_fixed fun f hmoves => ?_
  have houtcome := congrArg Report.outcome (r.resolve_relocate hmoves expr)
  rw [Report.outcome_relocate_ok h, h] at houtcome
  exact Schema.context_of_relocate_eq f hpart (Except.ok.inj houtcome)

/-- The context of the failure is. -/
theorem inside_of_failure {context : Text} {problem : Problem}
    (h : (r.resolve here expr).outcome = .error (.unrepresentable context problem)) :
    Inside here context := by
  refine .of_fixed fun f hmoves => ?_
  have houtcome := congrArg Report.outcome (r.resolve_relocate hmoves expr)
  rw [Report.outcome_relocate_error h, h] at houtcome
  exact (Failure.unrepresentable.inj (Except.error.inj houtcome)).1

/-- **Contexts are carried and decide nothing.** Resolved in two places, an expression has a schema
in both or in neither. The diagnostics agree one for one in severity and problem, and so does the
problem that ended the run; the one schema is the other with `there` for `here` in front of every
context in it; and both are written as the same object. Behind `here` stands nothing but what lists
and maps around a part put there. -/
theorem resolve_alike (there : Text) :
    Forall₂ (Diagnostic.Alike here there) (r.resolve here expr).entries
        (r.resolve there expr).entries ∧
      match (r.resolve here expr).outcome, (r.resolve there expr).outcome with
      | .ok schema, .ok other =>
        other = schema.relocate (moved here there) ∧
          (∀ part, Schema.Subtree part schema →
            SamePlace here there part.context (moved here there part.context)) ∧
          ∀ parameter, other.serialize parameter = schema.serialize parameter
      | .error failure, .error other => Failure.Alike here there failure other
      | _, _ => False := by
  rw [← r.resolve_relocate (moves_moved here there) expr]
  constructor
  · refine List.forall₂_map_right_iff.mpr (List.forall₂_same.mpr fun entry hentry => ?_)
    exact ⟨rfl, rfl, (r.inside_of_mem_entries here expr hentry).samePlace⟩
  · cases houtcome : (r.resolve here expr).outcome with
    | ok schema =>
        rw [Report.outcome_relocate_ok houtcome]
        exact ⟨rfl, fun part hpart => (r.inside_of_subtree here expr houtcome hpart).samePlace,
          Schema.serialize_relocate _ schema⟩
    | error failure =>
        rw [Report.outcome_relocate_error houtcome]
        cases failure with
        | unrepresentable context problem =>
            exact .unrepresentable problem (r.inside_of_failure here expr houtcome).samePlace
        | misuse misuse => exact .misuse misuse
        | malformed path defect =>
            exact absurd houtcome ((r.resolve_logged here expr).outcome_ne_malformed path defect)
        | exhausted resource =>
            exact absurd houtcome ((r.resolve_logged here expr).outcome_ne_exhausted resource)

/-- A list in a map, of something that is warned about: the context of an element says both. -/
theorem alike_of_map :
    let r : Resolver := {}
    let expr : TypeExpr := .generic "array" [.identifier "string", .arrayOf (.identifier "array")]
    ∃ schema part, (r.resolve "here" expr).outcome = .ok schema ∧ Schema.Subtree part schema ∧
      part.context = "here: additionalProperties: items" ∧
      SamePlace "here" "there" part.context (moved "here" "there" part.context) ∧
      (r.resolve "there" expr).outcome = .ok (schema.relocate (moved "here" "there")) := by
  intro r expr
  have hhere : ∃ schema, (r.resolve "here" expr).outcome = .ok schema ∧
      ∃ part, Schema.Subtree part schema ∧ part.context = "here: additionalProperties: items" :=
    ⟨_, rfl, _, .child List.mem_cons_self (.child List.mem_cons_self (.refl _)), rfl⟩
  have hthere : ∃ other, (r.resolve "there" expr).outcome = .ok other := ⟨_, rfl⟩
  obtain ⟨schema, hschema, part, hpart, hcontext⟩ := hhere
  obtain ⟨other, hother⟩ := hthere
  obtain ⟨-, halike⟩ := r.resolve_alike "here" expr "there"
  rw [hschema, hother] at halike
  obtain ⟨rfl, hplaces, -⟩ := halike
  exact ⟨schema, part, hschema, hpart, hcontext, hplaces part hpart, hother⟩

end Resolver

end Schemata
