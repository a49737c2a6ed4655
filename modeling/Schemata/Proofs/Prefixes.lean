import Schemata.Proofs.Contexts

/-!
# The text in front of references decides nothing

References start with a text that the configuration gives. Resolution puts it in front of a target,
where it first makes the reference, and from then on compares references and copies them. So one
run stands for those with every such text: it makes references that are bare targets, and a run
with a text in front of them is that run with the text put in front (`Resolver.resolve_prefixed`).
Different targets are different references, whatever is in front: what is the same as what, and so
what is dropped and what is merged, is the same in all of these runs.

`Resolver.resolve_respelled` compares two of them.
-/

namespace Schemata

namespace Config

/-- A reference is the text in front and the target, which does not depend on that text. -/
theorem reference_withRefPrefix (config : Config) (start name : Text) :
    { config with refPrefix := .str start }.reference name =
      (config.schemaNameOf name).map (start ++ ·) := by
  show (config.schemaNameOf name >>= fun target => pure (start ++ target)) = _
  cases config.schemaNameOf name <;> rfl

end Config

namespace Resolver

open Schema Report

/-- The resolver that puts this text in front of references. -/
def withRefPrefix (r : Resolver) (start : Text) : Resolver :=
  { r with config := { r.config with refPrefix := .str start } }

variable (r : Resolver) (start : Text)

theorem resolveReference_prefixed (context name : Text) :
    ((r.withRefPrefix []).resolveReference context name).relocate id
        (Schema.rewrite id (start ++ ·)) =
      (r.withRefPrefix start).resolveReference context name := by
  unfold resolveReference withRefPrefix
  simp only [Config.reference_withRefPrefix]
  split
  · rfl
  · rfl
  · cases r.config.schemaNameOf name with
    | ok target => rfl
    | error failure => cases failure <;> rfl

/-- **A run with a text in front of references is the one without, with the text put there.** -/
theorem resolve_prefixed (context : Text) (expr : TypeExpr) :
    ((r.withRefPrefix []).resolve context expr).relocate id (Schema.rewrite id (start ++ ·)) =
      (r.withRefPrefix start).resolve context expr := by
  have hrewrites : Rewrites id (start ++ ·) (r.withRefPrefix []) (r.withRefPrefix start) :=
    { strict := rfl
      injective := List.append_right_injective start
      references := fun h name => h.whole ▸ resolveReference_prefixed r start _ name }
  exact resolve_rewrite hrewrites (fun _ _ => rfl) expr

/-- **The text in front of references is opaque.** Run with two such texts, an expression has the same
diagnostics and fails with both or with neither, in the same way. The one schema is the other with
the one text for the other in front of every reference in it, and behind either stands the same
target. -/
theorem resolve_respelled (other context : Text) (expr : TypeExpr) :
    let here := (r.withRefPrefix start).resolve context expr
    let there := (r.withRefPrefix other).resolve context expr
    there.entries = here.entries ∧
      match here.outcome, there.outcome with
      | .ok schema, .ok respelled =>
        respelled = schema.rewrite id (moved start other) ∧
          ∀ part, Subtree part schema → ∀ ref ∈ part.ref,
            ∃ target, ref = start ++ target ∧ moved start other ref = other ++ target
      | .error failure, .error again => again = failure
      | _, _ => False := by
  intro here there
  have hmoved : ∀ target, moved start other (start ++ target) = other ++ target := fun target => by
    rw [moved, List.drop_left]
  have hhere : here = _ := (r.resolve_prefixed start context expr).symm
  have hthere : there = _ := (r.resolve_prefixed other context expr).symm
  rw [hhere, hthere]
  refine ⟨rfl, ?_⟩
  cases houtcome : ((r.withRefPrefix []).resolve context expr).outcome with
  | error failure =>
      rw [outcome_relocate_error houtcome, outcome_relocate_error houtcome]
  | ok bare =>
      rw [outcome_relocate_ok houtcome, outcome_relocate_ok houtcome]
      constructor
      · rw [rewrite_rewrite]
        exact congrArg (fun g => bare.rewrite id g) (funext fun target => (hmoved target).symm)
      · intro part hpart ref href
        obtain ⟨original, -, rfl⟩ := exists_part_of_rewrite id (start ++ ·) hpart
        rw [ref_rewrite] at href
        obtain ⟨target, -, rfl⟩ := Option.map_eq_some_iff.mp href
        exact ⟨target, rfl, hmoved target⟩

end Resolver

end Schemata
