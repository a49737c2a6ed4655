import Schemata.Proofs.Rewriting
import Schemata.Resolve

/-!
# Runs on rewritten schemas

A map of contexts that takes all that stands inside of one place to the same inside of another
(`Moves`), and a map of references, rewrite what a run records and what it ends with
(`Report.relocate`). The run that is rewritten is a run too: in the other place, and by a resolver
that makes the other references.

* **what is asked of the resolvers** — that they are equally strict, and that what the one says of
  a name that is not built in is what the other says of it, rewritten (`Resolver.Rewrites`);
* **a step** — each way to resolve an expression or to gather members keeps what is so of the parts
  (`Report.relocate_bind`, `Members.add_rewrite`, `Resolver.combined_rewrite`);
* **a run** — so it is so of every run (`Resolver.resolve_rewrite`).
-/

namespace Schemata

namespace Members

/-- The members with other contexts and other references in them. -/
def rewrite (f g : Text → Text) (members : Members) : Members :=
  ⟨members.nullable, members.schemas.map (Schema.rewrite f g)⟩

theorem add_eq {schema rest : Schema} (hrest : { schema with nullable := false } = rest)
    (members : Members) :
    add schema members =
      if schema.nullable then
        if rest.same {} then members.addNull else ⟨true, rest :: members.schemas⟩
      else ⟨members.nullable, schema :: members.schemas⟩ := by
  subst hrest
  rfl

theorem add_rewrite (f : Text → Text) {g : Text → Text} (hg : Function.Injective g)
    (schema : Schema) (members : Members) :
    (add schema members).rewrite f g = add (schema.rewrite f g) (members.rewrite f g) := by
  have hempty : ∀ rest : Schema, (rest.rewrite f g).same {} = rest.same {} := fun rest =>
    Bool.eq_iff_iff.mpr (Schema.same_rewrite_empty_iff hg)
  rw [add_eq rfl, add_eq (Schema.rewrite_withNullable f g schema false).symm,
    Schema.nullable_rewrite, hempty]
  split
  · split <;> rfl
  · rfl

end Members

/-- The diagnostic with another context. -/
def Diagnostic.relocate (f : Text → Text) (d : Diagnostic) : Diagnostic :=
  { d with context := f d.context }

/-- The failure with another context, if it has one. -/
def Failure.relocate (f : Text → Text) : Failure → Failure
  | .unrepresentable context problem => .unrepresentable (f context) problem
  | failure => failure

namespace Report

variable {α β γ δ : Type} {f : Text → Text}

/-- The report with another context for every context in it; `move` does this to the result. -/
def relocate (f : Text → Text) (move : α → β) (report : Report α) : Report β :=
  ⟨report.entries.map (Diagnostic.relocate f),
    (report.outcome.map move).mapError (Failure.relocate f)⟩

theorem outcome_relocate_ok {report : Report α} {move : α → β} {value : α}
    (h : report.outcome = .ok value) :
    (report.relocate f move).outcome = .ok (move value) := by
  rw [relocate, h]
  rfl

theorem outcome_relocate_error {report : Report α} {move : α → β} {failure : Failure}
    (h : report.outcome = .error failure) :
    (report.relocate f move).outcome = .error (failure.relocate f) := by
  rw [relocate, h]
  rfl

/-- A computation in two steps is moved step by step. -/
theorem relocate_bind {report : Report α} {other : Report γ} {next : α → Report β}
    {nextOther : γ → Report δ} {move : α → γ} {moveNext : β → δ}
    (h : report.relocate f move = other)
    (hnext : ∀ value, (next value).relocate f moveNext = nextOther (move value)) :
    (report >>= next).relocate f moveNext = other >>= nextOther := by
  subst h
  obtain ⟨entries, outcome⟩ := report
  cases outcome with
  | error failure => rfl
  | ok value =>
      show _ = Report.mk (entries.map (Diagnostic.relocate f) ++ (nextOther (move value)).entries)
        (nextOther (move value)).outcome
      rw [← hnext]
      show Report.mk ((entries ++ (next value).entries).map _) _ = _
      rw [List.map_append]
      rfl

end Report

/-- What resolution puts behind the context of an expression, on the way to a part of it: something
for each list `T[]` and each map around the part. -/
inductive IsTrail : Text → Prop
  | whole : IsTrail []
  | items {trail : Text} : IsTrail trail → IsTrail (": items" ++ trail)
  | values {trail : Text} : IsTrail trail → IsTrail (": additionalProperties" ++ trail)

/-- `f` takes every place inside of `here` to the same one inside of `there`. -/
def Moves (f : Text → Text) (here there : Text) : Prop :=
  ∀ trail, IsTrail trail → f (here ++ trail) = there ++ trail

namespace Moves

variable {f : Text → Text} {here there : Text}

theorem whole (h : Moves f here there) : f here = there := by
  simpa using h [] .whole

theorem items (h : Moves f here there) : Moves f (here ++ ": items") (there ++ ": items") := by
  intro trail htrail
  rw [List.append_assoc, List.append_assoc]
  exact h _ htrail.items

theorem values (h : Moves f here there) :
    Moves f (here ++ ": additionalProperties") (there ++ ": additionalProperties") := by
  intro trail htrail
  rw [List.append_assoc, List.append_assoc]
  exact h _ htrail.values

end Moves

namespace Resolver

open Report

/-- The other resolver is as strict, and what it says of a name that is not built in, in the other
place, is what the one says of it, rewritten. -/
structure Rewrites (f g : Text → Text) (r r' : Resolver) : Prop where
  strict : r'.strict = r.strict
  injective : Function.Injective g
  references : ∀ {here there : Text}, Moves f here there → ∀ name,
    (r.resolveReference here name).relocate f (Schema.rewrite f g) = r'.resolveReference there name

variable {f g : Text → Text} {r r' : Resolver} {here there : Text}

theorem errorIf_rewrite (hr : Rewrites f g r r') (h : Moves f here there) (cause : Bool)
    (problem : Problem) :
    (r.errorIf cause here problem).relocate f id = r'.errorIf cause there problem := by
  unfold errorIf Report.error
  rw [← h.whole, hr.strict]
  split
  · split <;> rfl
  · rfl

theorem resolveIdentifier_rewrite (hr : Rewrites f g r r') (h : Moves f here there)
    (name : Text) :
    (r.resolveIdentifier here name).relocate f (Schema.rewrite f g) =
      r'.resolveIdentifier there name := by
  refine relocate_bind (errorIf_rewrite hr h _ _) fun _ => ?_
  cases Builtin.ofName? name.unrooted with
  | none => exact hr.references h _
  | some builtin =>
      rw [← h.whole]
      cases builtin <;> rfl

/-- A problem is met in the other place. -/
theorem panic_rewrite (h : Moves f here there) (problem : Problem) :
    (Report.panic here problem).relocate f (Schema.rewrite f g) = Report.panic there problem := by
  rw [← h.whole]
  rfl

theorem ofTextLiterals_rewrite (h : Moves f here there) (texts : List Text) :
    (Schema.ofTextLiterals here texts).rewrite f g = Schema.ofTextLiterals there texts := by
  unfold Schema.ofTextLiterals
  rw [← h.whole]
  split <;> rfl

theorem ofIntLiterals_rewrite (h : Moves f here there) (values : List Int) :
    (Schema.ofIntLiterals here values).rewrite f g = Schema.ofIntLiterals there values := by
  rw [← h.whole]
  rfl

theorem ofLiterals?_rewrite (h : Moves f here there) (members : List TypeExpr) :
    (Schema.ofLiterals? here members).map (Schema.rewrite f g) =
      Schema.ofLiterals? there members := by
  unfold Schema.ofLiterals?
  split
  · rfl
  · split
    · exact congrArg some (ofTextLiterals_rewrite h _)
    · exact congrArg some (ofIntLiterals_rewrite h _)
    · rfl

theorem ofLiteral?_rewrite (h : Moves f here there) (value : Json) :
    (Schema.ofLiteral? here value).map (Schema.rewrite f g) = Schema.ofLiteral? there value := by
  cases value with
  | str text => exact congrArg some (ofTextLiterals_rewrite h _)
  | int value => exact congrArg some (ofIntLiterals_rewrite h _)
  | _ => rfl

theorem ofShape_rewrite (h : Moves f here there) (fields : List (ShapeField TypeExpr))
    (schemas : Fields Schema) :
    (Schema.ofShape here fields schemas).rewrite f g =
      Schema.ofShape there fields (schemas.map fun field => (field.1, field.2.rewrite f g)) := by
  rw [← h.whole, Schema.rewrite_eq]
  unfold Schema.ofShape
  rw [Fields.ofList_map]
  rfl

theorem resolveFields_rewrite {fields : List (ShapeField TypeExpr)}
    (h : ∀ field ∈ fields, (r.resolve here field.type).relocate f (Schema.rewrite f g) =
      r'.resolve there field.type) :
    (r.resolveFields here fields).relocate f
        (List.map fun field => (field.1, field.2.rewrite f g)) = r'.resolveFields there fields := by
  induction fields with
  | nil => rfl
  | cons field fields ih =>
      obtain ⟨hfield, hfields⟩ := List.forall_mem_cons.mp h
      exact relocate_bind hfield fun _ => relocate_bind (ih hfields) fun _ => rfl

theorem resolveMembers_rewrite (hr : Rewrites f g r r') (hmoves : Moves f here there)
    {members : List TypeExpr}
    (h : ∀ member ∈ members, (r.resolve here member).relocate f (Schema.rewrite f g) =
      r'.resolve there member) :
    (r.resolveMembers here members).relocate f (Members.rewrite f g) =
      r'.resolveMembers there members := by
  induction members with
  | nil => rfl
  | cons member members ih =>
      obtain ⟨hmember, hmembers⟩ := List.forall_mem_cons.mp h
      simp only [resolveMembers]
      split
      · exact relocate_bind (ih hmembers) fun _ => rfl
      · refine relocate_bind (errorIf_rewrite hr hmoves _ _) fun _ => ?_
        refine relocate_bind hmember fun schema => ?_
        refine relocate_bind (ih hmembers) fun others => ?_
        rw [← Members.add_rewrite f hr.injective]
        rfl

theorem combined_rewrite (hr : Rewrites f g r r') (hmoves : Moves f here there)
    {members : List TypeExpr}
    (h : ∀ member ∈ members, (r.resolve here member).relocate f (Schema.rewrite f g) =
      r'.resolve there member)
    (junction : Junction) :
    (do
      let resolved ← r.resolveMembers here members
      return Schema.combine here resolved.schemas resolved.nullable junction :
        Report Schema).relocate f (Schema.rewrite f g) =
      (do
        let resolved ← r'.resolveMembers there members
        return Schema.combine there resolved.schemas resolved.nullable junction) := by
  refine relocate_bind (resolveMembers_rewrite hr hmoves h) fun resolved => ?_
  rw [← hmoves.whole]
  exact congrArg (fun schema => (pure schema : Report Schema))
    (Schema.combine_rewrite f hr.injective here resolved.schemas resolved.nullable junction).symm

/-- **A run in the other place, by the other resolver, is the run, rewritten.** -/
theorem resolve_rewrite (hr : Rewrites f g r r') (h : Moves f here there) (expr : TypeExpr) :
    (r.resolve here expr).relocate f (Schema.rewrite f g) = r'.resolve there expr := by
  induction expr generalizing here there with
  | identifier name | qualified parts =>
      simp only [resolve]
      exact resolveIdentifier_rewrite hr h _
  | nullable inner ih =>
      simp only [resolve]
      refine relocate_bind (ih h) fun schema => ?_
      rw [← Schema.rewrite_withNullable]
      rfl
  | described inner description ih =>
      simp only [resolve]
      refine relocate_bind (ih h) fun schema => ?_
      rw [← Schema.rewrite_withDescription]
      rfl
  | arrayOf element ih =>
      simp only [resolve]
      refine relocate_bind (ih h.items) fun schema => ?_
      rw [← h.whole]
      rfl
  | generic name args ih =>
      unfold resolve
      split
      · exact panic_rewrite h _
      · split
        · -- one argument: a list
          split
          · split
            · rw [← h.whole]
              rfl
            · refine relocate_bind (ih _ List.mem_cons_self h) fun schema => ?_
              rw [← h.whole]
              rfl
          · exact panic_rewrite h _
        · -- two arguments: a map or a range
          next first second =>
          split
          · split
            · split
              · have hsecond := ih second (List.mem_cons_of_mem _ List.mem_cons_self) h.values
                refine relocate_bind hsecond fun schema => ?_
                rw [← h.whole]
                rfl
              · exact panic_rewrite h _
            · exact panic_rewrite h _
          · split
            · rw [← h.whole]
              rfl
            · exact panic_rewrite h _
        · exact panic_rewrite h _
  | shape fields ih =>
      simp only [resolve]
      have hfields := resolveFields_rewrite fun field hfield => ih field hfield h
      refine relocate_bind hfields fun schemas => ?_
      rw [← ofShape_rewrite h]
      rfl
  | literal value =>
      simp only [resolve]
      rw [← ofLiteral?_rewrite h]
      cases Schema.ofLiteral? here value with
      | some schema => rfl
      | none => exact panic_rewrite h _
  | union members ih =>
      simp only [resolve]
      split
      · exact panic_rewrite h _
      · rw [← ofLiterals?_rewrite h]
        cases Schema.ofLiterals? here members with
        | some schema => rfl
        | none => exact combined_rewrite hr h (fun member hmember => ih member hmember h) _
  | intersection members ih =>
      simp only [resolve]
      split
      · exact panic_rewrite h _
      · exact combined_rewrite hr h (fun member hmember => ih member hmember h) _

end Resolver

end Schemata
