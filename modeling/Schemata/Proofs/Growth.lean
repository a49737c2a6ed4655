import Schemata.Proofs.Names
import Schemata.Proofs.Resolution
import Schemata.Session

/-!
# More definitions

A resolver that knows more resolves more, and what the other resolves it resolves in the same way:

* **reports** — a report is kept by another if, should it end well, the other is the same report
  (`Report.KeptBy`). Sequencing keeps this;
* **resolution** — a resolver is extended by another of the same settings that mentions every name it
  mentions itself (`Resolver.ExtendedBy`). At the leaves, a reference is built from the settings, and
  a name that is not mentioned ends the run (`Resolver.leavesKept`); so every run is kept;
* **sessions** — an action that changes no setting and takes no definition away extends the resolver of
  the session, and so do any number of them (`Session.extendedBy_actAll`).

`Resolver.resolve_keptBy_extension` puts them together.
-/

namespace Schemata

namespace Report

variable {α β : Type}

/-- If the report ends well then the other one is the same. -/
def KeptBy (report other : Report α) : Prop :=
  ∀ value, report.outcome = .ok value → other = report

theorem KeptBy.bind {report other : Report α} {next nextOther : α → Report β}
    (h : report.KeptBy other) (hnext : ∀ value, (next value).KeptBy (nextOther value)) :
    (report >>= next).KeptBy (other >>= nextOther) := by
  intro result hresult
  obtain ⟨value, hvalue, hlast⟩ := outcome_bind_ok_iff.mp hresult
  obtain rfl := h value hvalue
  obtain ⟨entries, outcome⟩ := other
  obtain rfl : outcome = .ok value := hvalue
  simp only [Bind.bind, hnext value result hlast]

theorem congruence_keptBy {shown : List Int} : Congruence shown fun _ => KeptBy where
  pure _ := fun _ _ => rfl
  bind := KeptBy.bind
  panic _ _ _ _ := fun _ _ => rfl

end Report

namespace Resolver

/-- The other resolver has the same settings and mentions every name that this one mentions. -/
structure ExtendedBy (r r' : Resolver) : Prop where
  config : r'.config = r.config
  strict : r'.strict = r.strict
  definitions : ∀ name, r.definitions.mentions? name = some true →
    r'.definitions.mentions? name = some true

theorem ExtendedBy.refl (r : Resolver) : r.ExtendedBy r := ⟨rfl, rfl, fun _ h => h⟩

theorem ExtendedBy.trans {r r' r'' : Resolver} (h : r.ExtendedBy r') (h' : r'.ExtendedBy r'') :
    r.ExtendedBy r'' :=
  ⟨h'.config.trans h.config, h'.strict.trans h.strict,
    fun name hname => h'.definitions name (h.definitions name hname)⟩

/-- Of lists of definitions: with the same settings and every name of the one list in the other. -/
theorem extendedBy_of_lists {config : Config} {strict : Bool} {known more : List Json}
    (h : ∀ name, .str name ∈ known → .str name ∈ more) :
    ExtendedBy { definitions := .arr known, config, strict }
      { definitions := .arr more, config, strict } :=
  ⟨rfl, rfl, fun name hname => Json.mentions?_arr_iff.mpr (h name (Json.mentions?_arr_iff.mp hname))⟩

/-- What is recorded depends on the settings; a name that is not mentioned ends the run, and the
reference to one that is depends on the settings too. -/
theorem leavesKept {r r' : Resolver} (h : r.ExtendedBy r') (names : List Text) :
    LeavesRelated (fun _ => Report.KeptBy) r r' names := by
  constructor
  case recoverable =>
    intro cause context problem _ _ u _
    rw [errorIf, errorIf, h.strict]
  case reference =>
    intro name _ _ context schema hschema
    cases hmentioned : r.definitions.mentions? name with
    | none => simp [resolveReference, hmentioned, Report.fail] at hschema
    | some mentioned =>
        cases mentioned with
        | false => simp [resolveReference, hmentioned, Report.panic] at hschema
        | true =>
            unfold resolveReference
            rw [hmentioned, h.definitions name hmentioned, h.config]

/-- A run on an expression is kept by a resolver that knows more. -/
theorem resolve_keptBy {r r' : Resolver} (h : r.ExtendedBy r') (context : Text) (expr : TypeExpr) :
    (r.resolve context expr).KeptBy (r'.resolve context expr) :=
  resolve_congr Report.congruence_keptBy (leavesKept h expr.names) context

theorem schemaOf_keptBy {r r' : Resolver} (h : r.ExtendedBy r') (base context : Text) (node : Json)
    (default? : Option Json) :
    (r.schemaOf base context node default?).KeptBy (r'.schemaOf base context node default?) := by
  rw [schemaOf_eq, schemaOf_eq]
  refine Report.KeptBy.bind (fun _ _ => rfl) fun expr => ?_
  refine (resolve_keptBy h context expr).bind fun _ => ?_
  exact fun _ _ => rfl

end Resolver

namespace Session

/-- Whether an action leaves the settings as they are and takes no definition away. -/
def Action.onlyAdds : Action → Bool
  | .setStrict _ => false
  | .undefine _ => false
  | .configure _ => false
  | _ => true

/-- One action that only adds extends the resolver of the session. -/
theorem extendedBy_act (session : Session) {action : Action} (h : action.onlyAdds = true) :
    session.resolver.ExtendedBy (session.act action).1.resolver := by
  have hreport : ∀ report : Report Unit,
      session.resolver.ExtendedBy (session.report report).1.resolver := by
    intro report
    unfold Session.report
    split <;> exact .refl _
  cases action with
  | define name =>
      refine ⟨rfl, rfl, fun known hknown => ?_⟩
      simp only [act, resolver, Json.mentions?, List.any_append, Option.some.injEq,
        Bool.or_eq_true] at hknown ⊢
      exact .inl hknown
  | error context message => exact hreport _
  | panic context message => exact hreport _
  | resolve context node default? parameter => exact .refl _
  | errors => exact .refl _
  | entries => exact .refl _
  | setStrict strict => exact absurd h Bool.false_ne_true
  | undefine name => exact absurd h Bool.false_ne_true
  | configure fields => exact absurd h Bool.false_ne_true

/-- Any number of actions that only add extend the resolver of the session. -/
theorem extendedBy_actAll (session : Session) {actions : List Action}
    (h : ∀ action ∈ actions, action.onlyAdds = true) :
    session.resolver.ExtendedBy (session.actAll actions).1.resolver := by
  induction actions generalizing session with
  | nil => exact .refl _
  | cons action rest ih =>
      obtain ⟨haction, hrest⟩ := List.forall_mem_cons.mp h
      exact (extendedBy_act session haction).trans (ih _ hrest)

end Session

namespace Resolver

/-- **More definitions change nothing that resolved.** If an expression resolves then a resolver that
knows more gives the same report, schema and diagnostics alike; so if it fails, the one that knows less
fails too. In a session, what was resolved once is resolved to the same schema, with the same
diagnostics, after any actions that only add. -/
theorem resolve_keptBy_extension :
    (∀ (r r' : Resolver), r.ExtendedBy r' → ∀ context expr,
      (∀ schema, (r.resolve context expr).outcome = .ok schema →
        r'.resolve context expr = r.resolve context expr) ∧
      ∀ failure, (r'.resolve context expr).outcome = .error failure →
        ∃ failure, (r.resolve context expr).outcome = .error failure) ∧
    ∀ (session : Session) (actions : List Session.Action),
      (∀ action ∈ actions, action.onlyAdds = true) → ∀ context node default? parameter result recorded,
        (session.act (.resolve context node default? parameter)).2 =
          .resolved (.ok result) recorded →
        ((session.actAll actions).1.act (.resolve context node default? parameter)).2 =
          .resolved (.ok result) recorded := by
  constructor
  · intro r r' h context expr
    have hkept := resolve_keptBy h context expr
    refine ⟨hkept, fun failure hfailure => ?_⟩
    cases houtcome : (r.resolve context expr).outcome with
    | error failure => exact ⟨failure, rfl⟩
    | ok schema =>
        rw [hkept schema houtcome, houtcome] at hfailure
        cases hfailure
  · intro session actions h context node default? parameter result recorded hanswer
    have hkept := schemaOf_keptBy (session.extendedBy_actAll h) "$" context node default?
    cases houtcome : (session.resolver.schemaOf "$" context node default?).outcome with
    | error failure =>
        simp only [Session.act, houtcome, Except.map] at hanswer
        cases hanswer
    | ok schema =>
        have hsame := hkept schema houtcome
        simp only [Session.act] at hanswer ⊢
        rw [hsame]
        exact hanswer

/-- A union that mentions a definition, and is warned about, resolves as before when a definition is put
in front, and a name that is unknown then was so before. A session that took that definition in answers
as before. -/
theorem item_kept_by_more_definitions :
    let expr : TypeExpr := .union [.identifier "\\Item", .identifier "array"]
    let r : Resolver := { definitions := .arr [.str "Item"] }
    let r' : Resolver := { definitions := .arr [.str "Note", .str "Item"] }
    let node : Json := .obj [("kind", .str "identifier"), ("name", .str "\\Item")]
    let session : Session := { definitions := [.str "Item"] }
    let actions : List Session.Action := [.resolve "$" node none false, .define (.str "Note")]
    (∃ schema, (r.resolve "$" expr).outcome = .ok schema) ∧
      r'.resolve "$" expr = r.resolve "$" expr ∧
      (∃ failure, (r.resolve "$" (.identifier "Other")).outcome = .error failure) ∧
      ∃ result, (session.act (.resolve "$" node none false)).2 = .resolved (.ok result) [] ∧
        ((session.actAll actions).1.act (.resolve "$" node none false)).2 =
          .resolved (.ok result) [] := by
  intro expr r r' node session actions
  obtain ⟨hresolvers, hsessions⟩ := resolve_keptBy_extension
  have hextended : r.ExtendedBy r' := extendedBy_of_lists fun _ h => List.mem_cons_of_mem _ h
  have hends : ∃ schema, (r.resolve "$" expr).outcome = .ok schema := ⟨_, rfl⟩
  obtain ⟨schema, h⟩ := hends
  refine ⟨⟨schema, h⟩, (hresolvers r r' hextended "$" expr).1 schema h,
    (hresolvers r r' hextended "$" (.identifier "Other")).2 _ rfl, ?_⟩
  have hanswers : ∃ result, (session.act (.resolve "$" node none false)).2 =
      .resolved (.ok result) [] := ⟨_, rfl⟩
  obtain ⟨result, hanswer⟩ := hanswers
  refine ⟨result, hanswer, hsessions session actions (fun action haction => ?_) _ _ _ _ _ _ hanswer⟩
  -- neither action takes anything away
  rcases List.mem_pair.mp haction with rfl | rfl <;> rfl

end Resolver

end Schemata
