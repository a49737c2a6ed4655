import Schemata.Proofs.Trees
import Schemata.Resolve

/-!
# The names in an expression

Resolution looks up the names that stand in the expression, and nothing else (`TypeExpr.names`). What is
defined, and whether recoverable problems are fatal, shows at the leaves of a run only: where a name
is looked up and where such a problem is recorded. The rest is sequencing. A problem that a part of the
expression has by its form shows no integers but those in a generic type (`TypeExpr.shown`).

So a relation between reports that sequencing keeps (`Report.Congruence`) holds between the runs of two
resolvers on an expression if it holds between their leaves (`Resolver.resolve_congr`). The induction
over the definition of resolution is done here, once. A property of a single run is a relation that
does not look at the other, such as of what kind its failures are (`FailsAs`).
-/

namespace Schemata

namespace TypeExpr

mutual

/-- The names that stand in an expression, without the backslash that may root them. Of the name of a
class it is the innermost part. -/
def names : TypeExpr → List Text
  | .identifier name => [name.unrooted]
  | .qualified parts => [(lastPart parts).unrooted]
  | .nullable inner => names inner
  | .union members => namesAmong members
  | .intersection members => namesAmong members
  | .arrayOf element => names element
  | .generic _ args => namesAmong args
  | .shape fields => namesOfFields fields
  | .literal _ => []
  | .described inner _ => names inner

/-- The names that stand in some expressions. -/
def namesAmong : List TypeExpr → List Text
  | [] => []
  | member :: rest => names member ++ namesAmong rest

/-- The names that stand in the types of some fields. -/
def namesOfFields : List (ShapeField TypeExpr) → List Text
  | [] => []
  | ⟨_, type, _⟩ :: rest => names type ++ namesOfFields rest

end

mutual

/-- The integers that a message about a part of an expression may show, which are those in generic
types. -/
def shown : TypeExpr → List Int
  | .identifier _ => []
  | .qualified _ => []
  | .nullable inner => shown inner
  | .union members => shownAmong members
  | .intersection members => shownAmong members
  | .arrayOf element => shown element
  | .generic _ args => integersAmong args
  | .shape fields => shownOfFields fields
  | .literal _ => []
  | .described inner _ => shown inner

/-- The integers that a message about a part of some expressions may show. -/
def shownAmong : List TypeExpr → List Int
  | [] => []
  | member :: rest => shown member ++ shownAmong rest

/-- The integers that a message about a part of some fields may show. -/
def shownOfFields : List (ShapeField TypeExpr) → List Int
  | [] => []
  | ⟨_, type, _⟩ :: rest => shown type ++ shownOfFields rest

end

theorem namesAmong_eq (members : List TypeExpr) : namesAmong members = members.flatMap names := by
  induction members with
  | nil => rfl
  | cons member rest ih => rw [namesAmong, ih, List.flatMap_cons]

theorem namesOfFields_eq (fields : List (ShapeField TypeExpr)) :
    namesOfFields fields = fields.flatMap fun field => field.type.names := by
  induction fields with
  | nil => rfl
  | cons field rest ih => rw [namesOfFields, ih, List.flatMap_cons]

/-- The names of a member are among those of the list. -/
theorem mem_namesAmong {members : List TypeExpr} {member : TypeExpr} (h : member ∈ members)
    {name : Text} (hname : name ∈ member.names) : name ∈ namesAmong members := by
  rw [namesAmong_eq]
  exact List.mem_flatMap.mpr ⟨member, h, hname⟩

theorem integersAmong_eq (members : List TypeExpr) :
    integersAmong members = members.flatMap integers := by
  induction members with
  | nil => rfl
  | cons member rest ih => rw [integersAmong, ih, List.flatMap_cons]

theorem integersOfFields_eq (fields : List (ShapeField TypeExpr)) :
    integersOfFields fields = fields.flatMap fun field => field.type.integers := by
  induction fields with
  | nil => rfl
  | cons field rest ih => rw [integersOfFields, ih, List.flatMap_cons]

theorem shownAmong_eq (members : List TypeExpr) : shownAmong members = members.flatMap shown := by
  induction members with
  | nil => rfl
  | cons member rest ih => rw [shownAmong, ih, List.flatMap_cons]

theorem shownOfFields_eq (fields : List (ShapeField TypeExpr)) :
    shownOfFields fields = fields.flatMap fun field => field.type.shown := by
  induction fields with
  | nil => rfl
  | cons field rest ih => rw [shownOfFields, ih, List.flatMap_cons]

/-- The integers that may be shown are in the expression. -/
theorem shown_subset (expr : TypeExpr) : expr.shown ⊆ expr.integers := by
  induction expr with
  | identifier name | qualified parts | literal value => exact List.nil_subset _
  | nullable inner ih | described inner description ih | arrayOf inner ih => exact ih
  | generic name args => exact List.Subset.refl _
  | union members ih | intersection members ih =>
      rw [shown, integers, shownAmong_eq, integersAmong_eq]
      intro value hvalue
      obtain ⟨member, hmember, hshown⟩ := List.mem_flatMap.mp hvalue
      exact List.mem_flatMap.mpr ⟨member, hmember, ih member hmember hshown⟩
  | shape fields ih =>
      rw [shown, integers, shownOfFields_eq, integersOfFields_eq]
      intro value hvalue
      obtain ⟨field, hfield, hshown⟩ := List.mem_flatMap.mp hvalue
      exact List.mem_flatMap.mpr ⟨field, hfield, ih field hfield hshown⟩

/-- What is shown of a member is shown of the list. -/
theorem shown_subset_among {members : List TypeExpr} {member : TypeExpr} (h : member ∈ members) :
    member.shown ⊆ shownAmong members := by
  rw [shownAmong_eq]
  exact fun value hvalue => List.mem_flatMap.mpr ⟨member, h, hvalue⟩

theorem shown_subset_ofFields {fields : List (ShapeField TypeExpr)} {field : ShapeField TypeExpr}
    (h : field ∈ fields) : field.type.shown ⊆ shownOfFields fields := by
  rw [shownOfFields_eq]
  exact fun value hvalue => List.mem_flatMap.mpr ⟨field, h, hvalue⟩

/-- Of a generic type, all integers in an argument are shown. -/
theorem shown_subset_generic {name : Text} {args : List TypeExpr} {arg : TypeExpr} (h : arg ∈ args) :
    arg.shown ⊆ (generic name args).shown := by
  rw [shown, integersAmong_eq]
  exact fun value hvalue => List.mem_flatMap.mpr ⟨arg, h, shown_subset arg hvalue⟩

theorem mem_namesOfFields {fields : List (ShapeField TypeExpr)} {field : ShapeField TypeExpr}
    (h : field ∈ fields) {name : Text} (hname : name ∈ field.type.names) :
    name ∈ namesOfFields fields := by
  rw [namesOfFields_eq]
  exact List.mem_flatMap.mpr ⟨field, h, hname⟩

end TypeExpr

/-- A problem that an expression has by its form, whatever is defined. -/
def Problem.isFormal : Problem → Bool
  | .unknownIdentifier _ => false
  | .custom _ => false
  | _ => true

/-- A relation between reports that sequencing keeps. The problems that an expression has by its form,
and in which no other integers are shown, are related to themselves. -/
structure Report.Congruence (shown : List Int) (R : (α : Type) → Report α → Report α → Prop) :
    Prop where
  pure : ∀ {α : Type} (value : α), R α (pure value) (pure value)
  bind : ∀ {α β : Type} {left right : Report α} {next other : α → Report β},
    R α left right → (∀ value, R β (next value) (other value)) →
      R β (left >>= next) (right >>= other)
  panic : ∀ (context : Text) (problem : Problem), problem.isFormal = true →
    problem.integers ⊆ shown →
      R Schema (Report.panic context problem) (Report.panic context problem)

theorem Report.Congruence.mono {R : (α : Type) → Report α → Report α → Prop} {shown more : List Int}
    (h : Congruence more R) (hsubset : shown ⊆ more) : Congruence shown R :=
  ⟨h.pure, h.bind, fun context problem hformal hshown =>
    h.panic context problem hformal (List.Subset.trans hshown hsubset)⟩

/-- If it is no result then it is a failure of that kind. -/
def FailsAs {ε α : Type} (P : ε → Prop) (result : Except ε α) : Prop :=
  ∀ failure, result = .error failure → P failure

namespace FailsAs

variable {ε α β : Type} {P : ε → Prop}

theorem ok (value : α) : FailsAs P (.ok value) := nofun

theorem error {failure : ε} (h : P failure) : FailsAs P (.error failure : Except ε α) := by
  rintro other ⟨⟩
  exact h

theorem bind {result : Except ε α} {next : α → Except ε β} (h : FailsAs P result)
    (hnext : ∀ value, FailsAs P (next value)) : FailsAs P (result.bind next) := by
  cases result with
  | error failure => exact error (h failure rfl)
  | ok value => exact hnext value

end FailsAs

namespace Report

variable {P : Failure → Prop}

theorem failsAs_bind {α β : Type} {report : Report α} {next : α → Report β}
    (h : FailsAs P report.outcome) (hnext : ∀ value, FailsAs P (next value).outcome) :
    FailsAs P (report >>= next).outcome := by
  rw [outcome_bind]
  exact h.bind hnext

/-- Sequencing keeps the kinds of failures. -/
theorem congruence_failsAs {shown : List Int}
    (h : ∀ context problem, problem.isFormal = true → problem.integers ⊆ shown →
      P (.unrepresentable context problem)) :
    Congruence shown fun _ report _ => FailsAs P report.outcome where
  pure := .ok
  bind := failsAs_bind
  panic context problem hformal hshown := .error (h context problem hformal hshown)

end Report

namespace Resolver

/-- What two resolvers do at the leaves of an expression is related. -/
structure LeavesRelated (R : (α : Type) → Report α → Report α → Prop) (r r' : Resolver)
    (names : List Text) : Prop where
  recoverable : ∀ (cause : Bool) (context : Text) (problem : Problem), problem.isFormal = true →
    problem.integers = [] → R Unit (r.errorIf cause context problem) (r'.errorIf cause context problem)
  reference : ∀ name ∈ names, Builtin.ofName? name = none → ∀ context,
    R Schema (r.resolveReference context name) (r'.resolveReference context name)

variable {R : (α : Type) → Report α → Report α → Prop} {r r' : Resolver} {shown : List Int}

theorem LeavesRelated.mono {names more : List Text} (h : LeavesRelated R r r' more)
    (hsubset : ∀ name ∈ names, name ∈ more) : LeavesRelated R r r' names :=
  ⟨h.recoverable, fun name hname => h.reference name (hsubset name hname)⟩

theorem LeavesRelated.ofNil {names : List Text} (h : LeavesRelated R r r' names) :
    LeavesRelated R r r' [] :=
  h.mono fun _ hname => absurd hname List.not_mem_nil

theorem resolveIdentifier_congr (congruence : Report.Congruence shown R) {name : Text}
    (h : LeavesRelated R r r' [name.unrooted]) (context : Text) :
    R Schema (r.resolveIdentifier context name) (r'.resolveIdentifier context name) := by
  refine congruence.bind (h.recoverable _ _ _ rfl rfl) fun _ => ?_
  cases hbuiltin : Builtin.ofName? name.unrooted with
  | some builtin => exact congruence.pure _
  | none => exact h.reference _ List.mem_cons_self hbuiltin context

theorem resolveFields_congr (congruence : Report.Congruence shown R)
    {fields : List (ShapeField TypeExpr)} {context : Text}
    (h : ∀ field ∈ fields, R Schema (r.resolve context field.type) (r'.resolve context field.type)) :
    R _ (r.resolveFields context fields) (r'.resolveFields context fields) := by
  induction fields with
  | nil => exact congruence.pure _
  | cons field fields ih =>
      obtain ⟨hfield, hfields⟩ := List.forall_mem_cons.mp h
      exact congruence.bind hfield fun _ => congruence.bind (ih hfields) fun _ => congruence.pure _

theorem resolveMembers_congr (congruence : Report.Congruence shown R) {members : List TypeExpr}
    {context : Text} (hleaves : LeavesRelated R r r' [])
    (h : ∀ member ∈ members, R Schema (r.resolve context member) (r'.resolve context member)) :
    R _ (r.resolveMembers context members) (r'.resolveMembers context members) := by
  induction members with
  | nil => exact congruence.pure _
  | cons member members ih =>
      obtain ⟨hmember, hmembers⟩ := List.forall_mem_cons.mp h
      simp only [resolveMembers]
      split
      · exact congruence.bind (ih hmembers) fun _ => congruence.pure _
      · refine congruence.bind (hleaves.recoverable _ _ _ rfl rfl) fun _ => ?_
        refine congruence.bind hmember fun _ => ?_
        exact congruence.bind (ih hmembers) fun _ => congruence.pure _

/-- **Two runs on an expression are related if their leaves are.** -/
theorem resolve_congr {expr : TypeExpr} (congruence : Report.Congruence expr.shown R)
    (h : LeavesRelated R r r' expr.names) (context : Text) :
    R Schema (r.resolve context expr) (r'.resolve context expr) := by
  induction expr generalizing context with
  | identifier name | qualified parts =>
      simp only [resolve]
      exact resolveIdentifier_congr congruence h context
  | nullable inner ih | described inner description ih =>
      simp only [resolve]
      exact congruence.bind (ih congruence h context) fun _ => congruence.pure _
  | arrayOf element ih =>
      simp only [resolve]
      exact congruence.bind (ih congruence h _) fun _ => congruence.pure _
  | generic name args ih =>
      have hargs : ∀ arg ∈ args, ∀ context,
          R Schema (r.resolve context arg) (r'.resolve context arg) :=
        fun arg harg => ih arg harg (congruence.mono (TypeExpr.shown_subset_generic harg))
          (h.mono fun _ => TypeExpr.mem_namesAmong harg)
      have hplain : ∀ problem : Problem, problem.isFormal = true → problem.integers = [] →
          R Schema (Report.panic context problem) (Report.panic context problem) :=
        fun problem hformal hnone =>
          congruence.panic context problem hformal (hnone ▸ List.nil_subset _)
      -- the message shows the whole type
      have hwhole : R Schema (Report.panic context (.noRule (.generic name args)))
          (Report.panic context (.noRule (.generic name args))) :=
        congruence.panic context _ rfl (List.Subset.refl _)
      unfold resolve
      split
      · exact hplain _ rfl rfl
      · split
        · -- one argument: a list
          split
          · split
            · exact congruence.pure _
            · exact congruence.bind (hargs _ List.mem_cons_self _) fun _ => congruence.pure _
          · exact hwhole
        · -- two arguments: a map or a range
          next first second =>
          split
          · split
            · split
              · have hsecond := hargs second (List.mem_cons_of_mem _ List.mem_cons_self)
                exact congruence.bind (hsecond _) fun _ => congruence.pure _
              · exact hplain _ rfl rfl
            · exact hwhole
          · split
            · exact congruence.pure _
            · exact hwhole
        · exact hwhole
  | shape fields ih =>
      have hfields : ∀ field ∈ fields,
          R Schema (r.resolve context field.type) (r'.resolve context field.type) :=
        fun field hfield => ih field hfield (congruence.mono (TypeExpr.shown_subset_ofFields hfield))
          (h.mono fun _ => TypeExpr.mem_namesOfFields hfield) _
      simp only [resolve]
      exact congruence.bind (resolveFields_congr congruence hfields) fun _ => congruence.pure _
  | literal value =>
      simp only [resolve]
      split
      · exact congruence.pure _
      · exact congruence.panic _ _ rfl (List.nil_subset _)
  | union members ih =>
      have hmembers : ∀ member ∈ members,
          R Schema (r.resolve context member) (r'.resolve context member) :=
        fun member hmember => ih member hmember (congruence.mono (TypeExpr.shown_subset_among hmember))
          (h.mono fun _ => TypeExpr.mem_namesAmong hmember) _
      have hgathered := resolveMembers_congr congruence h.ofNil hmembers
      simp only [resolve]
      split
      · exact congruence.panic _ _ rfl (List.nil_subset _)
      · split
        · exact congruence.pure _
        · exact congruence.bind hgathered fun _ => congruence.pure _
  | intersection members ih =>
      have hmembers : ∀ member ∈ members,
          R Schema (r.resolve context member) (r'.resolve context member) :=
        fun member hmember => ih member hmember (congruence.mono (TypeExpr.shown_subset_among hmember))
          (h.mono fun _ => TypeExpr.mem_namesAmong hmember) _
      have hgathered := resolveMembers_congr congruence h.ofNil hmembers
      simp only [resolve]
      split
      · exact congruence.panic _ _ rfl (List.nil_subset _)
      · exact congruence.bind hgathered fun _ => congruence.pure _

end Resolver

end Schemata
