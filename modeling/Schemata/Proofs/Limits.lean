import Schemata.Machine
import Schemata.Proofs.Faults
import Schemata.Proofs.Logging

/-!
# Where a machine has to show an integer

A machine may turn only so many digits into a text, so it matters which integers of a value have to be
shown while it is read and resolved. They are in three places (`Json.Shows`): in the kind of an object, in the
key of an object, and in the arguments of a generic type.

* **reading** — a kind that there is not, and the key of a field of a shape, are shown as they are read
  (`DecodeError.IsOf`). What is read has no integers but those of the value, and those in generic types are
  among the arguments of one (`TypeExpr.isHeld`);
* **reading without a limit** — a value that is read is read the same without a limit (`TypeExpr.isKept`);
* **resolving** — the message of a problem shows integers of a generic type only
  (`Resolver.shown_of_error`).

So where digits run out a value shows an integer of too many digits
(`Machine.schemaOf_failsAs`).
-/

namespace Schemata

namespace Json

/-- The integers in a value are its parts. -/
theorem mem_integers_iff {number : Int} {value : Json} :
    number ∈ value.integers ↔ IsPart (.int number) value := by
  have hitems : ∀ items : List Json, integersAmong items = items.flatMap integers := by
    intro items
    induction items with
    | nil => rfl
    | cons item rest ih => rw [integersAmong, ih, List.flatMap_cons]
  have hfields : ∀ fields : Fields Json,
      integersOfFields fields = fields.flatMap fun field => field.2.integers := by
    intro fields
    induction fields with
    | nil => rfl
    | cons field rest ih => rw [integersOfFields, ih, List.flatMap_cons]
  induction value with
  | int value =>
      rw [integers, List.mem_singleton]
      refine ⟨fun h => h ▸ .refl _, fun h => ?_⟩
      cases h
      rfl
  | arr items ih =>
      rw [integers, hitems, List.mem_flatMap]
      constructor
      · rintro ⟨item, hitem, hnumber⟩
        exact .item hitem ((ih item hitem).mp hnumber)
      · intro h
        cases h with
        | item hitem hpart => exact ⟨_, hitem, (ih _ hitem).mpr hpart⟩
  | obj fields ih =>
      rw [integers, hfields, List.mem_flatMap]
      constructor
      · rintro ⟨field, hfield, hnumber⟩
        exact .field hfield ((ih field hfield).mp hnumber)
      · intro h
        cases h with
        | field hfield hpart => exact ⟨_, hfield, (ih _ hfield).mpr hpart⟩
  | _ => exact iff_of_false List.not_mem_nil nofun

/-- What cannot be shown has an integer in it with too many digits. -/
theorem exists_part_of_prints {limit : Option Nat} {value : Json} (h : value.prints limit = false) :
    ∃ number, IsPart (.int number) value ∧ Text.isWithin limit number = false := by
  obtain ⟨number, hnumber, hlong⟩ := List.all_eq_false.mp h
  exact ⟨number, mem_integers_iff.mp hnumber, Bool.not_eq_true _ ▸ hlong⟩

/-- The integer is in the arguments of a generic type. -/
def IsArgument (number : Int) (value : Json) : Prop :=
  ∃ fields args, IsPart (.obj fields) value ∧
    Fields.get? fields "kind" = some (.str Kind.generic.word) ∧
    Fields.get? fields "args" = some args ∧ IsPart (.int number) args

/-- The integer stands where it may have to be shown: in the kind or in the key of an object, or in the
arguments of a generic type. -/
def Shows (value : Json) (number : Int) : Prop :=
  (∃ label, label.IsLabel value ∧ IsPart (.int number) label) ∨ IsArgument number value

theorem IsArgument.of_isPart {number : Int} {middle whole : Json} (h : IsArgument number middle)
    (hmiddle : IsPart middle whole) : IsArgument number whole := by
  obtain ⟨fields, args, hfields, hargument⟩ := h
  exact ⟨fields, args, hfields.trans hmiddle, hargument⟩

end Json

open Json

/-! ## Reading -/

namespace Decoded

variable {α β : Type} {P : α → Prop} {Q : β → Prop}

/-- What is read, if anything is, is such. -/
def Yields (P : α → Prop) (result : Decoded α) : Prop := ∀ found, result = .ok found → P found

theorem Yields.ok {found : α} (h : P found) : Yields P (.ok found) := by
  rintro other ⟨⟩
  exact h

theorem Yields.any (result : Decoded α) : Yields (fun _ => True) result := fun _ _ => trivial

theorem Yields.error {e : DecodeError} : Yields P (.error e) := nofun

theorem Yields.fail {defect : Defect} : Yields P (fail defect) := .error

theorem Yields.bind {result : Decoded α} {next : α → Decoded β} (h : Yields P result)
    (hnext : ∀ found, P found → Yields Q (next found)) : Yields Q (result >>= next) := by
  cases result with
  | error e => exact .error
  | ok found => exact hnext found (h found rfl)

theorem Yields.under {step : Step} {result : Decoded α} (h : Yields P result) :
    Yields P (under step result) := by
  cases result with
  | error e => nofun
  | ok found => exact .ok (h found rfl)

theorem Yields.showing {limit : Option Nat} {value : Json} {result : Decoded α} (h : Yields P result) :
    Yields P (showing limit value result) := by
  rw [Decoded.showing]
  split
  · exact h
  · exact .error

/-- What is read is read from the value under a key. -/
theorem Yields.part {read : Json → Decoded α} {key : Text} {fields : Fields Json} {P : Json → α → Prop}
    (h : ∀ value, Fields.get? fields key = some value → Yields (P value) (read value)) :
    Yields (fun found => ∃ value, Fields.get? fields key = some value ∧ P value found)
      (part read key fields) := by
  rw [Decoded.part, Decoded.require]
  cases hvalue : Fields.get? fields key with
  | none => exact .fail
  | some value => exact .under fun found hfound => ⟨value, rfl, h value hvalue found hfound⟩

theorem Yields.each {read : Json → Decoded α} {items : List Json}
    (h : ∀ item ∈ items, Yields P (read item)) (position : Nat) :
    Yields (fun found => ∀ element ∈ found, P element) (each read position items) := by
  induction items generalizing position with
  | nil => exact .ok fun _ h => absurd h List.not_mem_nil
  | cons item rest ih =>
      obtain ⟨hitem, hrest⟩ := List.forall_mem_cons.mp h
      refine .bind (.under hitem) fun first hfirst => ?_
      refine .bind (ih hrest (position + 1)) fun others hothers => ?_
      exact .ok (List.forall_mem_cons.mpr ⟨hfirst, hothers⟩)

end Decoded

namespace TypeExpr

open Decoded

variable {limit : Option Nat}

/-- The integers of an expression are in the value, and those that may be shown are arguments in it. -/
structure HeldBy (value : Json) (expr : TypeExpr) : Prop where
  integers : ∀ number ∈ expr.integers, IsPart (.int number) value
  shown : ∀ number ∈ expr.shown, IsArgument number value

namespace HeldBy

variable {value inside : Json} {expr : TypeExpr} {members : List TypeExpr}

theorem of_isPart (h : HeldBy inside expr) (hpart : IsPart inside value) : HeldBy value expr :=
  ⟨fun number hnumber => (h.integers number hnumber).trans hpart,
    fun number hnumber => (h.shown number hnumber).of_isPart hpart⟩

theorem of_nil (hintegers : expr.integers = []) (hshown : expr.shown = []) : HeldBy value expr :=
  ⟨fun _ h => absurd (hintegers ▸ h) List.not_mem_nil,
    fun _ h => absurd (hshown ▸ h) List.not_mem_nil⟩

theorem integersAmong (h : ∀ member ∈ members, HeldBy value member) :
    ∀ number ∈ integersAmong members, IsPart (.int number) value := by
  rw [integersAmong_eq]
  intro number hnumber
  obtain ⟨member, hmember, hinside⟩ := List.mem_flatMap.mp hnumber
  exact (h member hmember).integers number hinside

theorem shownAmong (h : ∀ member ∈ members, HeldBy value member) :
    ∀ number ∈ shownAmong members, IsArgument number value := by
  rw [shownAmong_eq]
  intro number hnumber
  obtain ⟨member, hmember, hinside⟩ := List.mem_flatMap.mp hnumber
  exact (h member hmember).shown number hinside

theorem shape {items : List (ShapeField TypeExpr)} (h : ∀ item ∈ items, HeldBy value item.type) :
    HeldBy value (.shape items) := by
  have hmembers : ∀ member ∈ items.map ShapeField.type, HeldBy value member :=
    List.forall_mem_map.mpr h
  constructor
  · have hintegers := integersAmong hmembers
    rwa [integersAmong_eq, List.flatMap_map, ← integersOfFields_eq] at hintegers
  · have hshown := shownAmong hmembers
    rwa [shownAmong_eq, List.flatMap_map, ← shownOfFields_eq] at hshown

end HeldBy

/-- Whatever a value is read as, what is read is held by it. -/
structure IsHeld (limit : Option Nat) (value : Json) : Prop where
  expression : Yields (HeldBy value) (read limit value)
  members : Yields (fun found => ∀ member ∈ found, HeldBy value member) (membersOf limit value)
  shape : Yields (fun found => ∀ item ∈ found, HeldBy value item.type) (shapeOf limit value)
  item : Yields (fun found => HeldBy value found.type) (shapeFieldOf limit value)

theorem isHeld_of_scalar {value : Json} (hexpr : Yields (HeldBy value) (read limit value))
    (harr : ∀ items, value ≠ .arr items) (hobj : ∀ fields, value ≠ .obj fields) :
    IsHeld limit value := by
  refine ⟨hexpr, ?_, ?_, ?_⟩
  · rw [membersOf_of_not_arr limit harr]
    exact .fail
  · rw [shapeOf_of_not_arr limit harr]
    exact .fail
  · rw [shapeFieldOf_of_not_obj limit hobj]
    exact .fail

theorem isHeld_arr {items : List Json} (ih : ∀ item ∈ items, IsHeld limit item) :
    IsHeld limit (.arr items) := by
  refine ⟨.fail, ?_, ?_, .fail⟩
  · rw [membersOf, membersFrom_eq]
    refine .each (fun item hitem found hfound => ?_) 0
    exact ((ih item hitem).expression found hfound).of_isPart (.item hitem (.refl item))
  · rw [shapeOf, shapeFrom_eq]
    refine .each (fun item hitem found hfound => ?_) 0
    exact ((ih item hitem).item found hfound).of_isPart (.item hitem (.refl item))

/-- What an object is read as follows its kind. The integers in the arguments of a generic type are shown,
all others come from further inside. -/
theorem ofKind_held {fields : Fields Json} {kind : Kind}
    (hkind : Fields.get? fields "kind" = some (.str kind.word))
    (ih : ∀ key value, Fields.get? fields key = some value → IsHeld limit value) :
    Yields (HeldBy (.obj fields)) (ofKind limit fields kind) := by
  have hpart : ∀ {key value}, Fields.get? fields key = some value → IsPart value (.obj fields) :=
    fun hvalue => isPart_of_field? hvalue
  have hchild : ∀ key, Yields (fun found => ∃ value, Fields.get? fields key = some value ∧
      HeldBy value found) (part (read limit) key fields) :=
    fun key => .part fun value hvalue => (ih key value hvalue).expression
  have hmembers : ∀ key, Yields (fun found => ∃ value, Fields.get? fields key = some value ∧
      ∀ member ∈ found, HeldBy value member) (part (membersOf limit) key fields) :=
    fun key => .part fun value hvalue => (ih key value hvalue).members
  cases kind with
  | identifier => exact (Yields.any _).bind fun _ _ => .ok (.of_nil rfl rfl)
  | name => exact (Yields.any _).bind fun _ _ => .ok (.of_nil rfl rfl)
  | nullable | array =>
      refine (hchild "type").bind fun found hfound => .ok ?_
      obtain ⟨value, hvalue, hheld⟩ := hfound
      have hinside := hheld.of_isPart (hpart hvalue)
      exact ⟨hinside.integers, hinside.shown⟩
  | union | intersection =>
      refine (hmembers "types").bind fun found hfound => .ok ?_
      obtain ⟨value, hvalue, hheld⟩ := hfound
      have hinside : ∀ member ∈ found, HeldBy (.obj fields) member :=
        fun member hmember => (hheld member hmember).of_isPart (hpart hvalue)
      exact ⟨HeldBy.integersAmong hinside, HeldBy.shownAmong hinside⟩
  | generic =>
      refine (Yields.any _).bind fun name _ => (hmembers "args").bind fun found hfound => .ok ?_
      obtain ⟨args, hargs, hheld⟩ := hfound
      have hintegers := HeldBy.integersAmong hheld
      exact ⟨fun number hnumber => (hintegers number hnumber).trans (hpart hargs),
        fun number hnumber => ⟨fields, args, .refl _, hkind, hargs, hintegers number hnumber⟩⟩
  | shape =>
      have hitems := Yields.part fun value hvalue => (ih "items" value hvalue).shape
      refine hitems.bind fun found hfound => .ok ?_
      obtain ⟨value, hvalue, hheld⟩ := hfound
      exact .shape fun item hitem => (hheld item hitem).of_isPart (hpart hvalue)
  | const =>
      rw [ofKind, Decoded.require]
      cases hvalue : Fields.get? fields "value" with
      | none => exact .fail
      | some value =>
          refine .ok ⟨fun number hnumber => ?_, fun _ h => absurd h List.not_mem_nil⟩
          exact (mem_integers_iff.mp hnumber).trans (hpart hvalue)
  | param =>
      refine (hchild "type").bind fun found hfound => (Yields.any _).bind fun _ _ => .ok ?_
      obtain ⟨value, hvalue, hheld⟩ := hfound
      have hinside := hheld.of_isPart (hpart hvalue)
      exact ⟨hinside.integers, hinside.shown⟩

theorem isHeld_obj {fields : Fields Json} (ih : ∀ field ∈ fields, IsHeld limit field.2) :
    IsHeld limit (.obj fields) := by
  have hget : ∀ key value, Fields.get? fields key = some value → IsHeld limit value :=
    fun key value hvalue => ih (key, value) (Fields.mem_of_get? hvalue)
  refine ⟨?_, .fail, .fail, ?_⟩
  · rw [read_obj, Decoded.require]
    cases hnamed : Fields.get? fields "kind" with
    | none => exact .fail
    | some named =>
        rw [ok_bind]
        cases hkind : Kind.ofJson? named with
        | none => exact .showing .fail
        | some kind =>
            rw [Kind.eq_of_ofJson? hkind] at hnamed
            exact ofKind_held hnamed hget
  · have htype := Yields.part fun value hvalue => (hget "type" value hvalue).expression
    rw [shapeFieldOf_obj]
    refine (Yields.any _).bind fun key _ => (Yields.any _).bind fun name _ => ?_
    refine htype.bind fun type hfound => .ok ?_
    obtain ⟨value, hvalue, hheld⟩ := hfound
    exact hheld.of_isPart (isPart_of_field? hvalue)

/-- **What is read from a value is held by it.** -/
theorem isHeld (limit : Option Nat) (value : Json) : IsHeld limit value := by
  induction value with
  | null | bool _ | int _ | float _ => exact isHeld_of_scalar .fail nofun nofun
  | str text => exact isHeld_of_scalar (.ok (.of_nil rfl rfl)) nofun nofun
  | arr items ih => exact isHeld_arr ih
  | obj fields ih => exact isHeld_obj ih

end TypeExpr

/-! ## Reading without a limit -/

namespace Decoded

variable {α β : Type}

/-- If something is read then the other reading gives the same. -/
def KeptBy (result other : Decoded α) : Prop := ∀ found, result = .ok found → other = .ok found

theorem KeptBy.refl (result : Decoded α) : result.KeptBy result := fun _ h => h

theorem KeptBy.error {e : DecodeError} {other : Decoded α} : KeptBy (.error e) other := nofun

theorem KeptBy.bind {result other : Decoded α} {next nextOther : α → Decoded β}
    (h : result.KeptBy other) (hnext : ∀ found, (next found).KeptBy (nextOther found)) :
    (result >>= next).KeptBy (other >>= nextOther) := by
  cases result with
  | error e => nofun
  | ok found =>
      rw [h found rfl]
      exact hnext found

theorem KeptBy.under {step : Step} {result other : Decoded α} (h : result.KeptBy other) :
    (under step result).KeptBy (under step other) := by
  cases result with
  | error e => nofun
  | ok found =>
      rw [h found rfl]
      exact .refl _

theorem KeptBy.showing {limit : Option Nat} {value : Json} {result other : Decoded α}
    (h : result.KeptBy other) : (showing limit value result).KeptBy (showing none value other) := by
  rw [showing_none, Decoded.showing]
  split
  · exact h
  · exact .error

theorem KeptBy.part {read readOther : Json → Decoded α} {key : Text} {fields : Fields Json}
    (h : ∀ value, Fields.get? fields key = some value → (read value).KeptBy (readOther value)) :
    (part read key fields).KeptBy (part readOther key fields) := by
  rw [Decoded.part, Decoded.part, Decoded.require]
  cases hvalue : Fields.get? fields key with
  | none => exact .refl _
  | some value => exact .under (h value hvalue)

theorem KeptBy.each {read readOther : Json → Decoded α} {items : List Json}
    (h : ∀ item ∈ items, (read item).KeptBy (readOther item)) (position : Nat) :
    (each read position items).KeptBy (each readOther position items) := by
  induction items generalizing position with
  | nil => exact .refl _
  | cons item rest ih =>
      obtain ⟨hitem, hrest⟩ := List.forall_mem_cons.mp h
      refine .bind (.under hitem) fun first => ?_
      exact .bind (ih hrest (position + 1)) fun others => .refl _

end Decoded

namespace TypeExpr

open Decoded

variable {limit : Option Nat}

/-- Whatever a value is read as, it is read the same without a limit. -/
structure IsKept (limit : Option Nat) (value : Json) : Prop where
  expression : (read limit value).KeptBy (read none value)
  members : (membersOf limit value).KeptBy (membersOf none value)
  shape : (shapeOf limit value).KeptBy (shapeOf none value)
  item : (shapeFieldOf limit value).KeptBy (shapeFieldOf none value)

theorem isKept_of_scalar {value : Json} (hexpr : (read limit value).KeptBy (read none value))
    (harr : ∀ items, value ≠ .arr items) (hobj : ∀ fields, value ≠ .obj fields) :
    IsKept limit value := by
  refine ⟨hexpr, ?_, ?_, ?_⟩
  · rw [membersOf_of_not_arr limit harr]
    exact .error
  · rw [shapeOf_of_not_arr limit harr]
    exact .error
  · rw [shapeFieldOf_of_not_obj limit hobj]
    exact .error

theorem isKept_arr {items : List Json} (ih : ∀ item ∈ items, IsKept limit item) :
    IsKept limit (.arr items) := by
  refine ⟨nofun, ?_, ?_, nofun⟩
  · rw [membersOf, membersOf, membersFrom_eq, membersFrom_eq]
    exact .each (fun item hitem => (ih item hitem).expression) 0
  · rw [shapeOf, shapeOf, shapeFrom_eq, shapeFrom_eq]
    exact .each (fun item hitem => (ih item hitem).item) 0

theorem ofKind_kept {fields : Fields Json} (kind : Kind)
    (ih : ∀ key value, Fields.get? fields key = some value → IsKept limit value) :
    (ofKind limit fields kind).KeptBy (ofKind none fields kind) := by
  have hchild : ∀ key, (part (read limit) key fields).KeptBy (part (read none) key fields) :=
    fun key => .part fun value hvalue => (ih key value hvalue).expression
  have hmembers : ∀ key,
      (part (membersOf limit) key fields).KeptBy (part (membersOf none) key fields) :=
    fun key => .part fun value hvalue => (ih key value hvalue).members
  have hshape : (part (shapeOf limit) "items" fields).KeptBy (part (shapeOf none) "items" fields) :=
    .part fun value hvalue => (ih "items" value hvalue).shape
  cases kind with
  | identifier | name | const => exact .refl _
  | nullable | array => exact (hchild "type").bind fun _ => .refl _
  | union | intersection => exact (hmembers "types").bind fun _ => .refl _
  | generic => exact (KeptBy.refl _).bind fun _ => (hmembers "args").bind fun _ => .refl _
  | shape => exact hshape.bind fun _ => .refl _
  | param => exact (hchild "type").bind fun _ => .refl _

theorem isKept_obj {fields : Fields Json} (ih : ∀ field ∈ fields, IsKept limit field.2) :
    IsKept limit (.obj fields) := by
  have hget : ∀ key value, Fields.get? fields key = some value → IsKept limit value :=
    fun key value hvalue => ih (key, value) (Fields.mem_of_get? hvalue)
  refine ⟨?_, nofun, nofun, ?_⟩
  · rw [read_obj, read_obj]
    refine (KeptBy.refl _).bind fun named => ?_
    cases Kind.ofJson? named with
    | none => exact .showing (.refl _)
    | some kind => exact ofKind_kept kind hget
  · rw [shapeFieldOf_obj, shapeFieldOf_obj]
    refine (KeptBy.refl _).bind fun key => .bind (.showing (.refl _)) fun name => ?_
    exact .bind (.part fun value hvalue => (hget "type" value hvalue).expression) fun _ => .refl _

/-- **What is read with a limit is read the same without one.** -/
theorem isKept (limit : Option Nat) (value : Json) : IsKept limit value := by
  induction value with
  | null | bool _ | int _ | float _ => exact isKept_of_scalar nofun nofun nofun
  | str text => exact isKept_of_scalar (.refl _) nofun nofun
  | arr items ih => exact isKept_arr ih
  | obj fields ih => exact isKept_obj ih

end TypeExpr

/-! ## Resolving -/

namespace Resolver

variable {r : Resolver} {context : Text} {expr : TypeExpr}

/-- If the report ends with a problem then its message shows integers of that list only. -/
def EndsShowing (shown : List Int) {α : Type} (report : Report α) : Prop :=
  FailsAs (fun failure => ∀ place problem, failure = .unrepresentable place problem →
    problem.integers ⊆ shown) report.outcome

theorem endsShowing_panic {shown : List Int} {α : Type} (context : Text) {problem : Problem}
    (h : problem.integers ⊆ shown) : EndsShowing shown (Report.panic context problem : Report α) := by
  refine .error fun place other heq => ?_
  obtain ⟨-, rfl⟩ := Failure.unrepresentable.inj heq
  exact h

theorem leaves_endShowing (r : Resolver) (shown : List Int) (names : List Text) :
    LeavesRelated (fun _ report _ => EndsShowing shown report) r r names := by
  constructor
  case recoverable =>
    intro cause context problem _ hnone
    have hshown : problem.integers ⊆ shown := hnone ▸ List.nil_subset shown
    unfold errorIf Report.error
    split
    · split
      · exact endsShowing_panic context hshown
      · exact .ok ()
    · exact .ok ()
  case reference =>
    intro name _ _ context
    unfold resolveReference
    split
    · exact .error fun _ _ => nofun
    · exact endsShowing_panic context (List.nil_subset shown)
    · split
      · exact .ok _
      · next failure hfailure =>
        obtain ⟨misuse, rfl⟩ := Config.misuse_of_reference_error hfailure
        exact .error fun _ _ => nofun

/-- **The message of a problem shows integers of a generic type only.** -/
theorem shown_of_error {place : Text} {problem : Problem}
    (h : (r.resolve context expr).outcome = .error (.unrepresentable place problem)) :
    problem.integers ⊆ expr.shown := by
  have hcongruence : Report.Congruence expr.shown
      fun _ report _ => EndsShowing expr.shown report :=
    Report.congruence_failsAs fun context problem _ hshown place other heq => by
      obtain ⟨-, rfl⟩ := Failure.unrepresentable.inj heq
      exact hshown
  exact resolve_congr hcongruence (leaves_endShowing r expr.shown expr.names) context _ h place
    problem rfl

end Resolver

/-! ## Machines -/

namespace Report

variable {α : Type} {limit : Option Nat} {report : Report α}

/-- Putting messages together either changes nothing or fails for an integer that one of them shows. -/
theorem voiced_cases (limit : Option Nat) (report : Report α) :
    report.voiced limit = report ∨
      ∃ place problem number, report.outcome = .error (.unrepresentable place problem) ∧
        number ∈ problem.integers ∧ Text.isWithin limit number = false ∧
          (report.voiced limit).outcome = .error (.exhausted .digits) := by
  unfold voiced
  split
  · next place problem houtcome =>
    cases hshown : problem.integers.all (Text.isWithin limit) with
    | true => exact .inl (if_pos rfl)
    | false =>
        obtain ⟨number, hnumber, hlong⟩ := List.all_eq_false.mp hshown
        refine .inr ⟨place, problem, number, houtcome, hnumber, Bool.eq_false_iff.mpr hlong, ?_⟩
        rw [if_neg Bool.false_ne_true]
  · exact .inl rfl

theorem outcome_ofDecoded_ok_iff {base : Text} {decoded : Decoded α} {value : α} :
    (ofDecoded base decoded).outcome = .ok value ↔ decoded = .ok value := by
  rcases decoded with (_ | _) | found <;> simp [ofDecoded, fail, pure]

theorem outcome_voiced_ok_iff {value : α} :
    (report.voiced limit).outcome = .ok value ↔ report.outcome = .ok value := by
  rcases voiced_cases limit report with h | ⟨place, problem, number, houtcome, -, -, hvoiced⟩
  · rw [h]
  · rw [houtcome, hvoiced]
    exact iff_of_false nofun nofun

theorem outcome_interrupted_ok_iff {recorded? : Option Nat} {value : α} :
    (report.interrupted recorded?).outcome = .ok value ↔
      recorded? = none ∧ report.outcome = .ok value := by
  cases recorded? <;> simp [interrupted]

end Report

/-- What the resolution of a node may fail with if no argument is misused: a fault in it, a problem, or an
integer that it shows and that has too many digits. -/
inductive Failure.IsOfNode (limit : Option Nat) (node : Json) : Failure → Prop
  | malformed (path : Text) (defect : Defect) : IsOfNode limit node (.malformed path defect)
  | unrepresentable (context : Text) (problem : Problem) :
      IsOfNode limit node (.unrepresentable context problem)
  | digits {number : Int} : node.Shows number → Text.isWithin limit number = false →
      IsOfNode limit node (.exhausted .digits)

namespace Machine

variable {machine : Machine} {r : Resolver} {base context : Text} {node : Json}
  {default? : Option Json}

/-- **The resolution of a node fails for the node**, if no argument is misused. -/
theorem schemaOf_failsAs
    (h : ∀ expr misuse, (r.resolve context expr).outcome ≠ .error (.misuse misuse)) :
    FailsAs (Failure.IsOfNode machine.limit node)
      (machine.schemaOf r base context node default?).outcome := by
  unfold schemaOf
  cases hread : TypeExpr.read machine.limit node with
  | error e =>
      have he := (TypeExpr.isBlamed machine.limit node).expression [] e hread
      cases e with
      | fault steps defect => exact .error (.malformed _ _)
      | unprintable part =>
          obtain ⟨hlabel, hprints⟩ := he
          obtain ⟨number, hnumber, hlong⟩ := exists_part_of_prints hprints
          exact .error (.digits (.inl ⟨part, hlabel, hnumber⟩) hlong)
  | ok expr =>
      have hheld := (TypeExpr.isHeld machine.limit node).expression expr hread
      rw [show Report.ofDecoded base (.ok expr : Decoded TypeExpr) = pure expr from rfl, pure_bind]
      refine Report.failsAs_bind ?_ fun schema => by cases default? <;> exact .ok _
      rcases Report.voiced_cases machine.limit (r.resolve context expr) with
        hsame | ⟨place, problem, number, houtcome, hnumber, hlong, hvoiced⟩
      · rw [hsame]
        intro failure hfailure
        cases failure with
        | unrepresentable place problem => exact .unrepresentable place problem
        | malformed path defect => exact .malformed path defect
        | misuse misuse => exact absurd hfailure (h expr misuse)
        | exhausted resource =>
            exact absurd hfailure ((r.resolve_logged context expr).outcome_ne_exhausted resource)
      · rw [hvoiced]
        have hshown := hheld.shown number (Resolver.shown_of_error houtcome hnumber)
        exact .error (.digits (.inr hshown) hlong)

end Machine

end Schemata
