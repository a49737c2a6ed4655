import Schemata.Resolve

/-!
# What a machine has only so much of

Values are nested to any depth and integers have any number of digits, but a machine has only so many
calls within calls, and may turn only so many digits into a text or a text into so many. A `Machine`
says how much it has. Where that is not enough a computation ends with a failure that is no message
(`Failure.exhausted`), and with what was recorded before:

* **digits** — where a part of a value has to be shown as it is read (`TypeExpr.read`), and where the
  message of a problem is put together, which is before the problem is recorded (`Report.voiced`);
* **calls** — anywhere (`Report.interrupted`).

`{}` is the machine that has enough of everything.
-/

namespace Schemata

namespace Json

mutual

/-- How many lists and objects are around what is innermost in a value. -/
def depth : Json → Nat
  | .arr items => depthAmong items + 1
  | .obj fields => depthOfFields fields + 1
  | _ => 0

/-- The greatest depth among values. -/
def depthAmong : List Json → Nat
  | [] => 0
  | item :: rest => max item.depth (depthAmong rest)

/-- The greatest depth among the values of fields. -/
def depthOfFields : List (Text × Json) → Nat
  | [] => 0
  | (_, value) :: rest => max value.depth (depthOfFields rest)

end

end Json

/-- What a machine has only so much of. -/
structure Machine where
  /-- The most digits of an integer that is read from a text or shown in one, if there is a limit. -/
  limit : Option Nat := none
  /-- If the calls run out on a node that the resolver is given: how much is recorded before. -/
  overflow? : Resolver → Json → Option Nat := fun _ _ => none
  /-- Whether the calls last until a text is read. -/
  canRead : Text → Bool := fun _ => true
  /-- Whether the calls last until a value is written. -/
  canWrite : Json → Bool := fun _ => true

namespace Report

variable {α : Type}

/-- The report of a resolution, with at most so many digits in an integer if a limit is given: a problem is
not recorded if its message cannot be put together. -/
def voiced (limit : Option Nat) (report : Report α) : Report α :=
  match report.outcome with
  | .error (.unrepresentable _ problem) =>
    if problem.integers.all (Text.isWithin limit) then report
    else ⟨report.entries.dropLast, .error (.exhausted .digits)⟩
  | _ => report

/-- The report of a computation, which ends after so many entries if the calls run out. -/
def interrupted (recorded? : Option Nat) (report : Report α) : Report α :=
  match recorded? with
  | some recorded => ⟨report.entries.take recorded, .error (.exhausted .calls)⟩
  | none => report

/-- Without a limit every message can be put together. -/
theorem voiced_none (report : Report α) : report.voiced none = report := by
  unfold voiced
  split
  · exact if_pos (List.all_eq_true.mpr fun _ _ => rfl)
  · rfl

end Report

namespace Machine

/-- A machine as it is set up as a rule. Its calls are many enough for every node that is not nested
deeper than so, and for every text and every value that is written. -/
def usual : Machine where
  limit := some 4300
  overflow? _ node := if node.depth ≤ 450 then none else some 0

/-- The schema of the expression that a JSON value writes, with a default if one is given. The value
stands at `base`, where a fault in it is reported. -/
def schemaOf (machine : Machine) (r : Resolver) (base context : Text) (node : Json)
    (default? : Option Json) : Report Schema := do
  let expr ← Report.ofDecoded base (TypeExpr.read machine.limit node)
  let schema ← (r.resolve context expr).voiced machine.limit
  match default? with
  | some value => return schema.withDefault value
  | none => return schema

end Machine

namespace Resolver

/-- The schema of the expression that a JSON value writes, on a machine that has enough of everything. -/
def schemaOf : Resolver → Text → Text → Json → Option Json → Report Schema := Machine.schemaOf {}

theorem schemaOf_eq (r : Resolver) (base context : Text) (node : Json) (default? : Option Json) :
    r.schemaOf base context node default? = do
      let expr ← Report.ofDecoded base (TypeExpr.ofJson node)
      let schema ← r.resolve context expr
      match default? with
      | some value => return schema.withDefault value
      | none => return schema := by
  simp only [schemaOf, Machine.schemaOf, Report.voiced_none]
  rfl

end Resolver

end Schemata
