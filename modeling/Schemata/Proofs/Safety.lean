import Mathlib.Algebra.Group.Int.Defs
import Schemata.Proofs.Entries
import Schemata.Proofs.Limits

/-!
# Values of the right sort

Arguments of the wrong sort are of no use, and show where they are used (`Misuse`): definitions and
prefixes where a name is resolved, a document and its entries where they are taken apart. With
values of the right sort (`Document.WellSorted`) this does not happen, whatever is written under
`node`, `default` and `parameter`:

* **sequencing** — a computation in two steps is not misused if neither step is
  (`Report.congruence_unmisused`);
* **resolution** — at the leaves, a list can be looked up in and a reference is spelled from two
  texts (`Resolver.resolve_unmisused`);
* **entries** — an object has its `node` or lacks it, and what then fails is the node or the machine
  (`Document.convertEntry_failsAsDocumented`).

`Document.convert_ends_as_documented` puts them together: either there is one schema object for each
entry, or a value writes no expression, or a type is not representable; or else the machine has not
enough of something, and a node is written for which it has not.
-/

namespace Schemata

namespace Report

variable {α β : Type}

/-- The computation did not end because of an argument of the wrong sort. -/
def Unmisused (report : Report α) : Prop :=
  FailsAs (fun failure => ∀ misuse, failure ≠ .misuse misuse) report.outcome

namespace Unmisused

theorem pure (value : α) : (pure value : Report α).Unmisused := .ok value

theorem panic (context : Text) (problem : Problem) :
    (Report.panic context problem : Report α).Unmisused :=
  .error fun _ => nofun

theorem bind {report : Report α} {next : α → Report β} (h : report.Unmisused)
    (hnext : ∀ value, (next value).Unmisused) : (report >>= next).Unmisused :=
  failsAs_bind h hnext

end Unmisused

theorem congruence_unmisused {shown : List Int} :
    Congruence shown fun _ report _ => report.Unmisused :=
  congruence_failsAs fun _ _ _ _ _ => nofun

end Report

open Report

namespace Resolver

/-- The values that names are resolved with are of the right sort. -/
structure WellSorted (r : Resolver) : Prop where
  definitions : ∃ names : List Json, r.definitions = .arr names
  refPrefix : ∃ start, r.config.refPrefix = .str start
  schemaNamePrefix : ∃ taken, r.config.schemaNamePrefix = .str taken

variable {r : Resolver}

theorem resolveReference_unmisused (h : r.WellSorted) (context name : Text) :
    (r.resolveReference context name).Unmisused := by
  obtain ⟨known, hknown⟩ := h.definitions
  obtain ⟨start, hstart⟩ := h.refPrefix
  obtain ⟨taken, htaken⟩ := h.schemaNamePrefix
  unfold resolveReference
  rw [hknown, Config.reference_eq hstart htaken]
  -- a list mentions a name or does not
  rw [Json.mentions?]
  cases known.any (Json.isText name) with
  | false => exact .panic _ _
  | true => exact .pure _

theorem leaves_unmisused (h : r.WellSorted) (names : List Text) :
    LeavesRelated (fun _ report _ => report.Unmisused) r r names := by
  constructor
  case recoverable =>
    intro cause context problem _ _
    unfold errorIf Report.error
    split
    · split
      · exact .panic context problem
      · exact .ok ()
    · exact .pure ()
  case reference => exact fun name _ _ context => resolveReference_unmisused h context name

theorem resolve_unmisused (h : r.WellSorted) (context : Text) (expr : TypeExpr) :
    (r.resolve context expr).Unmisused :=
  resolve_congr congruence_unmisused (leaves_unmisused h expr.names) context

end Resolver

namespace Machine

/-- The calls of the machine last for every node that is nested no deeper than so. -/
def Lasts (machine : Machine) (depth : Nat) : Prop :=
  ∀ r node, Json.depth node ≤ depth → machine.overflow? r node = none

end Machine

namespace Document

/-- The values of a document and of a configuration are of the sort that they are used as. What
stands in an entry under `node`, `default` and `parameter` may be anything. -/
structure WellSorted (config : Config) (fields : Fields Json) : Prop where
  definitions : ∀ value, Fields.get? fields "definitions" = some value →
    ∃ names : List Text, value = .arr (names.map .str)
  types : ∀ value, Fields.get? fields "types" = some value →
    ∃ entries : Fields Json, value = .obj entries ∧
      ∀ entry ∈ entries, ∃ fields, entry.2 = .obj fields
  refPrefix : ∃ start, config.refPrefix = .str start
  schemaNamePrefix : ∃ taken, config.schemaNamePrefix = .str taken

namespace WellSorted

variable {config : Config} {fields : Fields Json}

theorem resolver (h : WellSorted config fields) (strict : Bool) :
    Resolver.WellSorted { definitions := Document.definitions fields, config, strict } := by
  refine ⟨?_, h.refPrefix, h.schemaNamePrefix⟩
  show ∃ names, (Fields.get? fields "definitions").getD (.arr []) = .arr names
  cases hvalue : Fields.get? fields "definitions" with
  | none => exact ⟨[], rfl⟩
  | some value =>
      obtain ⟨names, rfl⟩ := h.definitions value hvalue
      exact ⟨_, rfl⟩

theorem exists_entries (h : WellSorted config fields) :
    ∃ entries : Fields Json, Document.types fields = .obj entries ∧
      ∀ entry ∈ entries, ∃ fields, entry.2 = .obj fields := by
  unfold Document.types
  cases hvalue : Fields.get? fields "types" with
  | none => exact ⟨[], rfl, fun _ h => absurd h List.not_mem_nil⟩
  | some value =>
      obtain ⟨entries, rfl, hentries⟩ := h.types value hvalue
      exact ⟨entries, rfl, hentries⟩

end WellSorted

/-- How a conversion of these entries ends on a machine whose calls last for nodes of that depth, if all goes
as documented. -/
inductive EndsAsDocumented (machine : Machine) (depth : Nat) (entries : Fields Json) :
    Except Failure (Fields Json) → Prop
  /-- There is one schema object for each entry, under its name. -/
  | converted {objects : Fields Json} :
      objects.keys = entries.keys → EndsAsDocumented machine depth entries (.ok objects)
  /-- A value writes no expression. -/
  | malformed (path : Text) (defect : Defect) :
      EndsAsDocumented machine depth entries (.error (.malformed path defect))
  /-- A type is not representable. -/
  | unrepresentable (context : Text) (problem : Problem) :
      EndsAsDocumented machine depth entries (.error (.unrepresentable context problem))
  /-- An integer that has to be shown has too many digits. -/
  | digits {entry : Text × Json} {node : Json} {number : Int} : entry ∈ entries →
      entry.2.field? "node" = some node → node.Shows number →
        Text.isWithin machine.limit number = false →
          EndsAsDocumented machine depth entries (.error (.exhausted .digits))
  /-- A node is nested too deep. -/
  | calls {entry : Text × Json} {node : Json} : entry ∈ entries →
      entry.2.field? "node" = some node → depth < node.depth →
        EndsAsDocumented machine depth entries (.error (.exhausted .calls))

variable {machine : Machine} {depth : Nat} {r : Resolver} {entries : Fields Json}

/-- A failure of an entry among those is as documented. -/
def FailsAsDocumented (machine : Machine) (depth : Nat) (entries : Fields Json) {α : Type}
    (report : Report α) : Prop :=
  FailsAs (fun failure => EndsAsDocumented machine depth entries (.error failure)) report.outcome

theorem convertEntry_failsAsDocumented (h : r.WellSorted) (hlasts : machine.Lasts depth)
    {name : Text} {fields : Fields Json} (hentry : (name, .obj fields) ∈ entries) :
    FailsAsDocumented machine depth entries (convertEntry machine r name (.obj fields)) := by
  unfold convertEntry nodeOf
  simp only [Json.mentions?, Json.field?]
  cases hnode : Fields.get? fields "node" with
  | none => exact .error (.malformed _ _)
  | some node =>
      show FailsAsDocumented machine depth entries (Report.interrupted (machine.overflow? r node) _)
      cases hcalls : machine.overflow? r node with
      | some recorded =>
          refine .error (.calls hentry hnode (Nat.lt_of_not_le fun hdepth => ?_))
          rw [hlasts r node hdepth] at hcalls
          cases hcalls
      | none =>
          refine Report.failsAs_bind (fun failure hfailure => ?_) fun schema => .ok _
          have hmisuse : ∀ expr misuse, (r.resolve name expr).outcome ≠ .error (.misuse misuse) :=
            fun expr misuse houtcome => Resolver.resolve_unmisused h name expr _ houtcome misuse rfl
          cases Machine.schemaOf_failsAs hmisuse failure hfailure with
          | malformed path defect => exact .malformed path defect
          | unrepresentable context problem => exact .unrepresentable context problem
          | digits hshows hlong => exact .digits hentry hnode hshows hlong

/-- The entries that are left fail as documented, as some of all. -/
theorem convertEntries_failsAsDocumented (h : r.WellSorted) (hlasts : machine.Lasts depth)
    {rest : Fields Json} (hrest : rest ⊆ entries)
    (hobjects : ∀ entry ∈ entries, ∃ fields, entry.2 = .obj fields) :
    FailsAsDocumented machine depth entries (convertEntries machine r rest) := by
  induction rest with
  | nil => exact .ok _
  | cons entry rest ih =>
      obtain ⟨hentry, hlater⟩ := List.cons_subset.mp hrest
      obtain ⟨name, value⟩ := entry
      obtain ⟨fields, rfl⟩ := hobjects _ hentry
      refine Report.failsAs_bind (convertEntry_failsAsDocumented h hlasts hentry) fun object => ?_
      exact Report.failsAs_bind (ih hlater) fun others => .ok _

/-- **Only the documented failures escape from a conversion**, and those of the machine. If the definitions
are names, the types are objects and the two prefixes are texts then no argument is misused, whatever the
entries have under `node`, `default` and `parameter`, and whether recoverable problems are fatal or not. Digits
run out only for an integer in the kind or in the key of an object or in the arguments of a generic type, and
calls only for a node that is nested deeper than they last. -/
theorem convert_ends_as_documented {config : Config} {fields : Fields Json}
    (h : WellSorted config fields) (strict : Bool) {machine : Machine} {depth : Nat}
    (hlasts : machine.Lasts depth) :
    ∃ entries, types fields = .obj entries ∧ EndsAsDocumented machine depth entries
      (convertOn machine config strict (.obj fields)).outcome := by
  obtain ⟨entries, htypes, hentries⟩ := h.exists_entries
  refine ⟨entries, htypes, ?_⟩
  rw [convertOn_of_types htypes]
  have hfails := convertEntries_failsAsDocumented (h.resolver strict) hlasts (List.Subset.refl _)
    hentries
  cases houtcome : (convertEntries machine
      { definitions := definitions fields, config, strict } entries).outcome with
  | ok objects => exact .converted (keys_of_gives (convertEntries_ok_iff.mp houtcome))
  | error failure => exact hfails failure houtcome

/-- An entry with a name that is defined, a default and a switch that is a list; and one whose
`node` is a number. -/
theorem ends_as_documented_of_two_entries :
    let fields : Fields Json := [("definitions", .arr [.str "Item"]),
      ("types", .obj [
        ("item", .obj [("node", .str "Item"), ("default", .null), ("parameter", .arr [.null])]),
        ("odd", .obj [("node", .int 5)])])]
    WellSorted {} fields ∧ Machine.usual.Lasts 450 ∧ ∃ entries, types fields = .obj entries ∧
      EndsAsDocumented .usual 450 entries (convertOn .usual {} true (.obj fields)).outcome := by
  intro fields
  have h : WellSorted {} fields := by
    refine ⟨fun value hvalue => ?_, fun value hvalue => ?_, ⟨_, rfl⟩, ⟨_, rfl⟩⟩
    · exact ⟨["Item"], (Option.some.inj hvalue).symm⟩
    · refine ⟨_, (Option.some.inj hvalue).symm, fun entry hentry => ?_⟩
      rcases List.mem_pair.mp hentry with rfl | rfl <;> exact ⟨_, rfl⟩
  have hlasts : Machine.usual.Lasts 450 := fun _ _ hdepth => if_pos hdepth
  exact ⟨h, hlasts, convert_ends_as_documented h true hlasts⟩

/-- The node of an integer or nothing, said so many times. -/
def nestedNullables : Nat → Json
  | 0 => .str "int"
  | levels + 1 => .obj [("kind", .str "nullable"), ("type", nestedNullables levels)]

theorem depth_nestedNullables (levels : Nat) : (nestedNullables levels).depth = levels := by
  induction levels with
  | zero => rfl
  | succ levels ih => simp [nestedNullables, Json.depth, Json.depthOfFields, ih]

/-- The document of one node. -/
def ofNode (node : Json) : Fields Json := [("types", .obj [("a", .obj [("node", node)])])]

theorem wellSorted_ofNode (node : Json) : WellSorted {} (ofNode node) := by
  refine ⟨nofun, fun value hvalue => ?_, ⟨_, rfl⟩, ⟨_, rfl⟩⟩
  refine ⟨_, (Option.some.inj hvalue).symm, fun entry hentry => ?_⟩
  rw [List.mem_singleton.mp hentry]
  exact ⟨_, rfl⟩

/-- The least natural that has more digits than so. -/
theorem isWithin_pow_eq_false {limit : Nat} (h : 0 < limit) :
    Text.isWithin (some limit) (10 ^ limit) = false := by
  have hten : Int.natAbs 10 = 10 := rfl
  rw [Text.isWithin, Option.all_some, decide_eq_false_iff_not, Text.decimal, List.length_map,
    Nat.length_toDigits_le_iff (by decide) h, Int.natAbs_pow, hten]
  exact lt_irrefl _

/-- A kind that cannot be shown in the message that there is no such kind. -/
theorem read_of_long_kind {limit : Option Nat} {number : Int}
    (h : Text.isWithin limit number = false) :
    TypeExpr.read limit (.obj [("kind", .int number)]) = .error (.unprintable (.int number)) := by
  have hprints : (Json.int number).prints limit = false := by
    rw [Json.prints, Json.integers, List.all_cons, h, Bool.false_and]
  have hkind : Decoded.require "kind" [("kind", Json.int number)] = .ok (.int number) := rfl
  rw [TypeExpr.read_obj, hkind, Decoded.ok_bind]
  show Decoded.showing limit (.int number) _ = _
  rw [Decoded.showing, hprints]
  rfl

/-- Documents with values of the right sort that end in neither of the documented ways: a node is nested so
deep that the calls run out, and a kind is an integer that has too many digits for a message. -/
theorem conversion_exhausts_machine :
    let outcome := fun node => (convertOn .usual {} false (.obj (ofNode node))).outcome
    (∀ node, WellSorted {} (ofNode node)) ∧
      outcome (nestedNullables 600) = .error (.exhausted .calls) ∧
      outcome (.obj [("kind", .int (10 ^ 4300))]) = .error (.exhausted .digits) := by
  intro outcome
  refine ⟨wellSorted_ofNode, ?_, ?_⟩
  · have hdeep : ∀ node, 450 < Json.depth node → outcome node = .error (.exhausted .calls) := by
      intro node hdepth
      have hcalls : ∀ r, Machine.usual.overflow? r node = some 0 :=
        fun r => if_neg (Nat.not_le_of_lt hdepth)
      show (convertEntries .usual _ [("a", .obj [("node", node)])]).outcome = _
      rw [outcome_singleton]
      show ((Report.interrupted (Machine.usual.overflow? _ node) _).outcome.map _) = _
      rw [hcalls]
      rfl
    refine hdeep _ ?_
    rw [depth_nestedNullables]
    decide
  · have hlong : ∀ number, Text.isWithin (some 4300) number = false →
        outcome (.obj [("kind", .int number)]) = .error (.exhausted .digits) := by
      intro number hnumber
      show (convertEntries .usual _ [("a", .obj [("node", .obj [("kind", .int number)])])]).outcome = _
      rw [outcome_singleton]
      show Except.map _ ((Report.ofDecoded _ (TypeExpr.read (some 4300) _) >>= _) >>= _).outcome = _
      rw [read_of_long_kind hnumber]
      rfl
    exact hlong _ (isWithin_pow_eq_false (by decide))

end Document

end Schemata
