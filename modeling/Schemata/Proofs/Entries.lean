import Mathlib.Data.List.Forall2
import Schemata.Document
import Schemata.Proofs.Sameness

/-!
# Entries

A document is converted entry by entry, by one resolver that remembers nothing. So what becomes of an
entry does not depend on the others:

* **lists** — entries that are given as two lists are converted as the one and then the other
  (`Document.convertEntries_append`);
* **two ways** — either each entry has an object alone, and these are the objects of all, or there is
  a first entry that fails alone, and so fail all (`Document.converts_or_fails`). What is recorded is
  what each entry records alone, up to the end or up to that failure;
* **names** — an entry is found under its name, and its object is found under that name too
  (`Document.get?_of_gives`).

`Document.convert_entry_by_entry` puts them together.
-/

namespace Schemata

open List (Forall₂)

/-- A report is what it records and how it ends. -/
theorem Report.eq_of_outcome {α : Type} {report : Report α} {outcome : Except Failure α}
    (h : report.outcome = outcome) : report = ⟨report.entries, outcome⟩ := by
  rw [← h]

namespace Document

variable {machine : Machine} {r : Resolver} {entry object : Text × Json} {entries objects : Fields Json}

/-- Entries are converted as any first ones and then the rest. -/
theorem convertEntries_append (machine : Machine) (r : Resolver) (before after : Fields Json) :
    convertEntries machine r (before ++ after) = do
      let objects ← convertEntries machine r before
      let others ← convertEntries machine r after
      return objects ++ others := by
  induction before with
  | nil => simp [convertEntries]
  | cons entry before ih => simp [convertEntries, ih]

/-- The object that an entry has alone. -/
def Gives (machine : Machine) (r : Resolver) (entry object : Text × Json) : Prop :=
  (convertEntries machine r [entry]).outcome = .ok [object]

/-- What an entry records alone. -/
def recorded (machine : Machine) (r : Resolver) (entry : Text × Json) : List Diagnostic :=
  (convertEntries machine r [entry]).entries

theorem outcome_singleton (machine : Machine) (r : Resolver) (entry : Text × Json) :
    (convertEntries machine r [entry]).outcome =
      (convertEntry machine r entry.1 entry.2).outcome.map fun object => [(entry.1, object)] := by
  simp only [convertEntries, Report.outcome_bind]
  cases (convertEntry machine r entry.1 entry.2).outcome <;> rfl

/-- The object of an entry has the name of the entry. -/
theorem gives_iff : Gives machine r entry object ↔
    object.1 = entry.1 ∧ (convertEntry machine r entry.1 entry.2).outcome = .ok object.2 := by
  obtain ⟨name, value⟩ := object
  rw [Gives, outcome_singleton]
  cases (convertEntry machine r entry.1 entry.2).outcome <;> simp [Except.map, eq_comm]

/-- An entry alone has one object, or it fails. -/
theorem gives_or_fails (machine : Machine) (r : Resolver) (entry : Text × Json) :
    (∃ object, Gives machine r entry object) ∨
      ∃ failure, (convertEntries machine r [entry]).outcome = .error failure := by
  cases houtcome : (convertEntry machine r entry.1 entry.2).outcome with
  | ok value => exact .inl ⟨(entry.1, value), gives_iff.mpr ⟨rfl, houtcome⟩⟩
  | error failure => exact .inr ⟨failure, by rw [outcome_singleton, houtcome]; rfl⟩

/-- Entries that have objects alone have them together. -/
theorem convertEntries_of_gives (h : Forall₂ (Gives machine r) entries objects) :
    convertEntries machine r entries = ⟨entries.flatMap (recorded machine r), .ok objects⟩ := by
  induction h with
  | nil => rfl
  | @cons entry object entries objects hentry _ ih =>
      rw [← List.singleton_append, convertEntries_append, ih, Report.eq_of_outcome hentry]
      simp [bind, pure, recorded]

/-- The first entry that fails alone ends them all. -/
theorem convertEntries_of_failing {before after : Fields Json} {failure : Failure}
    (hbefore : Forall₂ (Gives machine r) before objects)
    (hentry : (convertEntries machine r [entry]).outcome = .error failure) :
    convertEntries machine r (before ++ entry :: after) =
      ⟨(before ++ [entry]).flatMap (recorded machine r), .error failure⟩ := by
  rw [convertEntries_append, convertEntries_of_gives hbefore, ← List.singleton_append,
    convertEntries_append machine r [entry], Report.eq_of_outcome hentry]
  simp [bind, recorded]

/-- Either all entries have objects alone or there is a first one that fails. -/
theorem converts_or_fails (machine : Machine) (r : Resolver) (entries : Fields Json) :
    (∃ objects, Forall₂ (Gives machine r) entries objects) ∨
      ∃ before entry after objects failure, entries = before ++ entry :: after ∧
        Forall₂ (Gives machine r) before objects ∧
          (convertEntries machine r [entry]).outcome = .error failure := by
  induction entries with
  | nil => exact .inl ⟨[], .nil⟩
  | cons entry entries ih =>
      rcases gives_or_fails machine r entry with ⟨object, hobject⟩ | ⟨failure, hfailure⟩
      · rcases ih with ⟨objects, hobjects⟩ | ⟨before, other, after, objects, failure, rfl, h, hother⟩
        · exact .inl ⟨object :: objects, .cons hobject hobjects⟩
        · exact .inr ⟨entry :: before, other, after, object :: objects, failure, rfl,
            .cons hobject h, hother⟩
      · exact .inr ⟨[], entry, entries, [], failure, rfl, .nil, hfailure⟩

theorem convertEntries_ok_iff :
    (convertEntries machine r entries).outcome = .ok objects ↔ Forall₂ (Gives machine r) entries objects := by
  constructor
  · intro h
    rcases converts_or_fails machine r entries with
      ⟨others, hothers⟩ | ⟨before, entry, after, others, failure, rfl, hbefore, hentry⟩
    · rw [convertEntries_of_gives hothers] at h
      obtain rfl := Except.ok.inj h
      exact hothers
    · rw [convertEntries_of_failing hbefore hentry] at h
      cases h
  · intro h
    rw [convertEntries_of_gives h]

/-- All entries convert together exactly if each one does alone. -/
theorem exists_objects_iff : (∃ objects, (convertEntries machine r entries).outcome = .ok objects) ↔
    ∀ entry ∈ entries, ∃ objects, (convertEntries machine r [entry]).outcome = .ok objects := by
  constructor
  · rintro ⟨objects, hobjects⟩ entry hentry
    obtain ⟨object, -, hobject⟩ := exists_right_of_mem (convertEntries_ok_iff.mp hobjects) hentry
    exact ⟨[object], hobject⟩
  · intro hall
    rcases converts_or_fails machine r entries with
      ⟨objects, hobjects⟩ | ⟨before, entry, after, objects, failure, rfl, -, hfailure⟩
    · exact ⟨objects, convertEntries_ok_iff.mpr hobjects⟩
    · obtain ⟨objects, hobjects⟩ := hall entry (List.mem_append_right _ List.mem_cons_self)
      rw [hfailure] at hobjects
      cases hobjects

/-- If they fail then it is as the first one that fails alone. -/
theorem first_of_failure {failure : Failure}
    (h : (convertEntries machine r entries).outcome = .error failure) :
    ∃ before entry after objects, entries = before ++ entry :: after ∧
      Forall₂ (Gives machine r) before objects ∧ (convertEntries machine r [entry]).outcome = .error failure := by
  rcases converts_or_fails machine r entries with
    ⟨objects, hobjects⟩ | ⟨before, entry, after, objects, other, rfl, hbefore, hother⟩
  · rw [convertEntries_of_gives hobjects] at h
    cases h
  · rw [convertEntries_of_failing hbefore hother] at h
    obtain rfl := Except.error.inj h
    exact ⟨before, entry, after, objects, rfl, hbefore, hother⟩

theorem keys_of_gives (h : Forall₂ (Gives machine r) entries objects) : objects.keys = entries.keys := by
  induction h with
  | nil => rfl
  | cons hentry _ ih =>
      show _ :: Fields.keys _ = _ :: Fields.keys _
      rw [(gives_iff.mp hentry).1, ih]

/-- Under the name of an entry there is its object. -/
theorem get?_of_gives (h : Forall₂ (Gives machine r) entries objects) {name : Text} {value : Json}
    (hname : Fields.get? entries name = some value) :
    ∃ object, Fields.get? objects name = some object ∧
      (convertEntry machine r name value).outcome = .ok object := by
  induction h with
  | nil => cases hname
  | @cons entry object entries objects hentry _ ih =>
      obtain ⟨hkey, hobject⟩ := gives_iff.mp hentry
      rw [Fields.get?] at hname ⊢
      rw [hkey]
      split at hname
      · next heq =>
        obtain rfl := Option.some.inj hname
        exact ⟨object.2, if_pos heq, heq ▸ hobject⟩
      · next hne =>
        obtain ⟨other, hother, hvalue⟩ := ih hname
        exact ⟨other, (if_neg hne).trans hother, hvalue⟩

/-- The document of one entry. -/
def only (definitions : Json) (entry : Text × Json) : Json :=
  .obj [("definitions", definitions), ("types", .obj [entry])]

theorem convertOn_of_types {config : Config} {strict : Bool} {fields : Fields Json}
    (h : types fields = .obj entries) :
    convertOn machine config strict (.obj fields) =
      convertEntries machine { definitions := definitions fields, config, strict } entries := by
  rw [convertOn, h]

/-- **A document is converted entry by entry.** It converts exactly if each entry does alone, in a
document of the same definitions. Then the objects are those of the entries alone, in their order and
under their names, and what is recorded is what each entry records, in that order. If it fails, it does
so as the first entry that fails alone, and what is recorded is what the entries record up to that one.
So in another document of the same definitions an entry has the same object, whatever stands beside. -/
theorem convert_entry_by_entry (config : Config) (strict : Bool) (fields entries : Fields Json)
    (h : types fields = .obj entries) :
    let whole := convert config strict (.obj fields)
    let alone := fun entry => convert config strict (only (definitions fields) entry)
    ((∃ objects, whole.outcome = .ok objects) ↔
      ∀ entry ∈ entries, ∃ objects, (alone entry).outcome = .ok objects) ∧
    (∀ objects, whole.outcome = .ok objects →
      objects.keys = entries.keys ∧
        Forall₂ (fun entry object => (alone entry).outcome = .ok [object]) entries objects ∧
        whole.entries = entries.flatMap fun entry => (alone entry).entries) ∧
    (∀ failure, whole.outcome = .error failure →
      ∃ before entry after, entries = before ++ entry :: after ∧
        (∀ other ∈ before, ∃ objects, (alone other).outcome = .ok objects) ∧
        (alone entry).outcome = .error failure ∧
        whole.entries = (before ++ [entry]).flatMap fun entry => (alone entry).entries) ∧
    ∀ fields' entries' objects objects', definitions fields' = definitions fields →
      types fields' = .obj entries' → whole.outcome = .ok objects →
      (convert config strict (.obj fields')).outcome = .ok objects' →
      ∀ name value, Fields.get? entries name = some value → Fields.get? entries' name = some value →
        ∃ object, Fields.get? objects name = some object ∧
          Fields.get? objects' name = some object := by
  intro whole alone
  let r : Resolver := { definitions := definitions fields, config, strict }
  have hwhole : whole = convertEntries {} r entries := convertOn_of_types h
  have halone : alone = fun entry => convertEntries {} r [entry] := rfl
  rw [hwhole, halone]
  refine ⟨exists_objects_iff, fun objects hobjects => ?_, fun failure hfailure => ?_, ?_⟩
  · have hgives := convertEntries_ok_iff.mp hobjects
    refine ⟨keys_of_gives hgives, hgives, ?_⟩
    rw [convertEntries_of_gives hgives]
    rfl
  · obtain ⟨before, entry, after, objects, rfl, hbefore, hentry⟩ := first_of_failure hfailure
    have hconverted := convertEntries_ok_iff.mpr hbefore
    refine ⟨before, entry, after, rfl, exists_objects_iff.mp ⟨objects, hconverted⟩, hentry, ?_⟩
    rw [convertEntries_of_failing hbefore hentry]
    rfl
  · intro fields' entries' objects objects' hdefinitions h' hobjects hobjects' name value hname hname'
    rw [convert, convertOn_of_types h', hdefinitions] at hobjects'
    obtain ⟨object, hobject, hvalue⟩ := get?_of_gives (convertEntries_ok_iff.mp hobjects) hname
    obtain ⟨object', hobject', hvalue'⟩ := get?_of_gives (convertEntries_ok_iff.mp hobjects') hname'
    -- both are the object of the entry alone
    obtain rfl := Except.ok.inj (hvalue.symm.trans hvalue')
    exact ⟨object, hobject, hobject'⟩

/-- Two entries have the same objects in either order, although one of them is warned about. With one
that cannot be resolved between them, the document fails as an entry alone does. -/
theorem entries_in_either_order :
    let count : Text × Json := ("Count", .obj [("node", .str "int")])
    let rows : Text × Json := ("Rows", .obj [("node", .str "array")])
    let lost : Text × Json := ("Lost", .obj [("node", .str "Missing")])
    let fields := fun entries : Fields Json => ([("types", .obj entries)] : Fields Json)
    let outcome := fun entries => (convert {} false (.obj (fields entries))).outcome
    (∃ objects objects' object, outcome [count, rows] = .ok objects ∧
      outcome [rows, count] = .ok objects' ∧ objects.keys = ["Count", "Rows"] ∧
      Fields.get? objects "Count" = some object ∧ Fields.get? objects' "Count" = some object) ∧
    ∃ failure, outcome [rows, lost, count] = .error failure ∧
      ∃ entry ∈ [rows, lost, count], (convert {} false (only (.arr []) entry)).outcome =
        .error failure := by
  intro count rows lost fields outcome
  constructor
  · have hends : ∃ objects, outcome [count, rows] = .ok objects := ⟨_, rfl⟩
    have hends' : ∃ objects', outcome [rows, count] = .ok objects' := ⟨_, rfl⟩
    obtain ⟨objects, hobjects⟩ := hends
    obtain ⟨objects', hobjects'⟩ := hends'
    obtain ⟨-, hordered, -, hkept⟩ :=
      convert_entry_by_entry {} false (fields [count, rows]) [count, rows] rfl
    obtain ⟨hkeys, -, -⟩ := hordered objects hobjects
    obtain ⟨object, hobject, hobject'⟩ := hkept (fields [rows, count]) [rows, count] objects objects'
      rfl rfl hobjects hobjects' "Count" count.2 rfl rfl
    exact ⟨objects, objects', object, hobjects, hobjects', hkeys, hobject, hobject'⟩
  · have hends : ∃ failure, outcome [rows, lost, count] = .error failure := ⟨_, rfl⟩
    obtain ⟨failure, hfailure⟩ := hends
    obtain ⟨-, -, hfails, -⟩ :=
      convert_entry_by_entry {} false (fields [rows, lost, count]) [rows, lost, count] rfl
    obtain ⟨before, entry, after, hentries, -, hentry, -⟩ := hfails failure hfailure
    refine ⟨failure, hfailure, entry, ?_, hentry⟩
    rw [hentries]
    exact List.mem_append_right _ List.mem_cons_self

end Document

end Schemata
