import Schemata.Proofs.Trees
import Schemata.Report

/-!
# Faults are reported where they are

A value that writes no type expression is answered by steps and a defect. The steps lead to a part of
the value, and it is this part that has the defect:

* **reading in stages** — an object is read by what its kind calls for (`TypeExpr.read_obj`), and one
  rule says how the value under a key is read (`Decoded.part`) and one how the items of a list are
  (`Decoded.each`);
* **defects** — what it is for a part to have a defect (`Defect.IsOf`), and which keys an object cannot
  do without (`Needs`);
* **blame** — a reader that is right about the errors of the parts is right about those of the whole
  (`Decoded.Blames`), with one lemma for each way of putting readers together. Besides faults there is
  one error, with a limit on digits: a part that cannot be shown, which is the kind or the key of an
  object (`Json.IsLabel`).

The path of a fault is where the value stands, then the steps; neither they nor the defect depend on
where that is (`TypeExpr.fault_lies_where_reported`).
-/

namespace Schemata

/-! ## Reading in stages -/

namespace Decoded

variable {α β : Type}

@[simp] theorem ok_bind (value : α) (next : α → Decoded β) : .ok value >>= next = next value := rfl

@[simp] theorem showing_none (value : Json) (result : Decoded α) :
    showing none value result = result := by
  rw [showing, if_pos (Json.prints_none value)]

theorem require_of_get? {key : Text} {fields : Fields Json} {value : Json}
    (h : Fields.get? fields key = some value) : require key fields = .ok value := by
  rw [require, h]

/-- What is read from the value under a key that must be there. -/
def part (read : Json → Decoded α) (key : Text) (fields : Fields Json) : Decoded α :=
  require key fields >>= fun value => under (.key key) (read value)

/-- What is read from the items of a list, from the one at `position` on. -/
def each (read : Json → Decoded α) (position : Nat) : List Json → Decoded (List α)
  | [] => .ok []
  | item :: rest => do
    let first ← under (.index position) (read item)
    return first :: (← each read (position + 1) rest)

end Decoded

namespace Kind

/-- The keys that an object of a kind cannot do without, besides its kind. -/
def required : Kind → List Text
  | .identifier => ["name"]
  | .name => ["parts"]
  | .nullable | .array => ["type"]
  | .union | .intersection => ["types"]
  | .generic => ["name", "args"]
  | .shape => ["items"]
  | .const => ["value"]
  | .param => ["type"]

theorem ofJson?_word (kind : Kind) : ofJson? (.str kind.word) = some kind := by
  cases kind <;> decide

theorem eq_of_ofJson? {value : Json} {kind : Kind} (h : ofJson? value = some kind) :
    value = .str kind.word := by
  have htext := List.find?_some (p := fun kind : Kind => value.isText kind.word) h
  exact Json.isText_iff.mp htext

/-- A value names no kind if it is the word of none. -/
theorem ne_word_of_ofJson? {value : Json} (h : ofJson? value = none) (kind : Kind) :
    value ≠ .str kind.word := by
  rintro rfl
  rw [ofJson?_word] at h
  cases h

end Kind

namespace TypeExpr

open Decoded

/-- The expression that an object of that kind writes. -/
def ofKind (limit : Option Nat) (fields : Fields Json) : Kind → Decoded TypeExpr
  | .identifier => return .identifier (← part text "name" fields)
  | .name => return .qualified (← part nameParts "parts" fields)
  | .nullable => return .nullable (← part (read limit) "type" fields)
  | .union => return .union (← part (membersOf limit) "types" fields)
  | .intersection => return .intersection (← part (membersOf limit) "types" fields)
  | .array => return .arrayOf (← part (read limit) "type" fields)
  | .generic => do
    let name ← part text "name" fields
    return .generic name (← part (membersOf limit) "args" fields)
  | .shape => return .shape (← part (shapeOf limit) "items" fields)
  | .const => return .literal (← require "value" fields)
  | .param => do
    let inner ← part (read limit) "type" fields
    return .described inner (← optionalText "description" fields)

/-- Whether the field of a shape that an object writes is optional. -/
def isOptional (fields : Fields Json) : Bool :=
  ((Fields.get? fields "optional").map Json.isOn).getD false

variable (limit : Option Nat)

theorem read_obj (fields : Fields Json) :
    read limit (.obj fields) = require "kind" fields >>= fun named =>
      match Kind.ofJson? named with
      | some kind => ofKind limit fields kind
      | none => showing limit named (fail (.unknownKind named)) := by
  rw [read]
  cases hnamed : Fields.get? fields "kind" with
  | none => simp only [require, hnamed, fail, bind, Except.bind]
  | some named =>
      rw [require_of_get? hnamed, ok_bind]
      cases hkind : Kind.ofJson? named with
      | none => simp only [hkind]
      | some kind =>
          cases kind <;>
            simp only [hkind, ofKind, part, requireText, childAt_eq, membersAt_eq, shapeAt_eq,
              bind_assoc]

theorem shapeFieldOf_obj (fields : Fields Json) :
    shapeFieldOf limit (.obj fields) = do
      let key ← require "key" fields
      let name ← showing limit key (.ok key.asName)
      let type ← part (read limit) "type" fields
      return ⟨name, type, isOptional fields⟩ := by
  rw [shapeFieldOf]
  simp only [childAt_eq]
  rfl

theorem membersOf_of_not_arr {value : Json} (h : ∀ items, value ≠ .arr items) :
    membersOf limit value = fail .notList := by
  rw [membersOf]
  exact h

theorem shapeOf_of_not_arr {value : Json} (h : ∀ items, value ≠ .arr items) :
    shapeOf limit value = fail .notList := by
  rw [shapeOf]
  exact h

theorem shapeFieldOf_of_not_obj {value : Json} (h : ∀ fields, value ≠ .obj fields) :
    shapeFieldOf limit value = fail .notObject := by
  rw [shapeFieldOf]
  exact h

theorem membersFrom_eq (position : Nat) (items : List Json) :
    membersFrom limit position items = each (read limit) position items := by
  induction items generalizing position with
  | nil => rfl
  | cons item rest ih => rw [membersFrom, each, ih]

theorem shapeFrom_eq (position : Nat) (items : List Json) :
    shapeFrom limit position items = each (shapeFieldOf limit) position items := by
  induction items generalizing position with
  | nil => rfl
  | cons item rest ih => rw [shapeFrom, each, ih]

end TypeExpr

/-! ## Defects -/

/-- `Needs fields steps key`: an object that is reached by those steps cannot do without the key. An
expression has a kind and what its kind calls for, an item of a shape has a key and a type. -/
inductive Needs (fields : Fields Json) : List Step → Text → Prop
  | kind (steps : List Step) : Needs fields steps "kind"
  | ofKind {kind : Kind} {key : Text} (steps : List Step) :
      Fields.get? fields "kind" = some (.str kind.word) → key ∈ kind.required →
      Needs fields steps key
  | ofItem {key : Text} (before : List Step) (position : Nat) :
      key ∈ (["key", "type"] : List Text) →
      Needs fields (before ++ [.key "items", .index position]) key

/-- Whether a part that is reached by those steps has the defect. -/
def Defect.IsOf (steps : List Step) (part : Json) : Defect → Prop
  | .notExpression sort =>
    (∀ text, part ≠ .str text) ∧ (∀ fields, part ≠ .obj fields) ∧ sort = part.sortName
  | .missing key => ∃ fields, part = .obj fields ∧ Fields.get? fields key = none ∧ Needs fields steps key
  | .unknownKind named =>
    ∃ fields, part = .obj fields ∧ Fields.get? fields "kind" = some named ∧
      ∀ kind : Kind, named ≠ .str kind.word
  | .notText => ∀ text, part ≠ .str text
  | .notList => ∀ items, part ≠ .arr items
  | .notTexts => (∀ text, part ≠ .str text) ∧ ∀ texts : List Text, part ≠ .arr (texts.map .str)
  | .notObject => ∀ fields, part ≠ .obj fields

/-! ## Blame -/

/-- The part is the kind or the key of an object in the value. -/
def Json.IsLabel (part value : Json) : Prop :=
  ∃ fields, IsPart (.obj fields) value ∧
    (Fields.get? fields "kind" = some part ∨ Fields.get? fields "key" = some part)

theorem Json.IsLabel.of_isPart {part middle whole : Json} (h : part.IsLabel middle)
    (hmiddle : IsPart middle whole) : part.IsLabel whole := by
  obtain ⟨fields, hfields, hlabel⟩ := h
  exact ⟨fields, hfields.trans hmiddle, hlabel⟩

/-- A step leads to a part. -/
theorem Step.isPart_of_follow? {step : Step} {value inside : Json}
    (h : step.follow? value = some inside) : Json.IsPart inside value := by
  cases step with
  | key name =>
      cases value with
      | obj fields => exact Json.isPart_of_field? h
      | _ => cases h
  | index position =>
      cases value with
      | arr items => exact .item (List.mem_of_getElem? h) (.refl inside)
      | _ => cases h

/-- Whether an error is one of the value, which is reached by the steps `before`: a fault is one of the part
that the steps in it lead to, and what cannot be shown is the kind or the key of an object. -/
def DecodeError.IsOf (limit : Option Nat) (before : List Step) (value : Json) : DecodeError → Prop
  | .fault steps defect =>
    ∃ part, Step.followAll? steps value = some part ∧ defect.IsOf (before ++ steps) part
  | .unprintable part => part.IsLabel value ∧ part.prints limit = false

namespace Decoded

variable {α β : Type} {limit : Option Nat} {before : List Step} {value : Json} {fields : Fields Json}
  {key : Text}

/-- An error in the result is one of the value, which is reached by the steps `before`. -/
def Blames (limit : Option Nat) (before : List Step) (value : Json) (result : Decoded α) : Prop :=
  ∀ e, result = .error e → e.IsOf limit before value

theorem Blames.ok (found : α) : Blames limit before value (.ok found) := nofun

theorem Blames.fail {defect : Defect} (h : defect.IsOf before value) :
    Blames limit before value (fail defect : Decoded α) := by
  rintro e ⟨⟩
  exact ⟨value, rfl, by rwa [List.append_nil]⟩

/-- Only the kind and the key of an object are shown. -/
theorem Blames.showing {named : Json} {result : Decoded α}
    (hlabel : Fields.get? fields "kind" = some named ∨ Fields.get? fields "key" = some named)
    (h : Blames limit before (.obj fields) result) :
    Blames limit before (.obj fields) (showing limit named result) := by
  rw [Decoded.showing]
  cases hprints : named.prints limit with
  | true => exact h
  | false =>
      rintro e ⟨⟩
      exact ⟨⟨fields, .refl _, hlabel⟩, hprints⟩

theorem Blames.bind {result : Decoded α} {next : α → Decoded β}
    (h : Blames limit before value result) (hnext : ∀ found, Blames limit before value (next found)) :
    Blames limit before value (result >>= next) := by
  intro e he
  cases result with
  | error fault =>
      obtain rfl : fault = e := Except.error.inj he
      exact h fault rfl
  | ok found => exact hnext found e he

/-- What is right about a part is right about the value, one step further out. -/
theorem Blames.under {step : Step} {inside : Json} {result : Decoded α}
    (hstep : step.follow? value = some inside) (h : Blames limit (before ++ [step]) inside result) :
    Blames limit before value (under step result) := by
  intro e he
  cases result with
  | ok found => cases he
  | error found =>
      obtain rfl : found.under step = e := Except.error.inj he
      cases found with
      | fault steps defect =>
          obtain ⟨part, hpart, hdefect⟩ := h _ rfl
          refine ⟨part, ?_, ?_⟩
          · show (step.follow? value).bind (Step.followAll? steps) = some part
            rw [hstep, Option.bind_some, hpart]
          · show defect.IsOf (before ++ step :: steps) part
            rwa [List.append_cons]
      | unprintable part =>
          obtain ⟨hlabel, hprints⟩ := h _ rfl
          exact ⟨hlabel.of_isPart (Step.isPart_of_follow? hstep), hprints⟩

theorem Blames.require (hneeds : Needs fields before key) :
    Blames limit before (.obj fields) (require key fields) := by
  rw [Decoded.require]
  cases hvalue : Fields.get? fields key with
  | none => exact .fail ⟨fields, rfl, hvalue, hneeds⟩
  | some value => exact .ok value

theorem Blames.part {read : Json → Decoded α} (hneeds : Needs fields before key)
    (h : ∀ value, Fields.get? fields key = some value →
      Blames limit (before ++ [.key key]) value (read value)) :
    Blames limit before (.obj fields) (part read key fields) := by
  rw [Decoded.part, Decoded.require]
  cases hvalue : Fields.get? fields key with
  | none => exact .fail ⟨fields, rfl, hvalue, hneeds⟩
  | some value => exact .under hvalue (h value hvalue)

/-- The items of a list are read one by one; `read` is right about each of them. -/
theorem Blames.each {read : Json → Decoded α} {items : List Json}
    (h : ∀ position item, items[position]? = some item →
      Blames limit (before ++ [.index position]) item (read item)) :
    Blames limit before (.arr items) (each read 0 items) := by
  -- the items that were read already are in front of those that are left
  suffices hrest : ∀ rest done, items = done ++ rest →
      Blames limit before (.arr items) (Decoded.each read done.length rest) from hrest items [] rfl
  intro rest
  induction rest with
  | nil => exact fun done _ => .ok []
  | cons item rest ih =>
      intro done hitems
      have hitem : items[done.length]? = some item := by simp [hitems]
      have hlater := ih (done ++ [item]) (by rw [hitems, List.append_assoc, List.singleton_append])
      rw [List.length_append, List.length_singleton] at hlater
      refine .bind (.under hitem (h done.length item hitem)) fun first => ?_
      exact .bind hlater fun others => .ok _

theorem blames_text (value : Json) : Blames limit before value (text value) := by
  cases value with
  | str text => exact .ok text
  | _ => exact .fail fun _ h => nomatch h

theorem texts?_eq_some_iff {items : List Json} {found : List Text} :
    texts? items = some found ↔ items = found.map .str := by
  induction items generalizing found with
  | nil => cases found <;> simp [texts?]
  | cons item rest ih =>
      cases item <;> cases found <;> simp [texts?, ih]
      exact and_comm

theorem blames_nameParts (value : Json) : Blames limit before value (nameParts value) := by
  cases value with
  | str text => exact .ok _
  | arr items =>
      rw [nameParts]
      cases htexts : texts? items with
      | some parts => exact .ok parts
      | none =>
          refine .fail ⟨nofun, fun found hfound => ?_⟩
          obtain rfl : items = found.map .str := Json.arr.inj hfound
          rw [texts?_eq_some_iff.mpr rfl] at htexts
          cases htexts
  | _ => exact .fail ⟨nofun, nofun⟩

theorem blames_optionalText (key : Text) :
    Blames limit before (.obj fields) (optionalText key fields) := by
  rw [optionalText]
  cases hvalue : Fields.get? fields key with
  | none => exact .ok []
  | some value => exact .under hvalue (blames_text value)

end Decoded

namespace TypeExpr

open Decoded

variable {limit : Option Nat}

/-- Whatever a value is read as, its errors are those that it has. -/
structure IsBlamed (limit : Option Nat) (value : Json) : Prop where
  expression (before : List Step) : Blames limit before value (read limit value)
  members (before : List Step) : Blames limit before value (membersOf limit value)
  shape (before : List Step) : Blames limit (before ++ [.key "items"]) value (shapeOf limit value)
  item (before : List Step) (position : Nat) :
    Blames limit (before ++ [.key "items", .index position]) value (shapeFieldOf limit value)

/-- A value without parts has at most a fault of its own. -/
theorem isBlamed_of_scalar {value : Json}
    (hexpr : ∀ before, Blames limit before value (read limit value))
    (harr : ∀ items, value ≠ .arr items) (hobj : ∀ fields, value ≠ .obj fields) :
    IsBlamed limit value := by
  refine ⟨hexpr, fun before => ?_, fun before => ?_, fun before position => ?_⟩
  · rw [membersOf_of_not_arr limit harr]
    exact .fail harr
  · rw [shapeOf_of_not_arr limit harr]
    exact .fail harr
  · rw [shapeFieldOf_of_not_obj limit hobj]
    exact .fail hobj

theorem isBlamed_arr {items : List Json} (ih : ∀ item ∈ items, IsBlamed limit item) :
    IsBlamed limit (.arr items) := by
  refine ⟨fun before => ?_, fun before => ?_, fun before => ?_, fun before position => ?_⟩
  · exact .fail ⟨nofun, nofun, rfl⟩
  · rw [membersOf, membersFrom_eq]
    exact .each fun position item hitem => (ih item (List.mem_of_getElem? hitem)).expression _
  · rw [shapeOf, shapeFrom_eq]
    refine .each fun position item hitem => ?_
    rw [List.append_assoc]
    exact (ih item (List.mem_of_getElem? hitem)).item before position
  · exact .fail fun _ h => nomatch h

/-- What an object is read as follows its kind, and what is under its keys is right by induction. -/
theorem blames_ofKind {fields : Fields Json} {kind : Kind} (before : List Step)
    (hkind : Fields.get? fields "kind" = some (.str kind.word))
    (ih : ∀ key value, Fields.get? fields key = some value → IsBlamed limit value) :
    Blames limit before (.obj fields) (ofKind limit fields kind) := by
  have hneeds : ∀ key ∈ kind.required, Needs fields before key :=
    fun key hkey => .ofKind before hkind hkey
  have hchild : ∀ key ∈ kind.required,
      Blames limit before (.obj fields) (part (read limit) key fields) :=
    fun key hkey => .part (hneeds key hkey) fun value hvalue => (ih key value hvalue).expression _
  have hmembers : ∀ key ∈ kind.required,
      Blames limit before (.obj fields) (part (membersOf limit) key fields) :=
    fun key hkey => .part (hneeds key hkey) fun value hvalue => (ih key value hvalue).members _
  have htext : ∀ key ∈ kind.required, Blames limit before (.obj fields) (part text key fields) :=
    fun key hkey => .part (hneeds key hkey) fun value _ => blames_text value
  cases kind with
  | identifier => exact (htext "name" List.mem_cons_self).bind fun _ => .ok _
  | name =>
      exact .bind (.part (hneeds "parts" List.mem_cons_self) fun value _ => blames_nameParts value)
        fun _ => .ok _
  | nullable => exact (hchild "type" List.mem_cons_self).bind fun _ => .ok _
  | union => exact (hmembers "types" List.mem_cons_self).bind fun _ => .ok _
  | intersection => exact (hmembers "types" List.mem_cons_self).bind fun _ => .ok _
  | array => exact (hchild "type" List.mem_cons_self).bind fun _ => .ok _
  | generic =>
      refine (htext "name" List.mem_cons_self).bind fun name => ?_
      exact (hmembers "args" (List.mem_cons_of_mem _ List.mem_cons_self)).bind fun _ => .ok _
  | shape =>
      exact .bind (.part (hneeds "items" List.mem_cons_self) fun value hvalue =>
        (ih "items" value hvalue).shape before) fun _ => .ok _
  | const => exact .bind (.require (hneeds "value" List.mem_cons_self)) fun _ => .ok _
  | param =>
      refine (hchild "type" List.mem_cons_self).bind fun inner => ?_
      exact (blames_optionalText "description").bind fun _ => .ok _

theorem isBlamed_obj {fields : Fields Json} (ih : ∀ field ∈ fields, IsBlamed limit field.2) :
    IsBlamed limit (.obj fields) := by
  have hget : ∀ key value, Fields.get? fields key = some value → IsBlamed limit value :=
    fun key value hvalue => ih (key, value) (Fields.mem_of_get? hvalue)
  refine ⟨fun before => ?_, fun before => ?_, fun before => ?_, fun before position => ?_⟩
  · rw [read_obj, Decoded.require]
    cases hnamed : Fields.get? fields "kind" with
    | none => exact .fail ⟨fields, rfl, hnamed, .kind before⟩
    | some named =>
        rw [ok_bind]
        cases hkind : Kind.ofJson? named with
        | none =>
            have hdefect : (Defect.unknownKind named).IsOf before (.obj fields) :=
              ⟨fields, rfl, hnamed, Kind.ne_word_of_ofJson? hkind⟩
            exact .showing (.inl hnamed) (.fail hdefect)
        | some kind =>
            rw [Kind.eq_of_ofJson? hkind] at hnamed
            exact blames_ofKind before hnamed hget
  · exact .fail fun _ h => by cases h
  · exact .fail fun _ h => by cases h
  · have hneeds : ∀ key ∈ (["key", "type"] : List Text),
        Needs fields (before ++ [.key "items", .index position]) key :=
      fun key hkey => .ofItem before position hkey
    rw [shapeFieldOf_obj]
    rw [Decoded.require]
    cases hkey : Fields.get? fields "key" with
    | none => exact .fail ⟨fields, rfl, hkey, hneeds "key" List.mem_cons_self⟩
    | some key =>
        rw [ok_bind]
        refine .bind (.showing (.inr hkey) (.ok key.asName)) fun name => ?_
        refine .bind (.part (hneeds "type" (List.mem_cons_of_mem _ List.mem_cons_self))
          fun value hvalue => (hget "type" value hvalue).expression _) fun type => ?_
        exact .ok _

/-- **Every reader is right about the faults of every value.** -/
theorem isBlamed (limit : Option Nat) (value : Json) : IsBlamed limit value := by
  induction value with
  | null => exact isBlamed_of_scalar (fun _ => .fail ⟨nofun, nofun, rfl⟩) nofun nofun
  | bool value => exact isBlamed_of_scalar (fun _ => .fail ⟨nofun, nofun, rfl⟩) nofun nofun
  | int value => exact isBlamed_of_scalar (fun _ => .fail ⟨nofun, nofun, rfl⟩) nofun nofun
  | float value => exact isBlamed_of_scalar (fun _ => .fail ⟨nofun, nofun, rfl⟩) nofun nofun
  | str text => exact isBlamed_of_scalar (fun _ => .ok _) nofun nofun
  | arr items ih => exact isBlamed_arr ih
  | obj fields ih => exact isBlamed_obj ih

/-- Without a limit on digits, what is not read has a fault. -/
theorem exists_fault_of_error {value : Json} {e : DecodeError} (h : ofJson value = .error e) :
    ∃ steps defect part, e = .fault steps defect ∧ Step.followAll? steps value = some part ∧
      defect.IsOf steps part := by
  have he := (isBlamed none value).expression [] e h
  cases e with
  | fault steps defect =>
      obtain ⟨part, hpart, hdefect⟩ := he
      exact ⟨steps, defect, part, rfl, hpart, hdefect⟩
  | unprintable part =>
      obtain ⟨-, hprints⟩ := he
      rw [Json.prints_none] at hprints
      cases hprints

/-- **A value that writes no expression is reported with a part of it that has the defect.** It is read
alike wherever it stands: either it writes one expression, or the steps to the part and the defect are
the same, and the path is where the value stands, then the steps. -/
theorem fault_lies_where_reported (value : Json) :
    (∃ expr, ∀ base, Report.ofDecoded base (ofJson value) = pure expr) ∨
      ∃ steps defect part, Step.followAll? steps value = some part ∧ defect.IsOf steps part ∧
        ∀ base, Report.ofDecoded base (ofJson value) =
          .fail (.malformed (Step.renderPath base steps) defect) := by
  cases h : ofJson value with
  | ok expr => exact .inl ⟨expr, fun base => rfl⟩
  | error e =>
      obtain ⟨steps, defect, part, rfl, hpart, hdefect⟩ := exists_fault_of_error h
      exact .inr ⟨steps, defect, part, hpart, hdefect, fun base => rfl⟩

example :
    Report.ofDecoded "$" (ofJson (.obj [("kind", .str "union"),
      ("types", .arr [.str "int", .obj [("kind", .str "nullable")]])])) =
      .fail (.malformed "$.types[1]" (.missing "type")) := by rfl

end TypeExpr

end Schemata
