import Schemata.Proofs.Faults
import Schemata.Proofs.Sameness
import Schemata.TypeExpr.Encode

/-!
# Every spelling of an expression is read as that expression

An expression can be written as a JSON value in many ways. `TypeExpr.Spells` says which: an object has
its keys in any order, among others that mean nothing; an identifier may be a bare string; the parts of
a name may be one text with backslashes between them; and what goes without saying may be left out. All
of them are read as the expression that they write:

* **objects** — a key is found wherever it stands, since no other has its name
  (`Fields.Spread.get?_eq`);
* **names** — a text that is glued from parts falls into these parts again (`Text.pieces_joined`);
* **lists** — what is right of every item is right of the list (`Decoded.each_of_forall₂`).

The plainest value, `TypeExpr.toJson`, is one of the spellings (`TypeExpr.spells_toJson`).
-/

namespace Schemata

open List (Forall₂)

/-! ## Objects -/

namespace Fields

variable {α : Type} {reserved : List Text} {known fields : Fields α} {name : Text}

/-- Fields that hold those known, in any order, and besides them only others whose names are not
reserved. -/
def Spread (reserved : List Text) (known fields : Fields α) : Prop :=
  ∃ unknown, fields.Perm (known ++ unknown) ∧ ∀ field ∈ unknown, field.1 ∉ reserved

theorem spread_self (reserved : List Text) (fields : Fields α) : Spread reserved fields fields :=
  ⟨[], by rw [List.append_nil], nofun⟩

theorem spread_reverse (unknown : Fields α) (h : ∀ field ∈ unknown, field.1 ∉ reserved) :
    Spread reserved known (known ++ unknown).reverse :=
  ⟨unknown, List.reverse_perm _, h⟩

/-- **A known field is found wherever it stands.** -/
theorem Spread.get?_eq (h : Spread reserved known fields) (hknown : (keys known).Nodup)
    (hname : name ∈ reserved) : get? fields name = get? known name := by
  obtain ⟨unknown, hperm, hunknown⟩ := h
  have hnone : valuesOf unknown name = [] := by
    refine valuesOf_eq_nil fun hkey => ?_
    obtain ⟨field, hfield, rfl⟩ := List.mem_map.mp hkey
    exact hunknown field hfield hname
  have hvalues : (valuesOf fields name).Perm (get? known name).toList := by
    have hall := (hperm.filter fun field => field.1 = name).map Prod.snd
    rw [List.filter_append, List.map_append] at hall
    rw [← valuesOf_of_nodup hknown, ← List.append_nil (valuesOf known name), ← hnone]
    exact hall
  rw [get?_eq_head?]
  cases hget : get? known name with
  | none =>
      rw [hget] at hvalues
      rw [hvalues.eq_nil]
      rfl
  | some value =>
      rw [hget] at hvalues
      rw [List.perm_singleton.mp hvalues]
      rfl

end Fields

/-! ## Names -/

namespace Text

theorem pieces_eq_splitOn (separator : CodePoint) (text : Text) :
    pieces separator text = text.splitOn separator := by
  induction text with
  | nil => exact (List.splitOn_nil separator).symm
  | cons c rest ih =>
      rw [pieces, ih, List.splitOn_cons_eq_if_modifyHead]
      cases hrest : rest.splitOn separator with
      | nil => exact absurd hrest (List.splitOn_ne_nil separator rest)
      | cons piece others => simp only [beq_iff_eq, List.modifyHead_cons]

theorem joined_eq_intercalate (separator : Text) (parts : List Text) :
    joined separator parts = separator.intercalate parts := by
  induction parts with
  | nil => rfl
  | cons part rest ih =>
      cases rest with
      | nil => simp [joined]
      | cons next others => simp [joined, ih]

theorem pieces_cons_separator (separator : CodePoint) (text : Text) :
    pieces separator (separator :: text) = [] :: pieces separator text := by
  rw [pieces_eq_splitOn, pieces_eq_splitOn, List.splitOn_cons_eq_if_modifyHead,
    if_pos (beq_self_eq_true _)]

/-- Parts without the separator, glued with it, are the pieces again. -/
theorem pieces_joined {separator : CodePoint} {parts : List Text} (hne : parts ≠ [])
    (h : ∀ part ∈ parts, separator ∉ part) : pieces separator (joined [separator] parts) = parts := by
  rw [pieces_eq_splitOn, joined_eq_intercalate]
  exact List.splitOn_intercalate separator h hne

end Text

/-! ## Spellings -/

/-- The keys that an object of a kind may do without. -/
def Kind.optional : Kind → List Text
  | .param => ["description"]
  | _ => []

/-- The keys that mean something in an object of a kind. -/
def Kind.vocabulary (kind : Kind) : List Text := "kind" :: (kind.required ++ kind.optional)

namespace TypeExpr

/-- Fields of an object of a kind that say what `known` says. -/
def Says (kind : Kind) (known fields : Fields Json) : Prop :=
  Fields.Spread kind.vocabulary (("kind", .str kind.word) :: known) fields

/-- How the parts of a name are written: as a list or, if they are not empty and hold no backslash, as a
text with backslashes between them, which may begin with one. -/
inductive SpellsParts : List Text → Json → Prop
  | list (parts : List Text) : SpellsParts parts (.arr (parts.map .str))
  | glued {parts : List Text} (h : ∀ part ∈ parts, part ≠ [] ∧ CodePoint.ofChar '\\' ∉ part) :
      SpellsParts parts (.str (Text.joined ['\\'] parts))
  | rooted {parts : List Text} (h : ∀ part ∈ parts, part ≠ [] ∧ CodePoint.ofChar '\\' ∉ part) :
      SpellsParts parts (.str ('\\' :: Text.joined ['\\'] parts))

/-- How the description of a parameter is written; an empty one may be left out. -/
inductive SpellsDescription : Text → Fields Json → Prop
  | omitted : SpellsDescription [] []
  | given (description : Text) : SpellsDescription description [("description", .str description)]

/-- How it is written whether a field is optional: by any value that is on if it is. It may be left out
if it is not. -/
inductive SpellsOptional : Bool → Fields Json → Prop
  | omitted : SpellsOptional false []
  | given (value : Json) : SpellsOptional value.isOn [("optional", value)]

mutual

/-- `Spells expr value`: the value is one of those that write the expression. -/
inductive Spells : TypeExpr → Json → Prop
  | bare (name : Text) : Spells (.identifier name) (.str name)
  | identifier {name : Text} {fields : Fields Json} :
      Says .identifier [("name", .str name)] fields → Spells (.identifier name) (.obj fields)
  | qualified {parts : List Text} {written : Json} {fields : Fields Json} :
      SpellsParts parts written → Says .name [("parts", written)] fields →
      Spells (.qualified parts) (.obj fields)
  | nullable {inner : TypeExpr} {written : Json} {fields : Fields Json} :
      Spells inner written → Says .nullable [("type", written)] fields →
      Spells (.nullable inner) (.obj fields)
  | union {members : List TypeExpr} {written : List Json} {fields : Fields Json} :
      Forall₂ Spells members written → Says .union [("types", .arr written)] fields →
      Spells (.union members) (.obj fields)
  | intersection {members : List TypeExpr} {written : List Json} {fields : Fields Json} :
      Forall₂ Spells members written → Says .intersection [("types", .arr written)] fields →
      Spells (.intersection members) (.obj fields)
  | arrayOf {element : TypeExpr} {written : Json} {fields : Fields Json} :
      Spells element written → Says .array [("type", written)] fields →
      Spells (.arrayOf element) (.obj fields)
  | generic {name : Text} {args : List TypeExpr} {written : List Json} {fields : Fields Json} :
      Forall₂ Spells args written →
      Says .generic [("name", .str name), ("args", .arr written)] fields →
      Spells (.generic name args) (.obj fields)
  | shape {items : List (ShapeField TypeExpr)} {written : List Json} {fields : Fields Json} :
      Forall₂ SpellsField items written → Says .shape [("items", .arr written)] fields →
      Spells (.shape items) (.obj fields)
  | literal {value : Json} {fields : Fields Json} :
      Says .const [("value", value)] fields → Spells (.literal value) (.obj fields)
  | described {inner : TypeExpr} {description : Text} {written : Json} {given fields : Fields Json} :
      Spells inner written → SpellsDescription description given →
      Says .param (("type", written) :: given) fields →
      Spells (.described inner description) (.obj fields)

/-- `SpellsField item value`: the value is one of those that write the field of a shape. -/
inductive SpellsField : ShapeField TypeExpr → Json → Prop
  | object {key : Text} {type : TypeExpr} {optional : Bool} {written : Json}
      {given fields : Fields Json} :
      Spells type written → SpellsOptional optional given →
      Fields.Spread ["key", "type", "optional"] (("key", .str key) :: ("type", written) :: given)
        fields →
      SpellsField ⟨key, type, optional⟩ (.obj fields)

end

end TypeExpr

/-! ## The plainest spelling -/

namespace TypeExpr

theorem allToJson_eq (exprs : List TypeExpr) : allToJson exprs = exprs.map toJson := by
  induction exprs with
  | nil => rfl
  | cons expr rest ih => rw [allToJson, ih, List.map_cons]

theorem spells_allToJson {exprs : List TypeExpr} (h : ∀ expr ∈ exprs, Spells expr expr.toJson) :
    Forall₂ Spells exprs (allToJson exprs) := by
  rw [allToJson_eq, List.forall₂_map_right_iff]
  exact List.forall₂_same.mpr h

theorem spells_shapeToJson {items : List (ShapeField TypeExpr)}
    (h : ∀ item ∈ items, Spells item.type item.type.toJson) :
    Forall₂ SpellsField items (shapeToJson items) := by
  induction items with
  | nil => exact .nil
  | cons item rest ih =>
      obtain ⟨key, type, optional⟩ := item
      obtain ⟨htype, hrest⟩ := List.forall_mem_cons.mp h
      exact .cons (.object htype (.given (.bool optional)) (Fields.spread_self _ _)) (ih hrest)

/-- **The object that gives every key spells the expression.** -/
theorem spells_toJson (expr : TypeExpr) : Spells expr expr.toJson := by
  induction expr with
  | identifier name => exact .identifier (Fields.spread_self _ _)
  | qualified parts => exact .qualified (.list parts) (Fields.spread_self _ _)
  | nullable inner ih => exact .nullable ih (Fields.spread_self _ _)
  | union members ih => exact .union (spells_allToJson ih) (Fields.spread_self _ _)
  | intersection members ih => exact .intersection (spells_allToJson ih) (Fields.spread_self _ _)
  | arrayOf element ih => exact .arrayOf ih (Fields.spread_self _ _)
  | generic name args ih => exact .generic (spells_allToJson ih) (Fields.spread_self _ _)
  | shape items ih => exact .shape (spells_shapeToJson ih) (Fields.spread_self _ _)
  | literal value => exact .literal (Fields.spread_self _ _)
  | described inner description ih =>
      exact .described ih (.given description) (Fields.spread_self _ _)

end TypeExpr

/-! ## Reading -/

namespace Decoded

variable {α : Type} {read : Json → Decoded α}

theorem part_of_get? {key : Text} {fields : Fields Json} {value : Json} {found : α}
    (hvalue : Fields.get? fields key = some value) (hread : read value = .ok found) :
    part read key fields = .ok found := by
  rw [part, require_of_get? hvalue, ok_bind, hread]
  rfl

theorem text_str (written : Text) : text (.str written) = .ok written := rfl

/-- A text is shown as it is. -/
theorem showing_str (limit : Option Nat) (written : Text) (result : Decoded α) :
    showing limit (.str written) result = result := rfl

/-- Items that are read one by one are read as a list. -/
theorem each_of_forall₂ {found : List α} {items : List Json}
    (h : Forall₂ (fun value item => read item = .ok value) found items) (position : Nat) :
    each read position items = .ok found := by
  induction h generalizing position with
  | nil => rfl
  | cons hread _ ih =>
      rw [each, hread, ih]
      rfl

/-- The pieces between backslashes that are not empty are the parts. -/
theorem filter_pieces_joined {parts : List Text}
    (h : ∀ part ∈ parts, part ≠ [] ∧ CodePoint.ofChar '\\' ∉ part) :
    ((Text.pieces '\\' (Text.joined ['\\'] parts)).filter fun part => !part.isEmpty) = parts := by
  by_cases hne : parts = []
  · subst hne
    rfl
  · rw [Text.pieces_joined hne fun part hpart => (h part hpart).2]
    refine List.filter_eq_self.mpr fun part hpart => ?_
    rw [Bool.not_eq_true', List.isEmpty_eq_false_iff]
    exact (h part hpart).1

theorem nameParts_of_spells {parts : List Text} {written : Json}
    (h : TypeExpr.SpellsParts parts written) : nameParts written = .ok parts := by
  cases h with
  | list => rw [nameParts, texts?_eq_some_iff.mpr rfl]
  | glued hparts => rw [nameParts, filter_pieces_joined hparts]
  | rooted hparts =>
      -- the piece before the first backslash is empty
      rw [nameParts, Text.pieces_cons_separator, List.filter_cons_of_neg (by simp),
        filter_pieces_joined hparts]

end Decoded

namespace TypeExpr

open Decoded

variable {limit : Option Nat} {kind : Kind} {known fields : Fields Json}

/-- An object is read by its kind, and what it says is found. -/
theorem Says.found (h : Says kind known fields) (hknown : (("kind" : Text) :: Fields.keys known).Nodup) :
    read limit (.obj fields) = ofKind limit fields kind ∧
      ∀ key ∈ kind.required ++ kind.optional, Fields.get? fields key = Fields.get? known key := by
  have hget : ∀ key ∈ kind.vocabulary, Fields.get? fields key =
      Fields.get? (("kind", .str kind.word) :: known) key :=
    fun key hkey => Fields.Spread.get?_eq h hknown hkey
  refine ⟨?_, fun key hkey => ?_⟩
  · have hkind : Fields.get? fields "kind" = some (.str kind.word) :=
      (hget "kind" List.mem_cons_self).trans (if_pos rfl)
    rw [read_obj, require_of_get? hkind, ok_bind, Kind.ofJson?_word]
  · have hother : ("kind" : Text) ≠ key := by
      rintro rfl
      revert hkey
      cases kind <;> decide
    rw [hget key (List.mem_cons_of_mem _ hkey), Fields.get?, if_neg hother]

/-- An object that says one thing is read by what is read of it. -/
theorem Says.one {key : Text} {written : Json} (h : Says kind [(key, written)] fields)
    (hkey : key ∈ kind.required) :
    read limit (.obj fields) = ofKind limit fields kind ∧ Fields.get? fields key = some written := by
  have hother : key ≠ "kind" := by
    rintro rfl
    revert hkey
    cases kind <;> decide
  obtain ⟨hread, hget⟩ := h.found (by simp [Fields.keys, hother.symm])
  exact ⟨hread, (hget key (List.mem_append_left _ hkey)).trans (if_pos rfl)⟩

/-- An expression that is made of what is under one key is read if that is. -/
theorem Says.reads {α : Type} {reader : Json → Decoded α} {key : Text} {written : Json} {found : α}
    (h : Says kind [(key, written)] fields) (hkey : key ∈ kind.required)
    (hread : reader written = .ok found) (make : α → TypeExpr)
    (hkind : ofKind limit fields kind = part reader key fields >>= fun found => .ok (make found)) :
    read limit (.obj fields) = .ok (make found) := by
  obtain ⟨hkinded, hvalue⟩ := h.one hkey
  rw [hkinded, hkind, part_of_get? hvalue hread, ok_bind]

theorem membersOf_of_spells {members : List TypeExpr} {written : List Json}
    (ih : ∀ member ∈ members, ∀ value, Spells member value → read limit value = .ok member)
    (h : Forall₂ Spells members written) : membersOf limit (.arr written) = .ok members := by
  rw [membersOf, membersFrom_eq]
  exact each_of_forall₂ (forall₂_imp_of_mem ih h) 0

theorem isOptional_of_spells {optional : Bool} {given : Fields Json} (h : SpellsOptional optional given)
    (hget : Fields.get? fields "optional" = Fields.get? given "optional") :
    isOptional fields = optional := by
  rw [isOptional, hget]
  cases h <;> rfl

theorem shapeFieldOf_of_spells {item : ShapeField TypeExpr} {written : Json}
    (ih : ∀ value, Spells item.type value → read limit value = .ok item.type)
    (h : SpellsField item written) : shapeFieldOf limit written = .ok item := by
  cases h with
  | @object key type optional inner given fields hinner hgiven hspread =>
      have hknown : (Fields.keys (("key", .str key) :: ("type", inner) :: given)).Nodup := by
        cases hgiven <;> simp [Fields.keys]
      have hget : ∀ name ∈ (["key", "type", "optional"] : List Text), Fields.get? fields name =
          Fields.get? (("key", .str key) :: ("type", inner) :: given) name :=
        fun name hname => hspread.get?_eq hknown hname
      have hkey : Fields.get? fields "key" = some (.str key) := hget "key" (by decide)
      have htype : Fields.get? fields "type" = some inner := hget "type" (by decide)
      rw [shapeFieldOf_obj, require_of_get? hkey, ok_bind, showing_str, ok_bind,
        part_of_get? htype (ih inner hinner), ok_bind, isOptional_of_spells hgiven (hget "optional" (by decide))]
      rfl

theorem shapeOf_of_spells {items : List (ShapeField TypeExpr)} {written : List Json}
    (ih : ∀ item ∈ items, ∀ value, Spells item.type value → read limit value = .ok item.type)
    (h : Forall₂ SpellsField items written) : shapeOf limit (.arr written) = .ok items := by
  rw [shapeOf, shapeFrom_eq]
  refine each_of_forall₂ (forall₂_imp_of_mem ?_ h) 0
  exact fun item hitem value hvalue => shapeFieldOf_of_spells (ih item hitem) hvalue

theorem optionalText_of_spells {description : Text} {given : Fields Json}
    (h : SpellsDescription description given)
    (hget : Fields.get? fields "description" = Fields.get? given "description") :
    optionalText "description" fields = .ok description := by
  rw [optionalText, hget]
  cases h <;> rfl

/-- What spells an expression is read as it, whatever the limit: the names in it are texts. -/
theorem read_of_spells {expr : TypeExpr} {value : Json} (h : Spells expr value) :
    read limit value = .ok expr := by
  induction expr generalizing value with
  | identifier name =>
      cases h with
      | bare => rw [read]
      | identifier hsays => exact hsays.reads List.mem_cons_self (text_str name) .identifier rfl
  | qualified parts =>
      cases h with
      | qualified hparts hsays =>
          exact hsays.reads List.mem_cons_self (nameParts_of_spells hparts) .qualified rfl
  | nullable inner ih =>
      cases h with
      | nullable hinner hsays => exact hsays.reads List.mem_cons_self (ih hinner) .nullable rfl
  | union members ih =>
      cases h with
      | union hmembers hsays =>
          have hlist := membersOf_of_spells (fun _ hm _ => ih _ hm) hmembers
          exact hsays.reads List.mem_cons_self hlist .union rfl
  | intersection members ih =>
      cases h with
      | intersection hmembers hsays =>
          have hlist := membersOf_of_spells (fun _ hm _ => ih _ hm) hmembers
          exact hsays.reads List.mem_cons_self hlist .intersection rfl
  | arrayOf element ih =>
      cases h with
      | arrayOf helement hsays => exact hsays.reads List.mem_cons_self (ih helement) .arrayOf rfl
  | generic name args ih =>
      cases h with
      | @generic _ _ written fields hargs hsays =>
          obtain ⟨hread, hget⟩ := hsays.found (by simp [Fields.keys])
          have hname : Fields.get? fields "name" = some (.str name) := hget "name" (by decide)
          have hlist : Fields.get? fields "args" = some (.arr written) := hget "args" (by decide)
          rw [hread, ofKind, part_of_get? hname (text_str name), ok_bind,
            part_of_get? hlist (membersOf_of_spells (fun _ hm _ => ih _ hm) hargs)]
          rfl
  | shape items ih =>
      cases h with
      | shape hitems hsays =>
          have hlist := shapeOf_of_spells (fun _ hi _ => ih _ hi) hitems
          exact hsays.reads List.mem_cons_self hlist .shape rfl
  | literal value =>
      cases h with
      | literal hsays =>
          obtain ⟨hread, hvalue⟩ := hsays.one List.mem_cons_self
          rw [hread, ofKind, require_of_get? hvalue]
          rfl
  | described inner description ih =>
      cases h with
      | @described _ _ written given fields hinner hdescription hsays =>
          obtain ⟨hread, hget⟩ := hsays.found (by cases hdescription <;> simp [Fields.keys])
          have htype : Fields.get? fields "type" = some written := hget "type" (by decide)
          rw [hread, ofKind, part_of_get? htype (ih hinner), ok_bind,
            optionalText_of_spells hdescription (hget "description" (by decide))]
          rfl

/-- **Reading undoes writing, whichever spelling was chosen**, at every place in a document. -/
theorem every_spelling_is_read :
    (∀ expr : TypeExpr, Spells expr expr.toJson) ∧
      ∀ (expr : TypeExpr) (value : Json), Spells expr value →
        ∀ base, Report.ofDecoded base (ofJson value) = pure expr := by
  refine ⟨spells_toJson, fun expr value h base => ?_⟩
  rw [ofJson, read_of_spells h]
  rfl

/-- A parameter whose keys are in reverse and have company: its description and one `optional` are left
out, the other one is a number, and a name is one text. -/
theorem reads_parameter_in_reverse :
    let name : Json := .obj [("parts", .str "\\OCA\\Foo"), ("kind", .str "name")]
    let id : Json := .obj [("optional", .int 2), ("type", name), ("key", .str "id")]
    let count : Json := .obj [("unit", .bool true), ("type", .str "int"), ("key", .str "count")]
    let items : Json := .obj [("items", .arr [id, count]), ("kind", .str "shape")]
    let value : Json := .obj [("comment", .null), ("type", items), ("kind", .str "param")]
    let expr : TypeExpr := .described
      (.shape [⟨"id", .qualified ["OCA", "Foo"], true⟩, ⟨"count", .identifier "int", false⟩]) []
    Spells expr value ∧ ∀ base, Report.ofDecoded base (ofJson value) = pure expr := by
  intro name id count items value expr
  have hname : Spells (.qualified ["OCA", "Foo"]) name :=
    .qualified (.rooted (by decide)) (Fields.spread_reverse [] nofun)
  have hid : SpellsField ⟨"id", .qualified ["OCA", "Foo"], true⟩ id :=
    .object hname (.given (.int 2)) (Fields.spread_reverse [] nofun)
  have hcount : SpellsField ⟨"count", .identifier "int", false⟩ count :=
    .object (.bare "int") .omitted (Fields.spread_reverse [("unit", Json.bool true)] (by decide))
  have hitems : Spells (.shape [⟨"id", .qualified ["OCA", "Foo"], true⟩,
      ⟨"count", .identifier "int", false⟩]) items :=
    .shape (.cons hid (.cons hcount .nil)) (Fields.spread_reverse [] nofun)
  have hexpr : Spells expr value :=
    .described hitems .omitted (Fields.spread_reverse [("comment", Json.null)] (by decide))
  exact ⟨hexpr, every_spelling_is_read.2 expr value hexpr⟩

end TypeExpr

end Schemata
