import Schemata.Proofs.Delivery
import Schemata.Proofs.EmittedNumbers
import Schemata.Proofs.Faults

/-!
# The text that is delivered

What a run delivers is JSON text, and decoding it gives an object with the names of the types of the
document in their order, if the document is JSON text. There is one exception: a default with a number
that is too large for a floating-point number in it is written with the word `Infinity`, which no JSON text
has. The parameter of a truth value has no such default.

* **text** — the text of schema objects is JSON exactly if all numbers in them have digits
  (`Command.isJson_textOf_iff`), and it reads back as an object with the same names
  (`Command.exists_read_textOf`);
* **documents** — what is read from JSON text has no value that is no number in it, and gives each type
  once (`Document.isProper_entries`).

`Command.text_is_json_unless_overflow` puts them together.
-/

namespace Schemata

open Json
open List (Forall₂)

/-! ## Text -/

namespace Command

variable {schemas : Fields Json}

theorem isSpaces_end : IsSpaces "\n" := List.forall_mem_singleton.mpr rfl

/-- **The text of schema objects is JSON exactly if all numbers in them have digits.** -/
theorem isJson_textOf_iff : IsJson (textOf schemas) ↔
    ∀ number, IsPart (.float number) (.obj schemas) → number.isFinite = true :=
  isJson_writeAt_append_iff Style.isSpaced_block 0 isSpaces_end

/-- **The text of schema objects reads back as an object with their names**, if no name comes again and the
halves of pairs in them are put together. -/
theorem exists_read_textOf (hnodup : (Fields.keys schemas).Nodup)
    (hpaired : ∀ name ∈ Fields.keys schemas, name.pairSurrogates = name) :
    ∃ objects, Json.read none (textOf schemas) = .ok (.obj objects) ∧
      Fields.keys objects = Fields.keys schemas := by
  cases schemas with
  | nil => exact ⟨[], rfl, rfl⟩
  | cons field rest =>
      obtain ⟨text, htext, hmembers⟩ := writeAt_obj Style.isSpaced_block 0 field rest
        fun other _ level => derives_readable Style.isSpaced_block level other.2
      obtain ⟨pairs, hkeys, -, hfollowed⟩ :=
        Reader.followed_of_derives (List.Subset.refl _) hmembers
      have hsame : (Fields.keys (field :: rest)).map Text.pairSurrogates = Fields.keys (field :: rest) :=
        (List.map_congr_left hpaired).trans (List.map_id' _)
      rw [hsame] at hkeys
      have hobject := Reader.FollowedAs.object hfollowed
      have hread := (hobject.surrounded isSpaces_nil isSpaces_end).read_eq
      rw [← hkeys] at hnodup
      have hpairs : Fields.ofList pairs = pairs := Fields.ofList_of_nodup hnodup
      rw [hpairs] at hread
      refine ⟨pairs, ?_, hkeys⟩
      rw [textOf, indented, htext]
      exact hread

/-- The text that a run delivers, on the standard output or in a file. -/
def Run.text? (run : Run) : Option Text :=
  match run.ending with
  | .printed text => some text
  | .written _ text => some text
  | _ => none

theorem Run.text?_of_delivered {run : Run} {output : Path} (h : run.ending = delivered output schemas) :
    run.text? = some (textOf schemas) := by
  rw [Run.text?, h, delivered]
  by_cases hdash : output = "-"
  · rw [if_pos hdash]
  · rw [if_neg hdash]

end Command

/-! ## Documents -/

namespace Json

theorem IsProper.of_isPart {words : List Text} {part whole : Json} (h : IsProper words whole)
    (hpart : IsPart part whole) : IsProper words part :=
  ⟨fun hnan => h.nan (hnan.trans hpart), fun fields hfields => h.names fields (hfields.trans hpart)⟩

end Json

namespace Document

/-- The entries of a document that has been read are as proper as the document. -/
theorem isProper_entries {words : List Text} {fields entries : Fields Json}
    (h : IsProper words (.obj fields)) (hentries : types fields = .obj entries) :
    IsProper words (.obj entries) := by
  unfold types at hentries
  cases hfound : Fields.get? fields "types" with
  | none =>
      rw [hfound] at hentries
      obtain rfl := Json.obj.inj hentries
      exact .empty words
  | some value =>
      rw [hfound] at hentries
      obtain rfl : value = .obj entries := hentries
      exact h.of_isPart (.field (Fields.mem_of_get? hfound) (.refl _))

/-- A document that converts is an object with entries, and each entry has its object. -/
theorem exists_entries_of_convert {machine : Machine} {config : Config} {strict : Bool} {document : Json}
    {objects : Fields Json} (h : (convertOn machine config strict document).outcome = .ok objects) :
    ∃ fields entries, document = .obj fields ∧ types fields = .obj entries ∧
      Forall₂ (Gives machine { definitions := definitions fields, config, strict }) entries objects := by
  cases document with
  | obj fields =>
      cases hentries : types fields with
      | obj entries =>
          rw [convertOn_of_types hentries] at h
          exact ⟨fields, entries, rfl, hentries, convertEntries_ok_iff.mp h⟩
      | _ =>
          rw [convertOn, hentries] at h
          cases h
  | _ => cases h

/-- The default of an entry has an infinity in it, and it is written: the entry is not that of a parameter
that takes a truth value. -/
def Overflows (r : Resolver) (entry : Text × Json) : Prop :=
  (∃ value, entry.2.field? "default" = some value ∧
    ∃ negative, IsPart (.float (.infinite negative)) value) ∧
  ¬ IsTruthParameter r entry.1 entry.2

/-- **The objects of entries have digits for all their numbers exactly if no entry overflows**, in a
document without the value that is no number. -/
theorem all_finite_iff {machine : Machine} {r : Resolver} {entries objects : Fields Json}
    (h : Forall₂ (Gives machine r) entries objects) (hproper : IsProper plainWords (.obj entries)) :
    (∀ number, IsPart (.float number) (.obj objects) → number.isFinite = true) ↔
      ∀ entry ∈ entries, ¬ Overflows r entry := by
  have hvalue : ∀ entry ∈ entries, ∀ value, entry.2.field? "default" = some value →
      IsProper plainWords value := fun entry hentry value hvalue =>
    hproper.of_isPart ((isPart_of_field? hvalue).trans (.field hentry (.refl _)))
  constructor
  · rintro hfinite entry hentry ⟨⟨value, hdefault, negative, hpart⟩, htruth⟩
    obtain ⟨object, hobject, hgives⟩ := exists_right_of_mem h hentry
    have hinside := (isPart_object_iff (gives_iff.mp hgives).2 rfl).mpr
      ⟨⟨value, hdefault, hpart⟩, htruth⟩
    cases hfinite (.infinite negative) (.field hobject hinside)
  · intro hnone number hpart
    by_contra hfinite
    have hnumber := Bool.eq_false_iff.mpr hfinite
    cases hpart with
    | @field object _ hobject hinside =>
        obtain ⟨entry, hentry, hgives⟩ := exists_right_of_mem h.flip hobject
        obtain ⟨⟨value, hdefault, hin⟩, htruth⟩ :=
          (isPart_object_iff (gives_iff.mp hgives).2 hnumber).mp hinside
        cases number with
        | nan => exact absurd ((hvalue entry hentry value hdefault).nan hin) (by simp [plainWords])
        | infinite negative => exact hnone entry hentry ⟨⟨value, hdefault, negative, hin⟩, htruth⟩
        | finite => cases hnumber

end Document

namespace Command

/-- A document is loaded from a text. -/
theorem exists_text_of_load {machine : Machine} {disk : Disk} {path : Path} {value : Json}
    (h : load machine disk path = .ok value) :
    ∃ source, textAt disk path = .ok source ∧ Json.read machine.limit source = .ok value := by
  obtain ⟨hfault, file, source, hlook, hreadable, hsource, -, hread⟩ := load_ok_iff.mp h
  exact ⟨source, textAt_ok_iff.mpr ⟨hfault, file, hlook, hreadable, hsource⟩, hread⟩

/-- **A run that ends well delivers JSON text, unless a number overflows**, on every machine and with every
front end. If the arguments do not ask for help, the run has read a document and a configuration. If the
document was JSON text then the text that is delivered is JSON exactly if no entry of the document has a default
with a number in it that is too large, parameters that take truth values apart. And decoding that text gives an
object with the names of the entries, in their order. -/
theorem text_is_json_unless_overflow (frontEnd : FrontEnd) (machine : Machine) (disk : Disk)
    (arguments : List Text) (h : (run frontEnd machine disk arguments).exitCode = 0) :
    (∃ text, frontEnd disk arguments = .help text) ∨
    ∃ request source config fields entries text,
      frontEnd disk arguments = .request request ∧
      textAt disk request.path = .ok source ∧ Json.read machine.limit source = .ok (.obj fields) ∧
      loadConfig machine disk request.config = .ok config ∧ Document.types fields = .obj entries ∧
      (run frontEnd machine disk arguments).text? = some text ∧
      (IsJson source →
        let strict := request.strict || config.isStrict
        let r : Resolver := { definitions := Document.definitions fields, config, strict }
        (IsJson text ↔ ∀ entry ∈ entries, ¬ Document.Overflows r entry) ∧
        ∃ objects, Json.read none text = .ok (.obj objects) ∧
          Fields.keys objects = Fields.keys entries) := by
  cases hanswer : frontEnd disk arguments with
  | usage => simp [run, hanswer, Run.exitCode] at h
  | fault fault => simp [run, hanswer, Run.exitCode] at h
  | help text => exact .inl ⟨text, rfl⟩
  | request request =>
      have hrun : run frontEnd machine disk arguments = execute machine disk request := by
        rw [run, hanswer]
      rw [hrun] at h ⊢
      obtain ⟨document, config, schemas, hdocument, hconfig, hschemas, -, -, hending⟩ :=
        exists_loaded (Run.exitCode_eq_zero_iff.mp h)
      obtain ⟨fields, entries, rfl, hentries, hgives⟩ := Document.exists_entries_of_convert hschemas
      obtain ⟨source, hsource, hread⟩ := exists_text_of_load hdocument
      refine .inr ⟨request, source, config, fields, entries, _, rfl, hsource, hread, hconfig, hentries,
        Run.text?_of_delivered hending, fun hjson => ?_⟩
      intro strict r
      -- the document is what the grammar says, since it is read the same without a limit
      obtain ⟨value, hvalue, hproper⟩ := exists_read_of_derives Reader.plainWords_subset hjson
      obtain rfl := Except.ok.inj ((Reader.read_none_of_ok hread).symm.trans hvalue)
      have hproperEntries := Document.isProper_entries hproper hentries
      obtain ⟨hnodup, hpaired⟩ := hproperEntries.names entries (.refl _)
      have hkeys := Document.keys_of_gives hgives
      refine ⟨isJson_textOf_iff.trans (Document.all_finite_iff hgives hproperEntries), ?_⟩
      rw [← hkeys] at hnodup hpaired ⊢
      exact exists_read_textOf hnodup hpaired

/-- Two entries, one of them with a default, in a document that is written as JSON text. -/
theorem entries_are_emitted :
    let entries : Fields Json :=
      [("Count", .obj [("node", .str "int"), ("default", .int 1)]), ("Name", .obj [("node", .str "string")])]
    let source := textOf [("types", .obj entries)]
    let disk := Disk.ofVolume { files := [("t.json", { text? := some source })] }
    let result := run Arguments.usual .usual disk ["t.json"]
    result.exitCode = 0 ∧ IsJson source ∧ ∃ text objects, result.text? = some text ∧ IsJson text ∧
      Json.read none text = .ok (.obj objects) ∧ Fields.keys objects = ["Count", "Name"] := by
  intro entries source disk result
  have hexit : result.exitCode = 0 := by decide +kernel
  have hfloatless : IsFloatless (.obj [("types", .obj entries)]) := by
    refine isFloatless_obj (List.forall_mem_singleton.mpr (isFloatless_obj ?_))
    refine List.forall_mem_cons.mpr ⟨isFloatless_obj ?_, List.forall_mem_singleton.mpr (isFloatless_obj ?_)⟩
    · exact List.forall_mem_cons.mpr ⟨nofun, List.forall_mem_singleton.mpr nofun⟩
    · exact List.forall_mem_singleton.mpr nofun
  have hsource : IsJson source :=
    isJson_textOf_iff.mpr fun number hpart => absurd hpart (hfloatless number)
  rcases text_is_json_unless_overflow _ _ _ _ hexit with
    ⟨text, hhelp⟩ | ⟨request, found, config, fields, entries', text, hrequest, hfound, hread, -, hentries,
      htext, hjson⟩
  · cases hhelp
  obtain rfl : { path := "t.json" } = request := FrontEnd.Answer.request.inj hrequest
  obtain rfl : source = found := Except.ok.inj hfound
  obtain rfl : [(("types" : Text), Json.obj entries)] = fields := by
    have hfields : Json.read (some 4300) source = .ok (.obj [("types", .obj entries)]) := by rfl
    exact Json.obj.inj (Except.ok.inj (hfields.symm.trans hread))
  obtain rfl : entries = entries' := Json.obj.inj hentries
  obtain ⟨hiff, objects, hobjects, hkeys⟩ := hjson hsource
  refine ⟨hexit, hsource, text, objects, htext, hiff.mpr ?_, hobjects, hkeys⟩
  rintro entry hentry ⟨⟨value, hdefault, negative, hpart⟩, -⟩
  have hdocument : IsPart entry.2 (.obj [("types", .obj entries)]) :=
    .field (.head _) (.field hentry (.refl _))
  exact hfloatless _ (hpart.trans ((isPart_of_field? hdefault).trans hdocument))

/-- The default of a document that is JSON text is too large, and the word `Infinity` is delivered. -/
theorem infinity_is_emitted :
    let source : Text := "\x7b\"types\": \x7b\"a\": \x7b\"node\": \"float\", \"default\": 1e400\x7d\x7d\x7d"
    let disk := Disk.ofVolume { files := [("t.json", { text? := some source })] }
    let result := run Arguments.usual .usual disk ["t.json"]
    IsJson source ∧ result.exitCode = 0 ∧ ∃ text, result.text? = some text ∧ ¬ IsJson text := by
  intro source disk result
  have hnumber : IsNumber "1e400" := by
    have hdigits : AreDigits "400" := List.all_eq_true.mp rfl
    have hpower : IsPower "e400" := .some (.head _) (.head _) (List.cons_ne_nil _ _) hdigits
    have hwhole : IsWhole "1" := .positive (.digits rfl (by decide) areDigits_nil)
    exact .parts (.head _) hwhole .none hpower
  have hsource : IsJson source := by
    have hspace : IsSpaces " " := List.forall_mem_singleton.mpr rfl
    have hfloat : Derives plainWords .value (writeString "float") := by
      rw [writeString_eq]
      exact .string (Text.spells_jsonEscaped _)
    have hnode := derives_member isSpaces_nil isSpaces_nil "node" hfloat
    have hlarge : Derives plainWords .value "1e400" := .number hnumber
    have hdefault := derives_member hspace isSpaces_nil "default" hlarge
    have hentry := Derives.object (.members hnode (.lastMember hdefault))
    have hentries := Derives.object
      (.lastMember (derives_member isSpaces_nil isSpaces_nil "a" hentry))
    have hdocument := Derives.object
      (.lastMember (derives_member isSpaces_nil isSpaces_nil "types" hentries))
    exact .element isSpaces_nil hdocument isSpaces_nil
  have hexit : result.exitCode = 0 := by decide +kernel
  let object : Json :=
    .obj [("type", .str "number"), ("format", .str "double"), ("default", .float (.infinite false))]
  have hsucceeds : Succeeds .usual disk { path := "t.json" } [("a", object)] := by
    let document : Json :=
      .obj [("types", .obj [("a", .obj [("node", .str "float"), ("default", .float (.infinite false))])])]
    refine ⟨⟨document, {}, ?_, rfl, rfl⟩, rfl, .inl rfl⟩
    exact ⟨by decide, _, _, rfl, rfl, rfl, rfl, by rfl⟩
  have hrun : result = execute .usual disk { path := "t.json" } := by
    have hanswer : Arguments.usual disk ["t.json"] = .request { path := "t.json" } := rfl
    show run _ _ _ _ = _
    rw [run, hanswer]
  have htext : result.text? = some (textOf [("a", object)]) := by
    rw [hrun]
    exact Run.text?_of_delivered (ending_of_succeeds (fun _ hnone => by cases hnone) hsucceeds)
  refine ⟨hsource, hexit, _, htext, fun hjson => ?_⟩
  have hdefault : object.field? "default" = some (.float (.infinite false)) := rfl
  cases isJson_textOf_iff.mp hjson _ (.field (.head _) (isPart_of_field? hdefault))

end Command

end Schemata
