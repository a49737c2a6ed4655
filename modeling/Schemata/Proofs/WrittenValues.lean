import Schemata.Proofs.Trees
import Schemata.Proofs.WrittenNumbers
import Schemata.Proofs.WrittenStrings

/-!
# Written values

A value is written as the grammar asks, in every style that puts white space where the grammar takes it
(`Json.derives_writeAt`). The words of the grammar have to include those of the numbers without digits
that are inside of it.

* **style** — the space between the parts of a list or an object is white space (`Json.Style.IsSpaced`),
  as it is where each part has a line of its own (`Json.Style.isSpaced_block`);
* **lists and objects** — in such a style the items of a list are elements (`Json.derives_elements`) and
  the fields of an object are members (`Json.derives_members`).
-/

namespace Schemata

open Json

namespace Json

/-! ## Lists and objects -/

theorem writeString_eq (text : Text) :
    writeString text = quoted (text.flatMap CodePoint.jsonEscaped) := by
  rw [writeString, quoted, List.append_assoc]

theorem isSpaces_nil : IsSpaces [] := by
  intro c hc
  exact absurd hc List.not_mem_nil

/-- The space between the parts of a list or an object is white space, and a comma between
neighbours. -/
structure Style.IsSpaced (style : Style) : Prop where
  opening : ∀ level, IsSpaces (style.opening level)
  between : ∀ level, ∃ spaces, IsSpaces spaces ∧ style.between level = "," ++ spaces
  closing : ∀ level, IsSpaces (style.closing level)

theorem isSpaces_newline (level : Nat) : IsSpaces (newline level) := by
  refine List.forall_mem_cons.mpr ⟨rfl, fun c hc => ?_⟩
  rw [List.eq_of_mem_replicate hc]
  rfl

theorem Style.isSpaced_block : Style.block.IsSpaced where
  opening := isSpaces_newline
  between level := ⟨newline level, isSpaces_newline level, rfl⟩
  closing level := isSpaces_newline (level - 1)

section

variable {words : List Text} {style : Style} {level : Nat} {before after : Text}

/-- The first item and the ones after it are elements. -/
theorem derives_elements (hstyle : style.IsSpaced) (hafter : IsSpaces after) (rest : List Json)
    (hrest : ∀ item ∈ rest, Derives words .value (writeAt style level item)) {text : Text}
    (hbefore : IsSpaces before) (htext : Derives words .value text) :
    Derives words .elements (before ++ (text ++ (writeItems style level rest ++ after))) := by
  induction rest generalizing before text with
  | nil => exact .lastElement (.element hbefore htext hafter)
  | cons item rest ih =>
      obtain ⟨hitem, hothers⟩ := List.forall_mem_cons.mp hrest
      obtain ⟨spaces, hspaces, hbetween⟩ := hstyle.between level
      have hmore := Derives.elements (.element hbefore htext isSpaces_nil) (ih hothers hspaces hitem)
      rw [writeItems, hbetween]
      simpa only [List.append_assoc, List.append_nil] using hmore

/-- A name with a value is a member. -/
theorem derives_member (hbefore : IsSpaces before) (hafter : IsSpaces after) (name : Text)
    {text : Text} (htext : Derives words .value text) :
    Derives words (.member name.pairSurrogates)
      (before ++ (writeString name ++ (": " ++ (text ++ after)))) := by
  have hspace : IsSpaces " " := List.forall_mem_singleton.mpr rfl
  have hmember := Derives.member hbefore name.spells_jsonEscaped isSpaces_nil
    (.element hspace htext hafter)
  rw [Text.pairSurrogates_units] at hmember
  rw [writeString_eq]
  exact hmember

/-- The first field and the ones after it are members. -/
theorem derives_members (hstyle : style.IsSpaced) (hafter : IsSpaces after) (rest : Fields Json)
    (hrest : ∀ field ∈ rest, Derives words .value (writeAt style level field.2)) (name : Text)
    {text : Text} (hbefore : IsSpaces before) (htext : Derives words .value text) :
    Derives words (.members ((name :: rest.keys).map Text.pairSurrogates))
      (before ++ (writeString name ++
        (": " ++ (text ++ (writeFields style level rest ++ after))))) := by
  induction rest generalizing before name text with
  | nil => exact .lastMember (derives_member hbefore hafter name htext)
  | cons field rest ih =>
      obtain ⟨other, value⟩ := field
      obtain ⟨hvalue, hothers⟩ := List.forall_mem_cons.mp hrest
      obtain ⟨spaces, hspaces, hbetween⟩ := hstyle.between level
      have hmore := Derives.members (derives_member hbefore isSpaces_nil name htext)
        (ih hothers other hspaces hvalue)
      show Derives words
        (.members (name.pairSurrogates :: (other :: Fields.keys rest).map Text.pairSurrogates)) _
      rw [writeFields, hbetween]
      simpa only [List.append_assoc, List.append_nil] using hmore

/-- An object is written as its members in braces. -/
theorem writeAt_obj (hstyle : style.IsSpaced) (level : Nat) (field : Text × Json) (rest : Fields Json)
    (h : ∀ field' ∈ field :: rest, ∀ level, Derives words .value (writeAt style level field'.2)) :
    ∃ text, writeAt style level (.obj (field :: rest)) = "\x7b" ++ (text ++ "\x7d") ∧
      Derives words (.members ((Fields.keys (field :: rest)).map Text.pairSurrogates)) text := by
  obtain ⟨name, value⟩ := field
  obtain ⟨hvalue, hrest⟩ := List.forall_mem_cons.mp h
  have hmembers := derives_members hstyle (hstyle.closing (level + 1)) rest
    (fun field hfield => hrest field hfield (level + 1)) name (hstyle.opening (level + 1))
    (hvalue (level + 1))
  refine ⟨_, ?_, hmembers⟩
  rw [writeAt]
  simp only [List.append_assoc]

/-- **A value is written as the grammar asks**, with the words of the numbers in it that have no
digits. -/
theorem derives_writeAt (hplain : plainWords ⊆ words) (hstyle : style.IsSpaced) {value : Json}
    (h : ∀ number, IsPart (.float number) value →
      number.isFinite = true ∨ number.write .json ∈ words) (level : Nat) :
    Derives words .value (writeAt style level value) := by
  induction value using Json.ind generalizing level with
  | null => exact .word (hplain (by simp [plainWords, writeAt]))
  | bool value =>
      cases value
      · exact .word (hplain (by simp [plainWords, writeAt]))
      · exact .word (hplain (by simp [plainWords, writeAt]))
  | int value => exact .number (Text.isNumber_ofInt value)
  | float number =>
      rcases h number (.refl _) with hfinite | hword
      · exact .number (Binary64.isNumber_write hfinite)
      · exact .word hword
  | str text =>
      rw [writeAt, writeString_eq]
      exact .string text.spells_jsonEscaped
  | arr items ih =>
      have hitems : ∀ item ∈ items, ∀ level, Derives words .value (writeAt style level item) :=
        fun item hitem => ih item hitem fun number hpart => h number (.item hitem hpart)
      cases items with
      | nil => exact .emptyArray isSpaces_nil
      | cons item rest =>
          obtain ⟨hitem, hrest⟩ := List.forall_mem_cons.mp hitems
          have helements := derives_elements hstyle (hstyle.closing (level + 1)) rest
            (fun item hitem => hrest item hitem (level + 1)) (hstyle.opening (level + 1))
            (hitem (level + 1))
          have harray := Derives.array helements
          rw [writeAt]
          simpa only [List.append_assoc] using harray
  | obj fields ih =>
      have hfields : ∀ field ∈ fields, ∀ level, Derives words .value (writeAt style level field.2) :=
        fun field hfield => ih field hfield fun number hpart => h number (.field hfield hpart)
      cases fields with
      | nil => exact .emptyObject isSpaces_nil
      | cons field rest =>
          obtain ⟨text, htext, hmembers⟩ := writeAt_obj hstyle level field rest hfields
          rw [htext]
          exact .object hmembers

end

end Json

end Schemata
