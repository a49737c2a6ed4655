import Schemata.Proofs.ReadText

/-!
# Outside of strings

The words for numbers without digits are the only ones with certain capital letters. Outside of the
strings of a JSON text these letters do not stand (`Json.lexes_of_derives`). In the text that is written
for a value with such a number in it they do (`Json.reveals_writeAt`). So a value is written as JSON text
exactly if all numbers in it have digits (`Json.isJson_writeAt_append_iff`).
-/

namespace Schemata

open Json

/-! ## Scanning -/

/-- Where a scan of a text stands. -/
inductive Quoting where
  | outside
  | inside
  /-- Inside, behind a backslash. -/
  | escaped

namespace Text

/-- What stands outside of strings, for a scan that stands there. -/
def unquotedFrom : Quoting → Text → Text
  | _, [] => []
  | .outside, c :: rest =>
    if c = '"' then unquotedFrom .inside rest else c :: unquotedFrom .outside rest
  | .inside, c :: rest =>
    if c = '"' then unquotedFrom .outside rest
    else if c = '\\' then unquotedFrom .escaped rest
    else unquotedFrom .inside rest
  | .escaped, _ :: rest => unquotedFrom .inside rest

/-- What stands outside of strings. -/
def unquoted (text : Text) : Text := unquotedFrom .outside text

/-- A scan of the text ends where it began, outside of strings. -/
def IsBalanced (text : Text) : Prop :=
  ∀ rest : Text, (text ++ rest).unquoted = text.unquoted ++ rest.unquoted

variable {text left right : Text}

theorem IsBalanced.append (hleft : IsBalanced left) (hright : IsBalanced right) :
    IsBalanced (left ++ right) := by
  intro rest
  rw [List.append_assoc, hleft, hright, hleft, List.append_assoc]

/-- Without a quote everything stands outside. -/
theorem unquoted_append_of_noQuote (h : ∀ c ∈ text, c ≠ CodePoint.ofChar '"') (rest : Text) :
    (text ++ rest).unquoted = text ++ rest.unquoted := by
  induction text with
  | nil => rfl
  | cons c others ih =>
      obtain ⟨hc, hothers⟩ := List.forall_mem_cons.mp h
      show unquotedFrom .outside (c :: (others ++ rest)) = _
      rw [unquotedFrom, if_neg hc]
      exact congrArg (List.cons c) (ih hothers)

theorem unquoted_of_noQuote (h : ∀ c ∈ text, c ≠ CodePoint.ofChar '"') : text.unquoted = text := by
  have happend := unquoted_append_of_noQuote h []
  have hnil : unquoted [] = [] := rfl
  rwa [hnil, List.append_nil] at happend

theorem isBalanced_of_noQuote (h : ∀ c ∈ text, c ≠ CodePoint.ofChar '"') : IsBalanced text := by
  intro rest
  rw [unquoted_append_of_noQuote h, unquoted_of_noQuote h]

theorem unquotedFrom_inside_cons {c : CodePoint} (hquote : c ≠ CodePoint.ofChar '"')
    (hbackslash : c ≠ CodePoint.ofChar '\\') (rest : Text) :
    unquotedFrom .inside (c :: rest) = unquotedFrom .inside rest := by
  rw [unquotedFrom, if_neg hquote, if_neg hbackslash]

/-- Hexadecimal digits are passed over. -/
theorem unquotedFrom_inside_digits {digits : Text} {value unit : Nat}
    (h : hexValueFrom value digits = some unit) (rest : Text) :
    unquotedFrom .inside (digits ++ rest) = unquotedFrom .inside rest := by
  induction digits generalizing value with
  | nil => rfl
  | cons c others ih =>
      obtain ⟨digit, hdigit, hothers⟩ := Option.bind_eq_some_iff.mp h
      have hne : ∀ mark : CodePoint, mark.hexDigit? = none → c ≠ mark := by
        rintro mark hmark rfl
        cases hmark.symm.trans hdigit
      rw [List.cons_append, unquotedFrom_inside_cons (hne _ rfl) (hne _ rfl)]
      exact ih hothers

/-- The characters of a string stand inside, up to the closing quote. -/
theorem unquotedFrom_inside {characters spelled : Text} (h : Spells characters spelled) (rest : Text) :
    unquotedFrom .inside (characters ++ CodePoint.ofChar '"' :: rest) = rest.unquoted := by
  induction h with
  | nil => rfl
  | plain _ hquote hbackslash _ ih =>
      rw [List.cons_append, unquotedFrom_inside_cons hquote hbackslash]
      exact ih
  | letter _ _ ih => exact ih
  | @unit digits others _ _ _ hvalue _ ih =>
      show unquotedFrom .inside ((digits ++ others) ++ _) = _
      rw [List.append_assoc, unquotedFrom_inside_digits hvalue]
      exact ih

/-- Nothing of a string stands outside of it. -/
theorem unquoted_quoted_append {characters spelled : Text} (h : Spells characters spelled)
    (rest : Text) : (Json.quoted characters ++ rest).unquoted = rest.unquoted := by
  rw [quoted_append]
  exact unquotedFrom_inside h rest

theorem unquoted_quoted {characters spelled : Text} (h : Spells characters spelled) :
    (Json.quoted characters).unquoted = [] := by
  have hquoted := unquoted_quoted_append h []
  rwa [List.append_nil] at hquoted

theorem isBalanced_quoted {characters spelled : Text} (h : Spells characters spelled) :
    IsBalanced (Json.quoted characters) := by
  intro rest
  rw [unquoted_quoted_append h, unquoted_quoted h, List.nil_append]

end Text

namespace Json

/-! ## Words -/

/-- The letters that stand in the words for numbers without digits, and in no other word. -/
def isTelling (c : CodePoint) : Bool := c = 'N' || c = 'I'

/-- What stands outside of strings is like the text of the grammar with those words: no telling letters
but those of words. -/
structure Lexes (words : List Text) (text : Text) : Prop where
  balanced : text.IsBalanced
  telling : ∀ c ∈ text.unquoted, isTelling c = true → ∃ word ∈ words, c ∈ word

namespace Lexes

variable {words : List Text} {text left right : Text}

theorem append (hleft : Lexes words left) (hright : Lexes words right) :
    Lexes words (left ++ right) where
  balanced := hleft.balanced.append hright.balanced
  telling := by
    rw [hleft.balanced right]
    exact List.forall_mem_append.mpr ⟨hleft.telling, hright.telling⟩

/-- Without quotes and telling letters. -/
theorem plain (words : List Text) (hquote : ∀ c ∈ text, c ≠ CodePoint.ofChar '"')
    (htelling : ∀ c ∈ text, isTelling c = false) : Lexes words text where
  balanced := Text.isBalanced_of_noQuote hquote
  telling := by
    rw [Text.unquoted_of_noQuote hquote]
    intro c hc h
    rw [htelling c hc] at h
    cases h

theorem mark {c : CodePoint} (words : List Text) (hquote : c ≠ CodePoint.ofChar '"')
    (htelling : isTelling c = false) : Lexes words [c] :=
  plain words (List.forall_mem_singleton.mpr hquote) (List.forall_mem_singleton.mpr htelling)

theorem spaces (words : List Text) (h : IsSpaces text) : Lexes words text := by
  have hspace : ∀ c, Reader.isSpace c = true → c ≠ CodePoint.ofChar '"' ∧ isTelling c = false := by
    intro c hc
    simp only [Reader.isSpace, Bool.or_eq_true, decide_eq_true_eq] at hc
    rcases hc with ((rfl | rfl) | rfl) | rfl <;> exact ⟨by decide, rfl⟩
  exact plain words (fun c hc => (hspace c (h c hc)).1) fun c hc => (hspace c (h c hc)).2

theorem number (words : List Text) (h : IsNumber text) : Lexes words text := by
  refine plain words (fun c hc heq => ?_) fun c hc => ?_
  · have hnumeric := h.isNumeric c hc
    rw [heq] at hnumeric
    cases hnumeric
  · have hnumeric := h.isNumeric c hc
    cases htelling : isTelling c with
    | false => rfl
    | true =>
        simp only [isTelling, Bool.or_eq_true, decide_eq_true_eq] at htelling
        rcases htelling with rfl | rfl <;> cases hnumeric

theorem string (words : List Text) {characters spelled : Text} (h : Spells characters spelled) :
    Lexes words (quoted characters) where
  balanced := Text.isBalanced_quoted h
  telling := by
    rw [Text.unquoted_quoted h]
    exact fun c hc => absurd hc List.not_mem_nil

end Lexes

/-- **In the texts of the grammar, telling letters stand in words and in strings only.** -/
theorem lexes_of_derives {words : List Text}
    (hwords : ∀ word ∈ words, ∀ c ∈ word, c ≠ CodePoint.ofChar '"') {symbol : Symbol} {text : Text}
    (h : Derives words symbol text) : Lexes words text := by
  have hmark : ∀ {c : CodePoint}, c ≠ CodePoint.ofChar '"' → isTelling c = false → Lexes words [c] :=
    fun hquote htelling => .mark words hquote htelling
  induction h with
  | @word text hmem =>
      refine ⟨Text.isBalanced_of_noQuote (hwords text hmem), ?_⟩
      rw [Text.unquoted_of_noQuote (hwords text hmem)]
      exact fun c hc _ => ⟨text, hmem, hc⟩
  | number hnumber => exact .number words hnumber
  | string hspells => exact .string words hspells
  | emptyArray hspaces =>
      exact .append (hmark (by decide) rfl) (.append (.spaces words hspaces) (hmark (by decide) rfl))
  | array _ ih => exact .append (hmark (by decide) rfl) (ih.append (hmark (by decide) rfl))
  | emptyObject hspaces =>
      exact .append (hmark (by decide) rfl) (.append (.spaces words hspaces) (hmark (by decide) rfl))
  | object _ ih => exact .append (hmark (by decide) rfl) (ih.append (hmark (by decide) rfl))
  | element hbefore _ hafter ih =>
      exact .append (.spaces words hbefore) (ih.append (.spaces words hafter))
  | lastElement _ ih => exact ih
  | elements _ _ ih ihrest => exact ih.append (.append (hmark (by decide) rfl) ihrest)
  | member hbefore hname hafter _ ih =>
      exact .append (.spaces words hbefore) (.append (.string words hname)
        (.append (.spaces words hafter) (.append (hmark (by decide) rfl) ih)))
  | lastMember _ ih => exact ih
  | members _ _ ih ihrest => exact ih.append (.append (hmark (by decide) rfl) ihrest)

/-! ## Written values -/

/-- A telling letter stands outside of strings. -/
def Reveals (text : Text) : Prop := ∃ c ∈ text.unquoted, isTelling c = true

theorem Reveals.append_left {words : List Text} {left : Text} (hleft : Lexes words left)
    (h : Reveals left) (right : Text) : Reveals (left ++ right) := by
  obtain ⟨c, hc, htelling⟩ := h
  refine ⟨c, ?_, htelling⟩
  rw [hleft.balanced right]
  exact List.mem_append_left _ hc

theorem Reveals.append_right {words : List Text} {left right : Text} (hleft : Lexes words left)
    (h : Reveals right) : Reveals (left ++ right) := by
  obtain ⟨c, hc, htelling⟩ := h
  refine ⟨c, ?_, htelling⟩
  rw [hleft.balanced right]
  exact List.mem_append_right _ hc

/-- A text of the plain grammar reveals nothing. -/
theorem not_reveals_of_derives {symbol : Symbol} {text : Text} (h : Derives plainWords symbol text) :
    ¬ Reveals text := by
  rintro ⟨c, hc, htelling⟩
  have hquote : plainWords.all (fun word => word.all fun c => c ≠ CodePoint.ofChar '"') = true := rfl
  have hplain : plainWords.all (fun word => word.all fun c => !isTelling c) = true := rfl
  simp only [List.all_eq_true, decide_eq_true_eq, Bool.not_eq_true'] at hquote hplain
  obtain ⟨word, hword, hmem⟩ := (lexes_of_derives hquote h).telling c hc htelling
  cases htelling.symm.trans (hplain word hword c hmem)

theorem isFinite_or_write_mem (number : Binary64) :
    number.isFinite = true ∨ number.write .json ∈ Reader.readableWords := by
  cases number with
  | nan => exact .inr (by simp [Binary64.write, SpecialNames.json, Reader.readableWords])
  | infinite negative =>
      refine .inr ?_
      cases negative
      · exact .tail _ (.tail _ (.tail _ (.tail _ (.head _))))
      · exact .tail _ (.tail _ (.tail _ (.tail _ (.tail _ (.head _)))))
  | finite => exact .inl rfl

/-- A value without digits is written as a telling word. -/
theorem reveals_write {number : Binary64} (h : number.isFinite = false) :
    Reveals (number.write .json) := by
  cases number with
  | nan => exact ⟨CodePoint.ofChar 'N', .head _, rfl⟩
  | infinite negative =>
      cases negative
      · exact ⟨CodePoint.ofChar 'I', .head _, rfl⟩
      · exact ⟨CodePoint.ofChar 'I', .tail _ (.head _), rfl⟩
  | finite => cases h

section

variable {style : Style} {level : Nat}

theorem derives_readable (hstyle : style.IsSpaced) (level : Nat) (value : Json) :
    Derives Reader.readableWords .value (writeAt style level value) := by
  exact derives_writeAt Reader.plainWords_subset hstyle (fun number _ => isFinite_or_write_mem number) level

theorem lexes_writeAt (hstyle : style.IsSpaced) (level : Nat) (value : Json) :
    Lexes Reader.readableWords (writeAt style level value) := by
  have hquote : Reader.readableWords.all
      (fun word => word.all fun c => c ≠ CodePoint.ofChar '"') = true := rfl
  simp only [List.all_eq_true, decide_eq_true_eq] at hquote
  exact lexes_of_derives hquote (derives_readable hstyle level value)

theorem lexes_between (hstyle : style.IsSpaced) (level : Nat) :
    Lexes Reader.readableWords (style.between level) := by
  obtain ⟨spaces, hspaces, heq⟩ := hstyle.between level
  rw [heq]
  exact .append (.mark _ (by decide) rfl) (.spaces _ hspaces)

theorem lexes_name (name : Text) : Lexes Reader.readableWords (writeString name ++ ": ") := by
  rw [writeString_eq]
  have hcolon : Lexes Reader.readableWords [CodePoint.ofChar ':'] := .mark _ (by decide) rfl
  have hspace : Lexes Reader.readableWords [CodePoint.ofChar ' '] := .mark _ (by decide) rfl
  exact .append (.string _ name.spells_jsonEscaped) (hcolon.append hspace)

theorem lexes_writeItems (hstyle : style.IsSpaced) (level : Nat) (items : List Json) :
    Lexes Reader.readableWords (writeItems style level items) := by
  induction items with
  | nil => exact .spaces _ isSpaces_nil
  | cons item rest ih =>
      rw [writeItems]
      exact .append (.append (lexes_between hstyle level) (lexes_writeAt hstyle level item)) ih

theorem lexes_writeFields (hstyle : style.IsSpaced) (level : Nat) (fields : Fields Json) :
    Lexes Reader.readableWords (writeFields style level fields) := by
  induction fields with
  | nil => exact .spaces _ isSpaces_nil
  | cons field rest ih =>
      obtain ⟨name, value⟩ := field
      have hname := (lexes_between hstyle level).append (lexes_name name)
      rw [writeFields, List.append_assoc (style.between level)]
      exact (hname.append (lexes_writeAt hstyle level value)).append ih

theorem reveals_writeItems (hstyle : style.IsSpaced) {item : Json} {items : List Json}
    (hitem : item ∈ items) (h : Reveals (writeAt style level item)) :
    Reveals (writeItems style level items) := by
  induction items with
  | nil => exact absurd hitem List.not_mem_nil
  | cons first rest ih =>
      have hfirst : Lexes Reader.readableWords (style.between level ++ writeAt style level first) :=
        .append (lexes_between hstyle level) (lexes_writeAt hstyle level first)
      rw [writeItems]
      rcases List.mem_cons.mp hitem with rfl | hrest
      · exact .append_left hfirst (.append_right (lexes_between hstyle level) h) _
      · exact .append_right hfirst (ih hrest)

theorem reveals_writeFields (hstyle : style.IsSpaced) {field : Text × Json} {fields : Fields Json}
    (hfield : field ∈ fields) (h : Reveals (writeAt style level field.2)) :
    Reveals (writeFields style level fields) := by
  induction fields with
  | nil => exact absurd hfield List.not_mem_nil
  | cons first rest ih =>
      obtain ⟨name, value⟩ := first
      have hname : Lexes Reader.readableWords (style.between level ++ (writeString name ++ ": ")) :=
        .append (lexes_between hstyle level) (lexes_name name)
      have hfirst := hname.append (lexes_writeAt hstyle level value)
      rw [writeFields, List.append_assoc (style.between level)]
      rcases List.mem_cons.mp hfield with rfl | hrest
      · exact .append_left hfirst (.append_right hname h) _
      · exact .append_right hfirst (ih hrest)

/-- **What is written for a value reveals the numbers without digits inside of it.** -/
theorem reveals_writeAt (hstyle : style.IsSpaced) {number : Binary64} {value : Json}
    (hnumber : number.isFinite = false) (h : IsPart (.float number) value) (level : Nat) :
    Reveals (writeAt style level value) := by
  induction h generalizing level with
  | refl => exact reveals_write hnumber
  | @item item items hitem _ ih =>
      cases items with
      | nil => exact absurd hitem List.not_mem_nil
      | cons first rest =>
          have hopening : Lexes Reader.readableWords ("[" ++ style.opening (level + 1)) :=
            .append (.mark _ (by decide) rfl) (.spaces _ (hstyle.opening (level + 1)))
          have hfirst := hopening.append (lexes_writeAt hstyle (level + 1) first)
          have hitems : Reveals ("[" ++ style.opening (level + 1) ++ writeAt style (level + 1) first ++
              writeItems style (level + 1) rest) := by
            rcases List.mem_cons.mp hitem with rfl | hrest
            · exact .append_left hfirst (.append_right hopening (ih (level + 1))) _
            · exact .append_right hfirst (reveals_writeItems hstyle hrest (ih (level + 1)))
          have hlexes := hfirst.append (lexes_writeItems hstyle (level + 1) rest)
          rw [writeAt, List.append_assoc]
          exact .append_left hlexes hitems _
  | @field field fields hfield _ ih =>
      cases fields with
      | nil => exact absurd hfield List.not_mem_nil
      | cons first rest =>
          obtain ⟨name, value⟩ := first
          have hopening : Lexes Reader.readableWords
              ("\x7b" ++ style.opening (level + 1) ++ (writeString name ++ ": ")) :=
            .append (.append (.mark _ (by decide) rfl) (.spaces _ (hstyle.opening (level + 1))))
              (lexes_name name)
          have hfirst := hopening.append (lexes_writeAt hstyle (level + 1) value)
          have hfields : Reveals ("\x7b" ++ style.opening (level + 1) ++ (writeString name ++ ": ") ++
              writeAt style (level + 1) value ++ writeFields style (level + 1) rest) := by
            rcases List.mem_cons.mp hfield with rfl | hrest
            · exact .append_left hfirst (.append_right hopening (ih (level + 1))) _
            · exact .append_right hfirst (reveals_writeFields hstyle hrest (ih (level + 1)))
          have hlexes := hfirst.append (lexes_writeFields hstyle (level + 1) rest)
          rw [writeAt]
          simpa only [List.append_assoc] using hfields.append_left hlexes _

/-- **A value is written as JSON text exactly if all numbers in it have digits.** White space may stand
behind it. -/
theorem isJson_writeAt_append_iff (hstyle : style.IsSpaced) {value : Json} (level : Nat) {after : Text}
    (hafter : IsSpaces after) : IsJson (writeAt style level value ++ after) ↔
      ∀ number, IsPart (.float number) value → number.isFinite = true := by
  constructor
  · intro h number hpart
    by_contra hfinite
    have hreveals := reveals_writeAt hstyle (Bool.eq_false_iff.mpr hfinite) hpart level
    exact not_reveals_of_derives h (hreveals.append_left (lexes_writeAt hstyle level value) after)
  · intro h
    have hvalue : Derives plainWords .value (writeAt style level value) :=
      derives_writeAt (List.Subset.refl _) hstyle (fun number hpart => .inl (h number hpart)) level
    exact .element isSpaces_nil hvalue hafter

end

end Json

end Schemata
