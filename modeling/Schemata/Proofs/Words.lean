import Mathlib.Data.List.Chain
import Schemata.Text.Blank

/-!
# Words

Normalised text is the words of a text with one space between neighbours. The two passes that make it
look at blanks only: the first one makes a space of each run, the second one trims the ends. So between the
blanks at both ends there stands what the words make, and its own ends are no blanks:

* **words** — they are not empty and have no blanks (`Text.isWord_of_mem_words`), and there are none
  exactly if the text is blank (`Text.words_eq_nil_iff`);
* **two passes** — the first one leaves the words, but for blanks at the ends (`Text.squeezeFrom_eq`), and
  trimming takes these away (`Text.trim_of_isBlank`);
* **neat** — words that are joined by spaces have no blank at either end, and no blanks but single spaces
  between them (`Text.isNeat_joined`);
* **normalised text** — it is the words (`Text.normalizeSpace_eq`), so it is neat, and it is empty exactly
  if the text is blank (`Text.normalizeSpace_eq_nil_iff`).
-/

namespace Schemata

namespace Text

/-- Nothing but blanks. -/
def IsBlank (text : Text) : Prop := ∀ c ∈ text, c.isBlank = true

/-- Something, and no blanks. -/
def IsWord (text : Text) : Prop := text ≠ [] ∧ ∀ c ∈ text, c.isBlank = false

/-- No blank at either end, and no blanks but single spaces. -/
structure IsNeat (text : Text) : Prop where
  first : ∀ c ∈ text.head?, c.isBlank = false
  last : ∀ c ∈ text.getLast?, c.isBlank = false
  spaces : ∀ c ∈ text, c.isBlank = true → c = ' '
  single : text.IsChain fun left right => left.isBlank = true → right.isBlank = false

/-- The space that stands between words. -/
def space : Text := [' ']

/-! ## Words -/

/-- What is cut off at blanks are words, if the unfinished one has no blanks. -/
theorem isWord_of_mem_wordsFrom {word text : Text} (hword : ∀ c ∈ word, c.isBlank = false) :
    ∀ other ∈ wordsFrom word text, other.IsWord := by
  induction text generalizing word with
  | nil =>
      intro other hother
      cases word with
      | nil => exact absurd hother List.not_mem_nil
      | cons c rest =>
          obtain rfl := List.mem_singleton.mp hother
          exact ⟨List.cons_ne_nil c rest, hword⟩
  | cons c rest ih =>
      cases hblank : c.isBlank with
      | false =>
          rw [wordsFrom, hblank]
          refine ih fun other hother => ?_
          rcases List.mem_append.mp hother with h | h
          · exact hword other h
          · exact List.mem_singleton.mp h ▸ hblank
      | true =>
          -- the unfinished word is finished, if there is one
          cases word with
          | nil =>
              rw [wordsFrom, hblank]
              exact ih (by simp)
          | cons first others =>
              rw [wordsFrom, hblank]
              exact List.forall_mem_cons.mpr ⟨⟨List.cons_ne_nil first others, hword⟩, ih (by simp)⟩

theorem isWord_of_mem_words {text word : Text} (h : word ∈ words text) : word.IsWord :=
  isWord_of_mem_wordsFrom (by simp) word h

theorem wordsFrom_eq_nil_iff {word text : Text} : wordsFrom word text = [] ↔ word = [] ∧ text.IsBlank := by
  induction text generalizing word with
  | nil => cases word <;> simp [wordsFrom, IsBlank]
  | cons c rest ih =>
      cases hblank : c.isBlank with
      | false => simp [wordsFrom, hblank, ih, IsBlank]
      | true => cases word <;> simp [wordsFrom, hblank, ih, IsBlank]

/-- **A text without words is blank.** -/
theorem words_eq_nil_iff {text : Text} : words text = [] ↔ text.IsBlank := by
  simp [words, wordsFrom_eq_nil_iff]

/-! ## Two passes -/

theorem joined_cons (separator word : Text) {words : List Text} (h : words ≠ []) :
    joined separator (word :: words) = word ++ separator ++ joined separator words := by
  cases words with
  | nil => exact absurd rfl h
  | cons => rfl

/-- **Runs that became spaces stand between words**: behind a run there are the words of what follows, and
an unfinished word becomes the first of them. At the end there may be a space too many. -/
theorem squeezeFrom_eq (text : Text) :
    (∃ after, IsBlank after ∧ squeezeFrom true text = joined space (words text) ++ after) ∧
      ∀ word, word ≠ [] → ∃ after, IsBlank after ∧
        word ++ squeezeFrom false text = joined space (wordsFrom word text) ++ after := by
  induction text with
  | nil =>
      refine ⟨⟨[], nofun, rfl⟩, fun word hword => ⟨[], nofun, ?_⟩⟩
      rw [wordsFrom, if_neg (by simpa using hword)]
      rfl
  | cons c rest ih =>
      obtain ⟨hrun, hword⟩ := ih
      cases hblank : c.isBlank with
      | false =>
          simp only [squeezeFrom, words, wordsFrom, hblank, Bool.false_eq_true, if_false]
          refine ⟨hword [c] (List.cons_ne_nil c []), fun word _ => ?_⟩
          have hlonger := hword (word ++ [c]) (List.append_ne_nil_of_right_ne_nil _ (List.cons_ne_nil c []))
          rwa [List.append_assoc] at hlonger
      | true =>
          simp only [squeezeFrom, words, wordsFrom, hblank, if_true]
          refine ⟨hrun, fun word hne => ?_⟩
          obtain ⟨after, hafter, heq⟩ := hrun
          have hunfinished : ¬ word.isEmpty = true := by simpa using hne
          rw [if_neg hunfinished, heq]
          by_cases hnone : words rest = []
          · -- no word follows, so the space is one too many
            refine ⟨' ' :: after, List.forall_mem_cons.mpr ⟨rfl, hafter⟩, ?_⟩
            rw [words] at hnone
            rw [words, hnone]
            rfl
          · refine ⟨after, hafter, ?_⟩
            rw [words] at hnone
            rw [joined_cons space word hnone, words, space]
            simp

theorem dropWhile_of_isBlank {before rest : Text} (h : IsBlank before)
    (hfirst : ∀ c ∈ rest.head?, c.isBlank = false) :
    (before ++ rest).dropWhile CodePoint.isBlank = rest := by
  rw [List.dropWhile_append_of_pos h]
  cases rest with
  | nil => rfl
  | cons c rest => rw [List.dropWhile_cons, hfirst c rfl, if_neg Bool.false_ne_true]

/-- Trimming takes the blanks at the ends away and stops where there are none. -/
theorem trim_of_isBlank {before core after : Text} (hbefore : IsBlank before) (hafter : IsBlank after)
    (hfirst : ∀ c ∈ core.head?, c.isBlank = false) (hlast : ∀ c ∈ core.getLast?, c.isBlank = false) :
    trim (before ++ (core ++ after)) = core := by
  by_cases hnone : core = []
  · have hblank : IsBlank (before ++ after) :=
      fun c hc => (List.mem_append.mp hc).elim (hbefore c) (hafter c)
    have hdrop : (before ++ after ++ []).dropWhile CodePoint.isBlank = [] :=
      dropWhile_of_isBlank hblank nofun
    rw [List.append_nil] at hdrop
    rw [hnone, List.nil_append, trim, hdrop]
    rfl
  · have hhead : ∀ c ∈ (core ++ after).head?, c.isBlank = false := by
      rwa [List.head?_append_of_ne_nil core hnone]
    have hreversed : IsBlank after.reverse := fun c hc => hafter c (List.mem_reverse.mp hc)
    rw [trim, dropWhile_of_isBlank hbefore hhead, List.reverse_append,
      dropWhile_of_isBlank hreversed (by rwa [List.head?_reverse]), List.reverse_reverse]

/-! ## Neat -/

theorem IsWord.isNeat {word : Text} (h : word.IsWord) : word.IsNeat where
  first := fun c hc => h.2 c (List.mem_of_mem_head? hc)
  last := fun c hc => h.2 c (List.mem_of_mem_getLast? hc)
  spaces := fun c hc hblank => by rw [h.2 c hc] at hblank; cases hblank
  single := by
    have hpairs : word.Pairwise fun left right => left.isBlank = true → right.isBlank = false :=
      List.pairwise_of_forall_mem_list fun _ _ right hright _ => h.2 right hright
    exact hpairs.isChain

theorem joined_ne_nil {separator : Text} {words : List Text} (hne : words ≠ [])
    (h : ∀ word ∈ words, word.IsWord) : joined separator words ≠ [] := by
  cases words with
  | nil => exact absurd rfl hne
  | cons word rest =>
      have hword : word ≠ [] := (h word List.mem_cons_self).1
      cases rest <;> simp [joined, hword]

/-- **Words that are joined by spaces are neat.** -/
theorem isNeat_joined {words : List Text} (h : ∀ word ∈ words, word.IsWord) :
    (joined space words).IsNeat := by
  induction words with
  | nil => exact ⟨nofun, nofun, nofun, .nil⟩
  | cons word rest ih =>
      obtain ⟨hword, hrest⟩ := List.forall_mem_cons.mp h
      by_cases hnone : rest = []
      · rw [hnone]
        exact hword.isNeat
      · obtain ⟨hfirst, hlast, hspaces, hsingle⟩ := ih hrest
        have hfilled : joined space rest ≠ [] := joined_ne_nil hnone hrest
        rw [joined_cons space word hnone, List.append_assoc]
        refine ⟨?_, ?_, ?_, ?_⟩
        · rw [List.head?_append_of_ne_nil word hword.1]
          exact hword.isNeat.first
        · rwa [List.getLast?_append_of_ne_nil _ (List.append_ne_nil_of_right_ne_nil space hfilled),
            List.getLast?_append_of_ne_nil _ hfilled]
        · intro c hc hblank
          rcases List.mem_append.mp hc with hc | hc
          · exact hword.isNeat.spaces c hc hblank
          · rcases List.mem_append.mp hc with hc | hc
            · exact List.mem_singleton.mp hc
            · exact hspaces c hc hblank
        · -- the space has a word before it and a word behind it
          refine List.isChain_append.mpr ⟨hword.isNeat.single, ?_, ?_⟩
          · refine List.isChain_append.mpr ⟨.singleton _, hsingle, ?_⟩
            exact fun _ _ c hc _ => hfirst c hc
          · intro c hc _ _ hblank
            rw [hword.2 c (List.mem_of_mem_getLast? hc)] at hblank
            cases hblank

/-! ## Normalised text -/

/-- **Normalised text is the words with one space between neighbours.** -/
theorem normalizeSpace_eq (text : Text) : normalizeSpace text = joined space (words text) := by
  have hneat : (joined space (words text)).IsNeat := isNeat_joined fun _ => isWord_of_mem_words
  obtain ⟨before, after, hbefore, hafter, heq⟩ : ∃ before after, IsBlank before ∧ IsBlank after ∧
      squeeze text = before ++ (joined space (words text) ++ after) := by
    cases text with
    | nil => exact ⟨[], [], nofun, nofun, rfl⟩
    | cons c rest =>
        obtain ⟨hrun, hword⟩ := squeezeFrom_eq rest
        cases hblank : c.isBlank with
        | false =>
            obtain ⟨after, hafter, heq⟩ := hword [c] (List.cons_ne_nil c [])
            refine ⟨[], after, nofun, hafter, ?_⟩
            simpa [squeeze, squeezeFrom, words, wordsFrom, hblank] using heq
        | true =>
            obtain ⟨after, hafter, heq⟩ := hrun
            refine ⟨space, after, List.forall_mem_singleton.mpr rfl, hafter, ?_⟩
            simpa [squeeze, squeezeFrom, words, wordsFrom, hblank, space] using heq
  rw [normalizeSpace, heq, trim_of_isBlank hbefore hafter hneat.first hneat.last]

/-- Normalised text is neat. -/
theorem isNeat_normalizeSpace (text : Text) : (normalizeSpace text).IsNeat := by
  rw [normalizeSpace_eq]
  exact isNeat_joined fun _ => isWord_of_mem_words

/-- **Nothing is left of a blank text, and of no other.** -/
theorem normalizeSpace_eq_nil_iff {text : Text} : normalizeSpace text = [] ↔ text.IsBlank := by
  rw [normalizeSpace_eq, ← words_eq_nil_iff]
  constructor
  · intro h
    by_contra hne
    exact joined_ne_nil hne (fun _ => isWord_of_mem_words) h
  · intro h
    rw [h]
    rfl

end Text

end Schemata
