import Schemata.Proofs.Words

/-!
# Maximal words

The words of a text are its maximal runs without a blank: blanks may stand before a word, and behind it
there is a blank or the end of the text (`Text.HasWords`). That fixes them (`Text.hasWords_iff`), and with
them the normalised text:

* **again** — words with one space between neighbours are the words of what they make
  (`Text.words_joined`), so normalised text has the words of the text (`Text.words_normalizeSpace`);
* **parts** — where blanks stand between two texts no word goes from one into the other, so the words of
  the whole are those of both (`Text.HasWords.append`, `Text.words_append`).
-/

namespace Schemata

namespace Text

/-- A blank comes first, if anything does. -/
def StartsBlank (text : Text) : Prop := ∀ c ∈ text.head?, c.isBlank = true

/-- These are the maximal runs without a blank of the text, in order. -/
inductive HasWords : Text → List Text → Prop
  | blank {text : Text} : text.IsBlank → HasWords text []
  | word {before word rest : Text} {others : List Text} : before.IsBlank → word.IsWord →
      rest.StartsBlank → HasWords rest others → HasWords (before ++ (word ++ rest)) (word :: others)

variable {text left right blanks word rest : Text} {found others : List Text}

/-! ## Blanks -/

theorem isBlank_nil : IsBlank [] := by
  intro c hc
  exact absurd hc List.not_mem_nil

theorem isBlank_space : space.IsBlank := List.forall_mem_singleton.mpr rfl

theorem IsBlank.append (hleft : left.IsBlank) (hright : right.IsBlank) : (left ++ right).IsBlank := by
  intro c hc
  rcases List.mem_append.mp hc with h | h
  · exact hleft c h
  · exact hright c h

theorem startsBlank_nil : StartsBlank [] := by
  intro c hc
  cases hc

/-- What begins with blanks starts with one. -/
theorem IsBlank.startsBlank (h : blanks.IsBlank) (hne : blanks ≠ []) (text : Text) :
    (blanks ++ text).StartsBlank := by
  intro c hc
  rw [List.head?_append_of_ne_nil blanks hne] at hc
  exact h c (List.mem_of_mem_head? hc)

/-! ## The words of a text -/

/-- A word that comes first. -/
theorem HasWords.first (hword : word.IsWord) (hrest : rest.StartsBlank) (h : HasWords rest others) :
    HasWords (word ++ rest) (word :: others) :=
  .word isBlank_nil hword hrest h

/-- A word that is alone. -/
theorem HasWords.single (hword : word.IsWord) : HasWords word [word] := by
  have h : HasWords (word ++ []) [word] := .first hword startsBlank_nil (.blank isBlank_nil)
  rwa [List.append_nil] at h

/-- Blanks in front change no word. -/
theorem HasWords.of_blanks (hblanks : blanks.IsBlank) (h : HasWords text found) :
    HasWords (blanks ++ text) found := by
  cases h with
  | blank htext => exact .blank (hblanks.append htext)
  | word hbefore hword hrest h =>
      rw [← List.append_assoc]
      exact .word (hblanks.append hbefore) hword hrest h

/-- Cutting a text at its blanks, with an unfinished word in front, leaves maximal words. -/
theorem hasWords_wordsFrom (hword : ∀ c ∈ word, c.isBlank = false) :
    HasWords (word ++ text) (wordsFrom word text) := by
  induction text generalizing word with
  | nil =>
      rw [List.append_nil]
      cases word with
      | nil => exact .blank isBlank_nil
      | cons c rest => exact .single ⟨List.cons_ne_nil c rest, hword⟩
  | cons c rest ih =>
      cases hblank : c.isBlank with
      | false =>
          rw [wordsFrom, hblank, ← List.singleton_append, ← List.append_assoc]
          apply ih
          intro other hother
          rcases List.mem_append.mp hother with h | h
          · exact hword other h
          · exact List.mem_singleton.mp h ▸ hblank
      | true =>
          have hspace : IsBlank [c] := List.forall_mem_singleton.mpr hblank
          have hfresh : HasWords ([] ++ rest) (wordsFrom [] rest) := ih (by simp)
          have hrest : HasWords ([c] ++ rest) (wordsFrom [] rest) := .of_blanks hspace hfresh
          rw [wordsFrom, hblank, ← List.singleton_append]
          cases word with
          | nil => exact hrest
          | cons first others =>
              -- the blank ends the unfinished word
              have hstarts := hspace.startsBlank (List.cons_ne_nil c []) rest
              exact .first ⟨List.cons_ne_nil first others, hword⟩ hstarts hrest

theorem hasWords_words (text : Text) : HasWords text (words text) := by
  have h : HasWords ([] ++ text) (wordsFrom [] text) := hasWords_wordsFrom (by simp)
  exact h

theorem words_of_blanks (hblanks : blanks.IsBlank) (text : Text) : words (blanks ++ text) = words text := by
  induction blanks with
  | nil => rfl
  | cons c blanks ih =>
      obtain ⟨hc, hrest⟩ := List.forall_mem_cons.mp hblanks
      show wordsFrom [] (c :: (blanks ++ text)) = _
      rw [wordsFrom, hc]
      exact ih hrest

/-- A word goes on as long as no blank comes. -/
theorem wordsFrom_append (hrest : ∀ c ∈ rest, c.isBlank = false) (word text : Text) :
    wordsFrom word (rest ++ text) = wordsFrom (word ++ rest) text := by
  induction rest generalizing word with
  | nil => rw [List.append_nil, List.nil_append]
  | cons c rest ih =>
      obtain ⟨hc, hothers⟩ := List.forall_mem_cons.mp hrest
      show wordsFrom word (c :: (rest ++ text)) = _
      rw [wordsFrom, hc, if_neg Bool.false_ne_true, ih hothers, List.append_assoc,
        List.singleton_append]

/-- A word ends where a blank comes, or the end. -/
theorem wordsFrom_of_startsBlank (hword : word ≠ []) (hrest : rest.StartsBlank) :
    wordsFrom word rest = word :: words rest := by
  have hunfinished : ¬ word.isEmpty = true := by simpa using hword
  cases rest with
  | nil =>
      rw [wordsFrom, if_neg hunfinished]
      rfl
  | cons c rest =>
      have hc : c.isBlank = true := hrest c rfl
      rw [wordsFrom, if_pos hc, if_neg hunfinished, words, wordsFrom, if_pos hc]
      rfl

/-- **The maximal words of a text are those that it is cut into.** -/
theorem hasWords_iff : HasWords text found ↔ found = words text := by
  constructor
  · intro h
    induction h with
    | blank htext => exact (words_eq_nil_iff.mpr htext).symm
    | @word before word rest others hbefore hword hrest _ ih =>
        rw [words_of_blanks hbefore, words, wordsFrom_append hword.2, List.nil_append,
          wordsFrom_of_startsBlank hword.1 hrest, ih]
  · rintro rfl
    exact hasWords_words text

/-! ## Again -/

/-- Words with one space between neighbours are the words of what they make. -/
theorem words_joined (h : ∀ word ∈ found, word.IsWord) : words (joined space found) = found := by
  symm
  rw [← hasWords_iff]
  induction found with
  | nil => exact .blank isBlank_nil
  | cons word rest ih =>
      obtain ⟨hword, hrest⟩ := List.forall_mem_cons.mp h
      by_cases hnone : rest = []
      · rw [hnone]
        exact .single hword
      · rw [joined_cons space word hnone, List.append_assoc]
        have hstarts := isBlank_space.startsBlank (List.cons_ne_nil _ _) (joined space rest)
        exact .first hword hstarts (.of_blanks isBlank_space (ih hrest))

/-- **Normalised text has the words of the text.** -/
theorem words_normalizeSpace (text : Text) : words (normalizeSpace text) = words text := by
  rw [normalizeSpace_eq, words_joined fun _ => isWord_of_mem_words]

/-! ## In parts -/

/-- **With blanks between two texts the words of the whole are those of both.** -/
theorem HasWords.append (hleft : HasWords left found) (hblanks : blanks.IsBlank) (hne : blanks ≠ [])
    (hright : HasWords right others) : HasWords (left ++ (blanks ++ right)) (found ++ others) := by
  induction hleft with
  | blank htext => exact .of_blanks htext (.of_blanks hblanks hright)
  | @word before word rest more hbefore hword hrest _ ih =>
      have hstarts : StartsBlank (rest ++ (blanks ++ right)) := by
        cases rest with
        | nil => exact hblanks.startsBlank hne right
        | cons c rest => exact hrest
      rw [List.append_assoc, List.append_assoc]
      exact .word hbefore hword hstarts ih

theorem words_append (left right : Text) (hblanks : blanks.IsBlank) (hne : blanks ≠ []) :
    words (left ++ (blanks ++ right)) = words left ++ words right := by
  symm
  rw [← hasWords_iff]
  exact (hasWords_words left).append hblanks hne (hasWords_words right)

/-- **Normalised text is the maximal words of the text with one space between neighbours.** So it is
normalised already, and where blanks stand between two texts these may be normalised before. -/
theorem normalizeSpace_joins_maximal_words :
    (∀ text, ∃ found, (∀ others, HasWords text others ↔ others = found) ∧
      normalizeSpace text = joined space found) ∧
    (∀ text, normalizeSpace (normalizeSpace text) = normalizeSpace text) ∧
    ∀ left right blanks, IsBlank blanks → blanks ≠ [] →
      normalizeSpace (left ++ (blanks ++ right)) =
        normalizeSpace (normalizeSpace left ++ (space ++ normalizeSpace right)) := by
  refine ⟨fun text => ⟨words text, fun _ => hasWords_iff, normalizeSpace_eq text⟩, ?_, ?_⟩
  · intro text
    rw [normalizeSpace_eq (normalizeSpace text), words_normalizeSpace, ← normalizeSpace_eq]
  · intro left right blanks hblanks hne
    rw [normalizeSpace_eq, normalizeSpace_eq (normalizeSpace left ++ _), words_append left right hblanks hne,
      words_append _ _ isBlank_space (List.cons_ne_nil _ _), words_normalizeSpace, words_normalizeSpace]

/-- A line break and a tab stand between two texts that have blanks of their own. -/
theorem two_lines_are_normalised :
    IsBlank "\n\t" ∧ ("\n\t" : Text) ≠ [] ∧
      normalizeSpace " The  user" = "The user" ∧ normalizeSpace "id \n" = "id" ∧
      normalizeSpace (" The  user" ++ ("\n\t" ++ "id \n")) = "The user id" := by
  have hblanks : IsBlank "\n\t" := normalizeSpace_eq_nil_iff.mp rfl
  have hne : ("\n\t" : Text) ≠ [] := by decide
  have hparts := normalizeSpace_joins_maximal_words.2.2 " The  user" "id \n" "\n\t" hblanks hne
  exact ⟨hblanks, hne, by decide, by decide, hparts.trans (by decide)⟩

end Text

end Schemata
