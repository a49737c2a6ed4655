import Mathlib.Data.List.TakeDrop
import Mathlib.Tactic.SplitIfs
import Schemata.Json.Grammar

/-!
# Numbers that are read

Every number of the grammar is read, as an integer or as a floating-point number, and never as the value
that is no number (`Json.exists_value_of_isNumber`): each of its parts is taken in whole, since the
part behind it begins with something else. In a number there are only digits and five other code points
(`Json.IsNumber.isNumeric`). So no number is a word, and nothing in it ends a word.
-/

namespace Schemata

namespace Json

variable {text rest : Text}

/-! ## What numbers consist of -/

/-- The code points that numbers consist of. -/
def isNumeric (c : CodePoint) : Bool := c.digit?.isSome || ("-+.eE" : Text).contains c

theorem isNumeric_of_digit {c : CodePoint} (h : c.digit?.isSome = true) : isNumeric c = true := by
  rw [isNumeric, h, Bool.true_or]

theorem AreDigits.isNumeric (h : AreDigits text) : ∀ c ∈ text, isNumeric c = true :=
  fun c hc => isNumeric_of_digit (h c hc)

theorem IsWhole.isNumeric (h : IsWhole text) : ∀ c ∈ text, Json.isNumeric c = true := by
  cases h with
  | zero => exact List.forall_mem_singleton.mpr rfl
  | positive h =>
      cases h with
      | digits hfirst _ hrest =>
          exact List.forall_mem_cons.mpr ⟨isNumeric_of_digit hfirst, hrest.isNumeric⟩

theorem IsFraction.isNumeric (h : IsFraction text) : ∀ c ∈ text, Json.isNumeric c = true := by
  cases h with
  | none => exact fun c hc => absurd hc List.not_mem_nil
  | some _ hdigits => exact List.forall_mem_cons.mpr ⟨rfl, hdigits.isNumeric⟩

theorem sign_isNumeric (h : text ∈ (["", "-", "+"] : List Text)) :
    ∀ c ∈ text, Json.isNumeric c = true := by
  simp only [List.mem_cons, List.not_mem_nil, or_false] at h
  rcases h with rfl | rfl | rfl
  · exact fun c hc => absurd hc List.not_mem_nil
  · exact List.forall_mem_singleton.mpr rfl
  · exact List.forall_mem_singleton.mpr rfl

theorem IsPower.isNumeric (h : IsPower text) : ∀ c ∈ text, Json.isNumeric c = true := by
  cases h with
  | none => exact fun c hc => absurd hc List.not_mem_nil
  | some hletter hsign _ hdigits =>
      refine List.forall_mem_append.mpr ⟨?_, List.forall_mem_append.mpr ⟨?_, hdigits.isNumeric⟩⟩
      · simp only [List.mem_cons, List.not_mem_nil, or_false] at hletter
        rcases hletter with rfl | rfl <;> exact List.forall_mem_singleton.mpr rfl
      · exact sign_isNumeric hsign

/-- **In a number there are digits and few other code points.** -/
theorem IsNumber.isNumeric (h : IsNumber text) : ∀ c ∈ text, Json.isNumeric c = true := by
  cases h with
  | parts hsign hwhole hfraction hpower =>
      have hsigns : (["", "-"] : List Text) ⊆ ["", "-", "+"] := by simp
      refine List.forall_mem_append.mpr ⟨sign_isNumeric (hsigns hsign), ?_⟩
      refine List.forall_mem_append.mpr ⟨hwhole.isNumeric, ?_⟩
      exact List.forall_mem_append.mpr ⟨hfraction.isNumeric, hpower.isNumeric⟩

/-- A text with something else in it is no number. -/
theorem IsNumber.ne_of_all (h : IsNumber text) {word : Text} (hword : word.all Json.isNumeric = false) :
    text ≠ word := by
  rintro rfl
  rw [List.all_eq_true.mpr h.isNumeric] at hword
  cases hword

/-! ## Parts -/

/-- Digits end where something else begins. -/
theorem spanDigits_append {digits : Text} (h : AreDigits digits)
    (hrest : ∀ c ∈ rest.head?, c.digit? = none) : Text.spanDigits (digits ++ rest) = (digits, rest) := by
  have hstop : rest.takeWhile (fun c => c.digit?.isSome) = [] ∧
      rest.dropWhile (fun c => c.digit?.isSome) = rest := by
    cases rest with
    | nil => exact ⟨rfl, rfl⟩
    | cons c others => simp [hrest c rfl]
  rw [Text.spanDigits, List.span_eq_takeWhile_dropWhile, List.takeWhile_append_of_pos h,
    List.dropWhile_append_of_pos h, hstop.1, hstop.2, List.append_nil]

namespace NumberParts

theorem wholeOf?_append {whole : Text} (h : IsWhole whole)
    (hrest : ∀ c ∈ rest.head?, c.digit? = none) : wholeOf? (whole ++ rest) = some (whole, rest) := by
  cases h with
  | zero =>
      have hdigits : AreDigits "0" := List.forall_mem_singleton.mpr rfl
      rw [wholeOf?, spanDigits_append hdigits hrest]
      rfl
  | positive h =>
      cases h with
      | digits hfirst hzero hdigits =>
          rw [wholeOf?, spanDigits_append (List.forall_mem_cons.mpr ⟨hfirst, hdigits⟩) hrest]
          exact if_neg hzero

theorem fractionOf_of_head (h : ∀ c ∈ rest.head?, c ≠ CodePoint.ofChar '.') :
    fractionOf rest = (none, rest) := by
  cases rest with
  | nil => rfl
  | cons c others => exact if_neg (h c rfl)

theorem exists_fractionOf {fraction : Text} (h : IsFraction fraction)
    (hrest : ∀ c ∈ rest.head?, c.digit? = none ∧ c ≠ CodePoint.ofChar '.') :
    ∃ digits?, fractionOf (fraction ++ rest) = (digits?, rest) := by
  cases h with
  | none => exact ⟨none, fractionOf_of_head fun c hc => (hrest c hc).2⟩
  | @some digits hne hdigits =>
      refine ⟨some digits, ?_⟩
      show fractionOf (CodePoint.ofChar '.' :: (digits ++ rest)) = _
      rw [fractionOf, if_pos rfl, spanDigits_append hdigits fun c hc => (hrest c hc).1]
      cases digits with
      | nil => exact absurd rfl hne
      | cons first others => rfl

theorem signOf_append {sign digits : Text} (hsign : sign ∈ (["", "-", "+"] : List Text))
    (hdigits : AreDigits digits) : ∃ negative, signOf (sign ++ digits) = (negative, digits) := by
  simp only [List.mem_cons, List.not_mem_nil, or_false] at hsign
  rcases hsign with rfl | rfl | rfl
  · cases digits with
    | nil => exact ⟨false, rfl⟩
    | cons c others =>
        have hc := hdigits c List.mem_cons_self
        have hminus : c ≠ CodePoint.ofChar '-' := fun h => absurd (h ▸ hc) (by decide)
        have hplus : c ≠ CodePoint.ofChar '+' := fun h => absurd (h ▸ hc) (by decide)
        exact ⟨false, (if_neg hminus).trans (if_neg hplus)⟩
  · exact ⟨true, rfl⟩
  · exact ⟨false, rfl⟩

theorem exists_powerOf {power : Text} (h : IsPower power) :
    ∃ exponent?, powerOf power = (exponent?, []) := by
  cases h with
  | none => exact ⟨none, rfl⟩
  | @some letter sign digits hletter hsign hne hdigits =>
      obtain ⟨negative, hsigned⟩ := signOf_append hsign hdigits
      obtain ⟨c, rfl, hc⟩ : ∃ c, letter = [c] ∧ (c = CodePoint.ofChar 'e' ∨ c = CodePoint.ofChar 'E') := by
        simp only [List.mem_cons, List.not_mem_nil, or_false] at hletter
        rcases hletter with rfl | rfl
        · exact ⟨_, rfl, .inl rfl⟩
        · exact ⟨_, rfl, .inr rfl⟩
      have hspan : Text.spanDigits digits = (digits, []) := by
        have hnil : ∀ c ∈ ([] : Text).head?, c.digit? = none := by simp
        have happend := spanDigits_append hdigits hnil
        rwa [List.append_nil] at happend
      refine ⟨some (signed negative digits), ?_⟩
      show powerOf (c :: (sign ++ digits)) = _
      rw [powerOf, if_pos hc, hsigned]
      dsimp only
      rw [hspan]
      cases digits with
      | nil => exact absurd rfl hne
      | cons first others => rfl

theorem head_of_isPower {power : Text} (h : IsPower power) :
    ∀ c ∈ power.head?, c.digit? = none ∧ c ≠ CodePoint.ofChar '.' := by
  cases h with
  | none => simp
  | some hletter =>
      simp only [List.mem_cons, List.not_mem_nil, or_false] at hletter
      rcases hletter with rfl | rfl <;> exact fun c hc => Option.mem_some.mp hc ▸ by decide

theorem head_of_fraction {fraction power : Text} (h : IsFraction fraction) (hpower : IsPower power) :
    ∀ c ∈ (fraction ++ power).head?, c.digit? = none := by
  cases h with
  | none => exact fun c hc => (head_of_isPower hpower c hc).1
  | some => exact fun c hc => Option.mem_some.mp hc ▸ rfl

theorem exists_ofUnsigned? (negative : Bool) {whole fraction power : Text} (hwhole : IsWhole whole)
    (hfraction : IsFraction fraction) (hpower : IsPower power) :
    ∃ parts, ofUnsigned? negative (whole ++ (fraction ++ power)) = some (parts, []) := by
  obtain ⟨digits?, hdigits⟩ := exists_fractionOf hfraction (head_of_isPower hpower)
  obtain ⟨exponent?, hexponent⟩ := exists_powerOf hpower
  refine ⟨⟨negative, whole, digits?, exponent?⟩, ?_⟩
  rw [ofUnsigned?, wholeOf?_append hwhole (head_of_fraction hfraction hpower), Option.map_some]
  simp only [hdigits, hexponent]

/-- **A number is read as a number, up to its end.** -/
theorem exists_ofText? (h : IsNumber text) : ∃ parts, ofText? text = some (parts, []) := by
  cases h with
  | @parts sign whole fraction power hsign hwhole hfraction hpower =>
      simp only [List.mem_cons, List.not_mem_nil, or_false] at hsign
      rcases hsign with rfl | rfl
      · obtain ⟨parts, hparts⟩ := exists_ofUnsigned? false hwhole hfraction hpower
        refine ⟨parts, ?_⟩
        show ofText? (whole ++ (fraction ++ power)) = _
        cases hwhole with
        | zero => exact hparts
        | positive h =>
            cases h with
            | @digits first others hfirst =>
                have hminus : first ≠ CodePoint.ofChar '-' := fun h => absurd (h ▸ hfirst) (by decide)
                exact (if_neg hminus).trans hparts
      · obtain ⟨parts, hparts⟩ := exists_ofUnsigned? true hwhole hfraction hpower
        exact ⟨parts, hparts⟩

end NumberParts

/-! ## Values -/

theorem toBinary64_ne_nan (negative : Bool) (d : Decimal) : d.toBinary64 negative ≠ .nan := by
  have hassemble : ∀ mantissa exponent, Binary64.assemble negative mantissa exponent ≠ .nan := by
    intro mantissa exponent
    unfold Binary64.assemble
    split
    · nofun
    · split <;> nofun
  unfold Decimal.toBinary64
  dsimp only
  split
  · nofun
  · split
    · nofun
    · exact hassemble _ _

/-- **Every number is read**, as an integer or as a value that is a number. -/
theorem exists_value_of_isNumber (h : IsNumber text) :
    ∃ value, ofWord none text = .ok value ∧
      ((∃ number, value = .int number) ∨ ∃ number ≠ .nan, value = .float number) := by
  obtain ⟨parts, hparts⟩ := NumberParts.exists_ofText? h
  refine ⟨parts.value, ?_, ?_⟩
  · have hlong : parts.isLong none = false := by
      rw [NumberParts.isLong, Option.any_none, Bool.and_false]
    have hnumber : ofNumber none text = .ok parts.value := by
      rw [ofNumber, hparts]
      simp [hlong]
    have hnull : text ≠ ("null" : Text) := h.ne_of_all rfl
    have htrue : text ≠ ("true" : Text) := h.ne_of_all rfl
    have hfalse : text ≠ ("false" : Text) := h.ne_of_all rfl
    have hnan : text ≠ ("NaN" : Text) := h.ne_of_all rfl
    have hinfinity : text ≠ ("Infinity" : Text) := h.ne_of_all rfl
    have hnegative : text ≠ ("-Infinity" : Text) := h.ne_of_all rfl
    rw [ofWord, if_neg hnull, if_neg htrue, if_neg hfalse, if_neg hnan, if_neg hinfinity,
      if_neg hnegative]
    exact hnumber
  · unfold NumberParts.value
    split
    · exact .inl ⟨_, rfl⟩
    · exact .inr ⟨_, toBinary64_ne_nan _ _, rfl⟩

/-- What is read with a limit is read without one. -/
theorem ofWord_none_of_ok {limit : Option Nat} {value : Json} (h : ofWord limit text = .ok value) :
    ofWord none text = .ok value := by
  have hnumber : ∀ {value}, ofNumber limit text = .ok value → ofNumber none text = .ok value := by
    intro value h
    unfold ofNumber at h ⊢
    cases hparts : NumberParts.ofText? text with
    | none =>
        rw [hparts] at h
        cases h
    | some found =>
        obtain ⟨parts, rest⟩ := found
        have hlong : parts.isLong none = false := by
          rw [NumberParts.isLong, Option.any_none, Bool.and_false]
        simp only [hparts] at h
        simp only [hlong]
        split at h
        · cases h
        · exact h
  unfold ofWord at h ⊢
  split_ifs at h ⊢
  all_goals first | exact h | exact hnumber h

end Json

end Schemata
