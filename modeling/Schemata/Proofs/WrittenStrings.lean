import Mathlib.Tactic.SplitIfs
import Schemata.Json.Grammar
import Schemata.Json.Writer

/-!
# Written strings

A text is written as characters that spell its UTF-16 units (`Text.spells_jsonEscaped`). A reader puts
the halves of surrogate pairs together again, those of the units and those that stood in the text as lone
halves (`Text.pairSurrogates_units`). There are none of the latter in a text that has been read before
(`Text.pairSurrogates_pairSurrogates`), so such a text is got back.
-/

namespace Schemata

open Json

/-! ## Escapes -/

namespace Text

theorem length_hexadecimal (width n : Nat) : (hexadecimal width n).length = width := by
  induction width generalizing n with
  | zero => rfl
  | succ width ih => rw [hexadecimal, List.length_append, ih, List.length_singleton]

theorem hexDigit?_ofDigit {d : Nat} (h : d < 16) : (CodePoint.ofDigit d).hexDigit? = some d := by
  have hall : ∀ d : Fin 16, (CodePoint.ofDigit d).hexDigit? = some d.val := by decide
  exact hall ⟨d, h⟩

theorem hexValueFrom_append (value : Nat) (left right : Text) :
    hexValueFrom value (left ++ right) =
      (hexValueFrom value left).bind fun v => hexValueFrom v right := by
  induction left generalizing value with
  | nil => rfl
  | cons c rest ih =>
      simp only [List.cons_append, hexValueFrom]
      cases c.hexDigit? with
      | none => rfl
      | some d => exact ih _

theorem hexValueFrom_hexadecimal (width n value : Nat) :
    hexValueFrom value (hexadecimal width n) =
      some (Nat.pow 16 width * value + n % Nat.pow 16 width) := by
  induction width generalizing n with
  | zero =>
      show some value = some (1 * value + n % 1)
      rw [Nat.one_mul, Nat.mod_one, Nat.add_zero]
  | succ width ih =>
      have hlast : n % 16 < 16 := Nat.mod_lt n (by decide)
      have hpower : Nat.pow 16 (width + 1) = 16 * Nat.pow 16 width := Nat.mul_comm _ _
      have hsplit : n % Nat.pow 16 (width + 1) = n % 16 + 16 * (n / 16 % Nat.pow 16 width) := by
        rw [hpower, Nat.mod_mul]
      rw [hexadecimal, hexValueFrom_append, ih, Option.bind_some, hexValueFrom,
        hexDigit?_ofDigit hlast, Option.bind_some, hexValueFrom, hsplit, hpower]
      congr 1
      rw [Nat.mul_add, Nat.mul_assoc]
      omega

end Text

namespace CodePoint

/-- The UTF-16 units of a code point. -/
def units (c : CodePoint) : Text :=
  if c.val < 0x10000 then [c]
  else
    [ofNat (0xD800 + (c.val - 0x10000) / 0x400), ofNat (0xDC00 + (c.val - 0x10000) % 0x400)]

theorem spells_unitEscape {unit : Nat} (hunit : unit < 0x10000) {rest text : Text}
    (h : Spells rest text) : Spells (unitEscape unit ++ rest) (ofNat unit :: text) := by
  have hvalue : hexValueFrom 0 (Text.hexadecimal 4 unit) = some unit := by
    rw [Text.hexValueFrom_hexadecimal, Nat.mul_zero, Nat.zero_add]
    exact congrArg some (Nat.mod_eq_of_lt hunit)
  have hspells := Spells.unit (Text.length_hexadecimal 4 unit) hvalue h
  rw [unitEscape, List.append_assoc]
  exact hspells

theorem ofNat_val (c : CodePoint) : ofNat c.val = c := by
  rw [ofNat, dif_pos c.isLt]

/-- The ways to write a code point: by a letter, as it is, and by one UTF-16 unit or two. -/
theorem jsonEscaped_cases (c : CodePoint) :
    (c.val < 0x10000 ∧ ∃ escape ∈ letterEscapes, escape.2 = c ∧
      c.jsonEscaped = "\\" ++ [escape.1]) ∨
    (c.val < 0x10000 ∧ 0x20 ≤ c.val ∧ c ≠ ofChar '"' ∧ c ≠ ofChar '\\' ∧ c.jsonEscaped = [c]) ∨
    (c.val < 0x10000 ∧ c.jsonEscaped = unitEscape c.val) ∨
    (¬ c.val < 0x10000 ∧ c.jsonEscaped = unitEscape (0xD800 + (c.val - 0x10000) / 0x400) ++
      unitEscape (0xDC00 + (c.val - 0x10000) % 0x400)) := by
  generalize hwritten : c.jsonEscaped = written
  have hletter : ∀ escape ∈ letterEscapes, c = escape.2 → written = "\\" ++ [escape.1] →
      c.val < 0x10000 ∧ ∃ escape ∈ letterEscapes, escape.2 = c ∧ written = "\\" ++ [escape.1] := by
    rintro escape hescape rfl hwritten
    have hsmall : letterEscapes.all (fun escape => escape.2.val < 0x10000) = true := rfl
    exact ⟨of_decide_eq_true (List.all_eq_true.mp hsmall escape hescape), escape, hescape, rfl, hwritten⟩
  unfold jsonEscaped at hwritten
  split_ifs at hwritten with hquote hbackslash hfeed hreturn htab hback hform hprintable hshort
  · exact .inl (hletter (ofChar '"', ofChar '"') (by decide) hquote hwritten.symm)
  · exact .inl (hletter (ofChar '\\', ofChar '\\') (by decide) hbackslash hwritten.symm)
  · exact .inl (hletter (ofChar 'n', ofChar '\n') (by decide) hfeed hwritten.symm)
  · exact .inl (hletter (ofChar 'r', ofChar '\r') (by decide) hreturn hwritten.symm)
  · exact .inl (hletter (ofChar 't', ofChar '\t') (by decide) htab hwritten.symm)
  · exact .inl (hletter (ofChar 'b', ofChar '\x08') (by decide) (Fin.ext hback) hwritten.symm)
  · exact .inl (hletter (ofChar 'f', ofChar '\x0C') (by decide) (Fin.ext hform) hwritten.symm)
  · exact .inr (.inl ⟨by omega, hprintable.1, hquote, hbackslash, hwritten.symm⟩)
  · exact .inr (.inr (.inl ⟨hshort, hwritten.symm⟩))
  · exact .inr (.inr (.inr ⟨hshort, hwritten.symm⟩))

/-- **A code point is written as characters that spell its units.** -/
theorem spells_jsonEscaped (c : CodePoint) {rest text : Text} (h : Spells rest text) :
    Spells (c.jsonEscaped ++ rest) (c.units ++ text) := by
  unfold units
  rcases c.jsonEscaped_cases with ⟨hshort, escape, hescape, rfl, heq⟩ |
    ⟨hshort, hprintable, hquote, hbackslash, heq⟩ | ⟨hshort, heq⟩ | ⟨hlong, heq⟩
  · rw [heq, if_pos hshort]
    exact .letter hescape h
  · rw [heq, if_pos hshort]
    exact .plain hprintable hquote hbackslash h
  · have hunit := spells_unitEscape hshort h
    rw [ofNat_val] at hunit
    rw [heq, if_pos hshort]
    exact hunit
  · rw [heq, if_neg hlong, List.append_assoc]
    exact spells_unitEscape (by omega) (spells_unitEscape (by omega) h)

end CodePoint

namespace Text

/-- The UTF-16 units of a text. -/
def units (text : Text) : Text := text.flatMap CodePoint.units

/-- A text is written as characters that spell its units. -/
theorem spells_jsonEscaped (text : Text) : Spells (text.flatMap CodePoint.jsonEscaped) text.units := by
  induction text with
  | nil => exact .nil
  | cons c rest ih =>
      rw [units, List.flatMap_cons, List.flatMap_cons]
      exact c.spells_jsonEscaped ih

/-! ## Surrogate pairs -/

/-- Whether two code points look like a surrogate pair. -/
def looksPaired (first second : CodePoint) : Bool := first.isHighSurrogate && second.isLowSurrogate

/-- The code point that two halves stand for. -/
def paired (first second : CodePoint) : CodePoint :=
  CodePoint.ofNat (0x10000 + (first.val - 0xD800) * 0x400 + (second.val - 0xDC00))

theorem pairSurrogates_of_paired {first second : CodePoint} (h : looksPaired first second = true)
    (rest : Text) :
    pairSurrogates (first :: second :: rest) = paired first second :: pairSurrogates rest := by
  rw [pairSurrogates]
  exact if_pos h

theorem pairSurrogates_cons {c : CodePoint} {rest : Text}
    (h : ∀ second ∈ rest.head?, looksPaired c second = false) :
    pairSurrogates (c :: rest) = c :: pairSurrogates rest := by
  cases rest with
  | nil => rfl
  | cons second rest =>
      have hsecond := h second rfl
      rw [pairSurrogates]
      refine if_neg ?_
      rw [looksPaired] at hsecond
      rw [hsecond]
      exact Bool.false_ne_true

/-- What two halves stand for is no half. -/
theorem paired_val {first second : CodePoint} (h : looksPaired first second = true) :
    (paired first second).val = 0x10000 + (first.val - 0xD800) * 0x400 + (second.val - 0xDC00) := by
  simp only [looksPaired, CodePoint.isHighSurrogate, CodePoint.isLowSurrogate, Bool.and_eq_true,
    decide_eq_true_eq] at h
  rw [paired, CodePoint.ofNat, dif_pos (by omega)]

theorem looksPaired_of_large {c : CodePoint} (h : 0x10000 ≤ c.val) (other : CodePoint) :
    looksPaired c other = false ∧ looksPaired other c = false := by
  simp only [looksPaired, CodePoint.isHighSurrogate, CodePoint.isLowSurrogate, Bool.and_eq_false_iff,
    decide_eq_false_iff_not]
  omega

/-- The first code point stays, or it takes in the second. -/
theorem head?_pairSurrogates {c head : CodePoint} {rest : Text}
    (h : head ∈ (pairSurrogates (c :: rest)).head?) : head = c ∨ 0x10000 ≤ head.val := by
  cases rest with
  | nil => exact .inl (Option.mem_some.mp h).symm
  | cons second rest =>
      cases hpaired : looksPaired c second with
      | true =>
          rw [pairSurrogates_of_paired hpaired] at h
          rw [← Option.mem_some.mp h, paired_val hpaired]
          exact .inr (by omega)
      | false =>
          rw [pairSurrogates_cons (fun other hother => Option.mem_some.mp hother ▸ hpaired)] at h
          exact .inl (Option.mem_some.mp h).symm

/-- **What has been put together stays as it is.** -/
theorem pairSurrogates_pairSurrogates (text : Text) :
    pairSurrogates (pairSurrogates text) = pairSurrogates text := by
  induction text using pairSurrogates.induct with
  | case1 => rfl
  | case2 c => rfl
  | case3 first second rest hpaired ih =>
      have hlarge : 0x10000 ≤ (paired first second).val := by
        rw [paired_val hpaired]
        omega
      rw [pairSurrogates_of_paired hpaired,
        pairSurrogates_cons fun other _ => (looksPaired_of_large hlarge other).1, ih]
  | case4 first second rest hpaired ih =>
      have hsecond : looksPaired first second = false := Bool.eq_false_iff.mpr hpaired
      rw [pairSurrogates_cons (fun other hother => Option.mem_some.mp hother ▸ hsecond),
        pairSurrogates_cons, ih]
      intro head hhead
      rcases head?_pairSurrogates hhead with rfl | hlarge
      · exact hsecond
      · exact (looksPaired_of_large hlarge first).2

theorem head?_units {c head : CodePoint} {rest : Text} (h : head ∈ (units (c :: rest)).head?) :
    head = c ∨ head.isLowSurrogate = false := by
  rw [units, List.flatMap_cons, CodePoint.units] at h
  split at h
  · exact .inl (Option.mem_some.mp h).symm
  · rw [← Option.mem_some.mp h, CodePoint.ofNat, dif_pos (by omega)]
    refine .inr (Bool.eq_false_iff.mpr fun hlow => ?_)
    simp only [CodePoint.isLowSurrogate, Bool.and_eq_true, decide_eq_true_eq] at hlow
    omega

/-- The units of a code point stand for it, unless it and what follows look like a pair. -/
theorem pairSurrogates_units_append (c : CodePoint) {rest : Text}
    (h : ∀ second ∈ rest.head?, looksPaired c second = false) :
    pairSurrogates (c.units ++ rest) = c :: pairSurrogates rest := by
  unfold CodePoint.units
  split
  · exact pairSurrogates_cons h
  · next hlong =>
    have hbound := c.isLt
    have hhigh : (CodePoint.ofNat (0xD800 + (c.val - 0x10000) / 0x400)).val =
        0xD800 + (c.val - 0x10000) / 0x400 := by rw [CodePoint.ofNat, dif_pos (by omega)]
    have hlow : (CodePoint.ofNat (0xDC00 + (c.val - 0x10000) % 0x400)).val =
        0xDC00 + (c.val - 0x10000) % 0x400 := by rw [CodePoint.ofNat, dif_pos (by omega)]
    have hpaired : looksPaired (CodePoint.ofNat (0xD800 + (c.val - 0x10000) / 0x400))
        (CodePoint.ofNat (0xDC00 + (c.val - 0x10000) % 0x400)) = true := by
      simp only [looksPaired, CodePoint.isHighSurrogate, CodePoint.isLowSurrogate, hhigh, hlow,
        Bool.and_eq_true, decide_eq_true_eq]
      omega
    have hsame : paired (CodePoint.ofNat (0xD800 + (c.val - 0x10000) / 0x400))
        (CodePoint.ofNat (0xDC00 + (c.val - 0x10000) % 0x400)) = c := by
      apply Fin.ext
      rw [paired_val hpaired, hhigh, hlow]
      omega
    show pairSurrogates (_ :: _ :: rest) = _
    rw [pairSurrogates_of_paired hpaired, hsame]

/-- **The units of a text are put together as the text itself is.** -/
theorem pairSurrogates_units (text : Text) : pairSurrogates text.units = pairSurrogates text := by
  induction text using pairSurrogates.induct with
  | case1 => rfl
  | case2 c =>
      rw [units, List.flatMap_cons, pairSurrogates_units_append c (by simp)]
      rfl
  | case3 first second rest hpaired ih =>
      have hhalves := hpaired
      simp only [CodePoint.isHighSurrogate, CodePoint.isLowSurrogate, Bool.and_eq_true,
        decide_eq_true_eq] at hhalves
      have hunits : units (first :: second :: rest) = first :: second :: units rest := by
        rw [units, List.flatMap_cons, List.flatMap_cons, CodePoint.units, CodePoint.units,
          if_pos (by omega), if_pos (by omega)]
        rfl
      rw [hunits, pairSurrogates_of_paired hpaired, pairSurrogates_of_paired hpaired, ih]
  | case4 first second rest hpaired ih =>
      have hsecond : looksPaired first second = false := Bool.eq_false_iff.mpr hpaired
      have hunits : units (first :: second :: rest) = first.units ++ units (second :: rest) :=
        List.flatMap_cons
      have hkept : pairSurrogates (first :: second :: rest) =
          first :: pairSurrogates (second :: rest) :=
        pairSurrogates_cons fun other hother => Option.mem_some.mp hother ▸ hsecond
      rw [hunits, pairSurrogates_units_append, ih, hkept]
      intro head hhead
      rcases head?_units hhead with rfl | hlow
      · exact hsecond
      · rw [looksPaired, hlow, Bool.and_false]

end Text

end Schemata
