import Mathlib.Algebra.Group.Nat.Defs
import Schemata.Proofs.Meaning

/-!
# What numbers are worth

Sameness compares a `Magnitude` of numbers, which is an integer where there is one and a floating-point
number else. That is the exact comparison of what the numbers are worth. In units, the smallest positive
floating-point number, every number but the infinities is worth an integer (`Json.units?`), truth values
included, and two values are the same if they are worth the same (`Json.same_iff_units?`). Nothing is
rounded: an integer beyond 2^53 is the same as a floating-point number only if it is equal to it.

* **integers** — a floating-point number has the magnitude of an integer exactly if it is worth the
  integer (`Magnitude.ofBinary64_eq_whole_iff`);
* **the rest** — of the floating-point numbers that are worth the same, other than zero, there is one
  (`Binary64.eq_of_units?_eq`).
-/

namespace Schemata

open List (Forall₂)

/-! ## Floating-point numbers -/

namespace Binary64

/-- What a number is worth, in units. -/
def units? : Binary64 → Option Int
  | .finite negative mantissa exponent _ => some (signedUnits negative mantissa exponent)
  | _ => none

theorem unitsOfOne_ne_zero : (unitsOfOne : Int) ≠ 0 := by
  unfold unitsOfOne
  generalize exponentOfOne = one
  exact_mod_cast (Nat.two_pow_pos one).ne'

/-- Of two canonical pairs that are worth the same, none has the lower exponent. -/
theorem exponent_le_of_worth_eq {m e m' e' : Nat} (h : Canonical m e) (h' : Canonical m' e')
    (hworth : m * 2 ^ e = m' * 2 ^ e') : e' ≤ e := by
  obtain ⟨hm, -, -⟩ := h
  obtain ⟨-, -, hfull⟩ := h'
  by_contra hlt
  obtain ⟨k, rfl⟩ : ∃ k, e' = e + (k + 1) := ⟨e' - e - 1, by omega⟩
  have hm' : 2 ^ 52 ≤ m' := hfull.resolve_right (by omega)
  -- the full mantissa does not fit after it has taken over the powers of two
  have heq : m = m' * 2 ^ k * 2 := by
    refine Nat.eq_of_mul_eq_mul_right (Nat.two_pow_pos e) ?_
    rw [hworth, Nat.pow_add, Nat.pow_succ, Nat.mul_comm (2 ^ e), ← Nat.mul_assoc, ← Nat.mul_assoc]
  have hk : m' ≤ m' * 2 ^ k := Nat.le_mul_of_pos_right m' (Nat.two_pow_pos k)
  have hlow : m < 2 ^ 53 := hm
  omega

/-- A canonical pair is the only one for what it is worth. -/
theorem canonical_unique {m e m' e' : Nat} (h : Canonical m e) (h' : Canonical m' e')
    (hworth : m * 2 ^ e = m' * 2 ^ e') : m = m' ∧ e = e' := by
  obtain rfl : e = e' :=
    Nat.le_antisymm (exponent_le_of_worth_eq h' h hworth.symm) (exponent_le_of_worth_eq h h' hworth)
  exact ⟨Nat.eq_of_mul_eq_mul_right (Nat.two_pow_pos e) hworth, rfl⟩

theorem natAbs_signedUnits (negative : Bool) (m e : Nat) :
    (signedUnits negative m e).natAbs = m * 2 ^ e := by
  show Int.natAbs _ = m * Nat.pow 2 e
  unfold signedUnits
  generalize m * Nat.pow 2 e = size
  cases negative <;> simp

theorem isZero_iff {value : Binary64} : value.isZero = true ↔ value.units? = some 0 := by
  cases value with
  | nan => simp [isZero, units?]
  | infinite negative => simp [isZero, units?]
  | finite negative m e canonical =>
      rw [isZero, decide_eq_true_eq, units?, Option.some.injEq, ← Int.natAbs_eq_zero,
        natAbs_signedUnits, Nat.mul_eq_zero, or_iff_left (Nat.two_pow_pos e).ne']

/-- Apart from zero, what a number is worth tells its sign. -/
theorem sign_eq_of_signedUnits_eq {negative negative' : Bool} {m e m' e' : Nat}
    (hworth : signedUnits negative m e = signedUnits negative' m' e')
    (hzero : signedUnits negative m e ≠ 0) : negative = negative' := by
  unfold signedUnits at hworth hzero
  generalize m * Nat.pow 2 e = size at hworth hzero
  generalize m' * Nat.pow 2 e' = size' at hworth
  cases negative <;> cases negative' <;> simp at hworth hzero ⊢ <;> omega

/-- A number other than zero is the only one for what it is worth. -/
theorem eq_of_units?_eq {left right : Binary64} {units : Int} (hleft : left.units? = some units)
    (hright : right.units? = some units) (hzero : units ≠ 0) : left = right := by
  cases left with
  | nan => cases hleft
  | infinite negative => cases hleft
  | finite negative m e canonical =>
      cases right with
      | nan => cases hright
      | infinite negative => cases hright
      | finite negative' m' e' canonical' =>
          simp only [units?, Option.some.injEq] at hleft hright
          have hworth := hleft.trans hright.symm
          have hsize : m * 2 ^ e = m' * 2 ^ e' := by
            rw [← natAbs_signedUnits negative, hworth, natAbs_signedUnits]
          obtain ⟨rfl, rfl⟩ := canonical_unique canonical canonical' hsize
          obtain rfl := sign_eq_of_signedUnits_eq hworth (hleft ▸ hzero)
          rfl

end Binary64

/-! ## Integers among them -/

open Binary64 (unitsOfOne exponentOfOne)

namespace Magnitude

/-- The powers of two that an exponent lacks of another one, or has beyond it. -/
theorem lacking_mul (one exponent : Nat) :
    2 ^ (one - exponent) * 2 ^ exponent = 2 ^ one * 2 ^ (exponent - one) := by
  rw [← Nat.pow_add, ← Nat.pow_add, show one - exponent + exponent = one + (exponent - one) by omega]

/-- A mantissa that has the powers of two which its exponent lacks is worth an integer. -/
theorem size_of_mod_eq_zero {one m e : Nat} (h : m % 2 ^ (one - e) = 0) :
    m * 2 ^ e = m / 2 ^ (one - e) * 2 ^ (e - one) * 2 ^ one := by
  calc m * 2 ^ e = m / 2 ^ (one - e) * 2 ^ (one - e) * 2 ^ e := by
        rw [Nat.div_mul_cancel (Nat.dvd_of_mod_eq_zero h)]
    _ = m / 2 ^ (one - e) * (2 ^ one * 2 ^ (e - one)) := by rw [Nat.mul_assoc, lacking_mul]
    _ = m / 2 ^ (one - e) * 2 ^ (e - one) * 2 ^ one := by
        rw [Nat.mul_comm (2 ^ one), Nat.mul_assoc]

/-- Without them it is not. -/
theorem mod_eq_zero_of_dvd {one m e : Nat} (h : 2 ^ one ∣ m * 2 ^ e) : m % 2 ^ (one - e) = 0 := by
  rcases Nat.le_total e one with hle | hle
  · have hone : 2 ^ one = 2 ^ (one - e) * 2 ^ e := by rw [← Nat.pow_add, Nat.sub_add_cancel hle]
    rw [hone] at h
    exact Nat.mod_eq_zero_of_dvd (Nat.dvd_of_mul_dvd_mul_right (Nat.two_pow_pos e) h)
  · rw [Nat.sub_eq_zero_of_le hle, Nat.pow_zero, Nat.mod_one]

/-- **A floating-point number has the magnitude of an integer if it is worth the integer**, and only
then. -/
theorem ofBinary64_eq_whole_iff {value : Binary64} {whole : Int} :
    ofBinary64 value = .whole whole ↔ value.units? = some (whole * unitsOfOne) := by
  cases value with
  | nan => exact ⟨nofun, nofun⟩
  | infinite negative => exact ⟨nofun, nofun⟩
  | finite negative m e canonical =>
      -- which power of two one is does not count
      simp only [ofBinary64, Binary64.units?]
      unfold unitsOfOne
      generalize exponentOfOne = one
      have hone : ((Nat.pow 2 one : Nat) : Int) ≠ 0 := mod_cast (Nat.two_pow_pos one).ne'
      by_cases h : m % Nat.pow 2 (one - e) = 0
      · have hsize : m * Nat.pow 2 e =
            m / Nat.pow 2 (one - e) * Nat.pow 2 (e - one) * Nat.pow 2 one := size_of_mod_eq_zero h
        rw [if_pos h, Binary64.signedUnits, hsize]
        generalize m / Nat.pow 2 (one - e) * Nat.pow 2 (e - one) = size
        generalize Nat.pow 2 one = scale at hone ⊢
        cases negative <;> simp only [if_true, if_false, Bool.false_eq_true, Magnitude.whole.injEq,
          Option.some.injEq, Int.natCast_mul, ← Int.neg_mul, Int.mul_eq_mul_right_iff hone]
      · simp only [if_neg h, reduceCtorEq, false_iff]
        intro hunits
        have hsize : m * 2 ^ e = whole.natAbs * 2 ^ one := by
          rw [← Binary64.natAbs_signedUnits negative, Option.some.inj hunits, Int.natAbs_mul,
            Int.natAbs_natCast, Nat.pow_eq]
        exact h (mod_eq_zero_of_dvd ⟨whole.natAbs, hsize.trans (Nat.mul_comm _ _)⟩)

/-- A magnitude that is no integer is the number itself. -/
theorem eq_of_ofBinary64_eq_other {value other : Binary64} (h : ofBinary64 value = .other other) :
    value = other := by
  cases value with
  | nan => exact Magnitude.other.inj h
  | infinite negative => exact Magnitude.other.inj h
  | finite negative m e canonical =>
      simp only [ofBinary64] at h
      split at h
      · cases h
      · exact Magnitude.other.inj h

end Magnitude

/-! ## Numbers of any sort -/

namespace Json

/-- What a number or a truth value is worth, in units. The infinities are worth no number of them. -/
def units? : Json → Option Int
  | .bool value => some ((if value then 1 else 0) * unitsOfOne)
  | .int value => some (value * unitsOfOne)
  | .float value => value.units?
  | _ => none

theorem magnitude?_eq_whole_iff {value : Json} {whole : Int} :
    value.magnitude? = some (.whole whole) ↔ value.units? = some (whole * unitsOfOne) := by
  cases value <;> simp only [magnitude?, units?, Option.some.injEq, Magnitude.whole.injEq,
    Magnitude.ofBinary64_eq_whole_iff, Int.mul_eq_mul_right_iff Binary64.unitsOfOne_ne_zero,
    reduceCtorEq]

/-- What is worth no integer is a floating-point number. -/
theorem exists_float_of_units? {value : Json} {units : Int} (h : value.units? = some units)
    (hwhole : ∀ whole : Int, units ≠ whole * unitsOfOne) :
    ∃ number : Binary64, value = .float number ∧ number.units? = some units := by
  cases value with
  | float number => exact ⟨number, rfl, h⟩
  | bool value => exact absurd (Option.some.inj h).symm (hwhole _)
  | int value => exact absurd (Option.some.inj h).symm (hwhole _)
  | _ => cases h

/-- What has the magnitude of a floating-point number that is no integer is the number itself. -/
theorem eq_float_of_magnitude? {value : Json} {number : Binary64}
    (h : value.magnitude? = some (.other number)) : value = .float number := by
  cases value with
  | float value => rw [Magnitude.eq_of_ofBinary64_eq_other (Option.some.inj h)]
  | _ => simp [magnitude?] at h

/-- An infinity is the same as itself only. -/
theorem same_infinite_iff {negative : Bool} {right : Json} :
    Same (.float (.infinite negative)) right ↔ right = .float (.infinite negative) := by
  refine (same_number_iff rfl).trans ⟨eq_float_of_magnitude?, ?_⟩
  rintro rfl
  rfl

/-- **Numbers are compared exactly**: a number is the same as what is worth as many units. -/
theorem same_iff_units? {left right : Json} {units : Int} (h : left.units? = some units) :
    Same left right ↔ right.units? = some units := by
  by_cases hwhole : ∃ whole : Int, units = whole * unitsOfOne
  · obtain ⟨whole, rfl⟩ := hwhole
    rw [same_number_iff (magnitude?_eq_whole_iff.mpr h), magnitude?_eq_whole_iff]
  · have hnone : ∀ whole : Int, units ≠ whole * unitsOfOne := fun whole heq => hwhole ⟨whole, heq⟩
    obtain ⟨number, rfl, hunits⟩ := exists_float_of_units? h hnone
    constructor
    · intro hsame
      have hmagnitude := (same_number_iff rfl).mp hsame
      cases hnumber : Magnitude.ofBinary64 number with
      | whole whole =>
          rw [Magnitude.ofBinary64_eq_whole_iff, hunits] at hnumber
          exact absurd (Option.some.inj hnumber) (hnone whole)
      | other other =>
          obtain rfl := Magnitude.eq_of_ofBinary64_eq_other hnumber
          rw [eq_float_of_magnitude? (hmagnitude.trans (congrArg some hnumber))]
          exact hunits
    · intro hright
      obtain ⟨other, rfl, hother⟩ := exists_float_of_units? hright hnone
      have hzero : units ≠ 0 := fun heq => hnone 0 (heq.trans (Int.zero_mul _).symm)
      rw [Binary64.eq_of_units?_eq hunits hother hzero]
      exact (same_equivalentAt _).refl

/-- JSON values compare as what they stand for: numbers and truth values by their worth, lists in order,
and objects regardless of it. -/
structure ComparedByValue (R : Json → Json → Prop) : Prop where
  number : ∀ left right units, left.units? = some units → (R left right ↔ right.units? = some units)
  infinite : ∀ negative right,
    R (.float (.infinite negative)) right ↔ right = .float (.infinite negative)
  null : ∀ right, R .null right ↔ right = .null
  text : ∀ text right, R (.str text) right ↔ right = .str text
  list : ∀ items right, R (.arr items) right ↔ ∃ others, right = .arr others ∧ Forall₂ R items others
  object : ∀ fields right,
    R (.obj fields) right ↔ ∃ others, right = .obj others ∧ Fields.Matches R fields others

theorem same_comparedByValue : ComparedByValue Same where
  number _ _ _ h := same_iff_units? h
  infinite _ _ := same_infinite_iff
  null _ := same_null_iff
  text _ _ := same_str_iff
  list _ _ := same_arr_iff
  object _ _ := same_obj_iff

/-- An integer that would be rounded to a floating-point number is not the same as it. -/
example :
    let power := Json.float (.finite false (2 ^ 52) 1075 (by decide))
    Same (.int (2 ^ 53)) power ∧ ¬ Same (.int (2 ^ 53 + 1)) power := by
  decide

end Json

end Schemata
