import Schemata.Json.Grammar
import Schemata.Json.Writer

/-!
# Written numbers

Every number that has digits is written as the grammar asks: no zeros lead its whole part, and there is a
digit on each side of a point and behind the letter of a power.

* **decimals** — the digits of a natural that is not zero begin with none (`Text.isPositive_decimal`);
* **the search** — the decimal that is written for a number other than zero is not zero itself
  (`Binary64.shortest_digits_ne_zero`), since a number that large does not round to zero;
* **layout** — with and without a power, digits that do not begin with zero make a number
  (`Decimal.isNumber_layout`).
-/

namespace Schemata

open Json

namespace Json

theorem areDigits_nil : AreDigits [] := by
  intro c hc
  exact absurd hc List.not_mem_nil

theorem AreDigits.append {left right : Text} (hleft : AreDigits left) (hright : AreDigits right) :
    AreDigits (left ++ right) := by
  intro c hc
  rcases List.mem_append.mp hc with h | h
  · exact hleft c h
  · exact hright c h

theorem IsPositive.areDigits {text : Text} (h : IsPositive text) : AreDigits text := by
  cases h with
  | digits hfirst _ hrest => exact List.forall_mem_cons.mpr ⟨hfirst, hrest⟩

theorem IsPositive.ne_nil {text : Text} (h : IsPositive text) : text ≠ [] := by
  cases h with
  | digits => exact List.cons_ne_nil _ _

/-- More digits behind change nothing at the front. -/
theorem IsPositive.append {text digits : Text} (h : IsPositive text) (hdigits : AreDigits digits) :
    IsPositive (text ++ digits) := by
  cases h with
  | digits hfirst hzero hrest => exact .digits hfirst hzero (hrest.append hdigits)

theorem IsWhole.areDigits {text : Text} (h : IsWhole text) : AreDigits text := by
  cases h with
  | zero => exact List.forall_mem_singleton.mpr rfl
  | positive h => exact h.areDigits

theorem IsWhole.ne_nil {text : Text} (h : IsWhole text) : text ≠ [] := by
  cases h with
  | zero => exact List.cons_ne_nil _ _
  | positive h => exact h.ne_nil

/-- A whole part without more is a number. -/
theorem IsWhole.isNumber {sign whole : Text} (hsign : sign ∈ (["", "-"] : List Text))
    (h : IsWhole whole) : IsNumber (sign ++ whole) := by
  have hparts := IsNumber.parts hsign h .none .none
  rwa [List.append_nil, List.append_nil] at hparts

end Json

/-! ## Decimals -/

namespace Text

theorem isSome_digit?_ofDigit {d : Nat} (h : d < 10) : (CodePoint.ofDigit d).digit?.isSome = true := by
  rw [CodePoint.digit?_ofDigit h]
  rfl

theorem isPositive_decimal {n : Nat} (h : n ≠ 0) : IsPositive (decimal n) := by
  induction n using Nat.strongRecOn with
  | ind n ih =>
      rw [decimal_eq]
      split
      · next hsmall =>
        refine .digits (isSome_digit?_ofDigit hsmall) ?_ areDigits_nil
        intro hzero
        have hdigit : (CodePoint.ofDigit n).digit? = some 0 := by
          rw [hzero]
          rfl
        rw [CodePoint.digit?_ofDigit hsmall] at hdigit
        exact h (Option.some.inj hdigit)
      · next hlarge =>
        have hlast : AreDigits [CodePoint.ofDigit (n % 10)] :=
          List.forall_mem_singleton.mpr (isSome_digit?_ofDigit (Nat.mod_lt n (by decide)))
        exact (ih (n / 10) (by omega) (by omega)).append hlast

theorem isWhole_decimal (n : Nat) : IsWhole (decimal n) := by
  by_cases h : n = 0
  · subst h
    exact .zero
  · exact .positive (isPositive_decimal h)

theorem isNumber_ofInt (value : Int) : IsNumber (ofInt value) := by
  cases value with
  | ofNat n => exact (isWhole_decimal n).isNumber (List.mem_cons_self)
  | negSucc n =>
      have hsign : ("-" : Text) ∈ (["", "-"] : List Text) := by simp
      exact (isWhole_decimal (n + 1)).isNumber hsign

end Text

/-! ## The search -/

namespace Decimal

theorem stripZeros_digits_ne_zero {d : Decimal} (h : d.digits ≠ 0) : d.stripZeros.digits ≠ 0 := by
  induction d using stripZeros.induct with
  | case1 d hdone =>
      rw [stripZeros, if_pos hdone]
      exact h
  | case2 d hmore ih =>
      rw [stripZeros, if_neg hmore]
      apply ih
      show d.digits / 10 ≠ 0
      omega

end Decimal

namespace Binary64

variable {mantissa exponent : Nat}

theorem power_ne_zero {base : Nat} (h : base ≠ 0) (n : Nat) : Nat.pow base n ≠ 0 :=
  Nat.ne_of_gt (Nat.pow_pos (Nat.pos_of_ne_zero h))

/-- Zero does not round to a number that is larger. -/
theorem readsBack_zero (h : mantissa ≠ 0) (exponent : Nat) : readsBack mantissa exponent 0 = false := by
  have hscale : Nat.pow 2 exponent * Nat.pow 10 decimalPlaces ≠ 0 :=
    Nat.mul_ne_zero (power_ne_zero (by decide) _) (power_ne_zero (by decide) _)
  -- the lower end of the range is not reached
  have hpositive : ∀ below, below ≤ 2 →
      0 < (4 * mantissa - below) * (Nat.pow 2 exponent * Nat.pow 10 decimalPlaces) := by
    intro below hbelow
    exact Nat.mul_pos (by omega) (Nat.pos_of_ne_zero hscale)
  have hbelow : (if mantissa = Nat.pow 2 52 ∧ 0 < exponent then 1 else 2) ≤ 2 := by
    split <;> decide
  have hlow := hpositive _ hbelow
  unfold readsBack
  dsimp only
  rw [Nat.mul_zero, decide_eq_false (Nat.not_le_of_gt hlow), decide_eq_false (Nat.not_lt_zero _)]
  split <;> rfl

/-- What is picked passes the test. -/
theorem good_of_pickNeighbour {good : Nat → Bool} {value grid found : Nat}
    (h : pickNeighbour good value grid = some found) : good (found * grid) = true := by
  unfold pickNeighbour at h
  dsimp only at h
  split at h
  · next hbelow habove =>
    split at h
    · exact Option.some.inj h ▸ hbelow
    · split at h
      · exact Option.some.inj h ▸ habove
      · split at h
        · exact Option.some.inj h ▸ hbelow
        · exact Option.some.inj h ▸ habove
  · next hbelow _ => exact Option.some.inj h ▸ hbelow
  · next _ habove => exact Option.some.inj h ▸ habove
  · cases h

/-- **A number other than zero is not written as zero.** -/
theorem shortest_digits_ne_zero (h : mantissa ≠ 0) (exponent : Nat) :
    (shortest mantissa exponent).digits ≠ 0 := by
  unfold shortest
  dsimp only
  split
  · next d hfound =>
    apply Decimal.stripZeros_digits_ne_zero
    obtain ⟨count, -, hcount⟩ := List.exists_of_findSome?_eq_some hfound
    obtain ⟨digits, hdigits, rfl⟩ := Option.map_eq_some_iff.mp hcount
    have hgood := good_of_pickNeighbour hdigits
    rintro rfl
    rw [Nat.zero_mul, readsBack_zero h] at hgood
    cases hgood
  · apply Decimal.stripZeros_digits_ne_zero
    have hexact : ∀ n, mantissa * Nat.pow 2 exponent * Nat.pow 5 n ≠ 0 := by
      intro n
      have htwos : mantissa * Nat.pow 2 exponent ≠ 0 :=
        Nat.mul_ne_zero h (power_ne_zero (by decide) exponent)
      exact Nat.mul_ne_zero htwos (power_ne_zero (by decide) n)
    exact hexact 1074

end Binary64

/-! ## Layout -/

namespace Decimal

theorem areDigits_zeros (n : Nat) : AreDigits (zeros n) := by
  intro c hc
  rw [List.eq_of_mem_replicate hc]
  rfl

theorem isPower_exponentPart (power : Int) : IsPower ("e" ++ exponentPart power) := by
  have hsign : Text.ofString (if power < 0 then "-" else "+") ∈ (["", "-", "+"] : List Text) := by
    split <;> simp
  have hdigits : AreDigits (zeros (2 - (Text.decimal power.natAbs).length) ++ Text.decimal power.natAbs) :=
    (areDigits_zeros _).append (Text.isWhole_decimal _).areDigits
  unfold exponentPart
  dsimp only
  rw [List.append_assoc]
  exact .some List.mem_cons_self hsign
    (List.append_ne_nil_of_right_ne_nil _ (Text.decimal_ne_nil _)) hdigits

section

variable {sign : Text} (hsign : sign ∈ (["", "-"] : List Text))

include hsign

theorem isNumber_positional {digits : Text} (h : IsPositive digits) (point : Int) :
    IsNumber (sign ++ positional digits point) := by
  unfold positional
  split
  · -- the point stands before all digits
    have hfraction : IsFraction ("." ++ (zeros (-point).toNat ++ digits)) :=
      .some (List.append_ne_nil_of_right_ne_nil _ h.ne_nil) ((areDigits_zeros _).append h.areDigits)
    have hnumber := IsNumber.parts hsign .zero hfraction .none
    rw [List.append_nil] at hnumber
    rw [List.append_assoc]
    exact hnumber
  · split
    · -- behind them
      have hwhole : IsWhole (digits ++ zeros (point.toNat - digits.length)) :=
        .positive (h.append (areDigits_zeros _))
      have hfraction : IsFraction ".0" := .some (List.cons_ne_nil _ _) (areDigits_zeros 1)
      have hnumber := IsNumber.parts hsign hwhole hfraction .none
      rw [List.append_nil] at hnumber
      exact hnumber
    · -- or among them
      next hlength =>
      have hpoint : 0 < point.toNat := by omega
      have hwhole : IsWhole (digits.take point.toNat) := by
        cases h with
        | digits hfirst hzero hrest =>
            obtain ⟨before, hbefore⟩ : ∃ before, point.toNat = before + 1 := ⟨point.toNat - 1, by omega⟩
            rw [hbefore, List.take_succ_cons]
            exact .positive (.digits hfirst hzero fun c hc => hrest c (List.mem_of_mem_take hc))
      have hbehind : digits.drop point.toNat ≠ [] := by
        rw [Ne, List.drop_eq_nil_iff]
        exact hlength
      have hfraction : IsFraction ("." ++ digits.drop point.toNat) :=
        .some hbehind fun c hc => h.areDigits c (List.mem_of_mem_drop hc)
      have hnumber := IsNumber.parts hsign hwhole hfraction .none
      rw [List.append_nil] at hnumber
      rw [List.append_assoc]
      exact hnumber

theorem isNumber_scientific {digits : Text} (h : IsPositive digits) (power : Int) :
    IsNumber (sign ++ scientific digits power) := by
  have hpower := isPower_exponentPart power
  cases h with
  | @digits first rest hfirst hzero hrest =>
      have hwhole : IsWhole [first] := .positive (.digits hfirst hzero areDigits_nil)
      cases rest with
      | nil =>
          have hnumber := IsNumber.parts hsign hwhole .none hpower
          exact hnumber
      | cons second others =>
          have hfraction : IsFraction ("." ++ second :: others) := .some (List.cons_ne_nil _ _) hrest
          have hnumber := IsNumber.parts hsign hwhole hfraction hpower
          unfold scientific
          rw [List.append_assoc]
          exact hnumber

theorem isNumber_layout {d : Decimal} (h : d.digits ≠ 0) : IsNumber (sign ++ d.layout) := by
  have hdigits := Text.isPositive_decimal h
  unfold layout
  dsimp only
  split
  · exact isNumber_positional hsign hdigits _
  · exact isNumber_scientific hsign hdigits _

end

end Decimal

namespace Binary64

/-- Whether the value has digits. -/
def isFinite : Binary64 → Bool
  | .finite _ _ _ _ => true
  | _ => false

/-- **Every value that has digits is written as a number.** -/
theorem isNumber_write {value : Binary64} (h : value.isFinite = true) :
    IsNumber (value.write .json) := by
  cases value with
  | nan => cases h
  | infinite negative => cases h
  | finite negative mantissa exponent canonical =>
      have hsign : Text.ofString (if negative then "-" else "") ∈ (["", "-"] : List Text) := by
        split <;> simp
      unfold write
      dsimp only
      by_cases hmantissa : mantissa = 0
      · rw [if_pos hmantissa]
        have hfraction : IsFraction ".0" := .some (List.cons_ne_nil _ _) (Decimal.areDigits_zeros 1)
        exact .parts hsign .zero hfraction .none
      · rw [if_neg hmantissa]
        exact Decimal.isNumber_layout hsign (shortest_digits_ne_zero hmantissa exponent)

end Binary64

end Schemata
