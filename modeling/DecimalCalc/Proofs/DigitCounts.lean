import DecimalCalc.Digits
import Mathlib.Data.Nat.Digits.Lemmas
import Mathlib.Data.Nat.Log
import Mathlib.Tactic.Ring

/-!
# How many digits

The number of digits of `n` is one more than the place of its highest power of ten
(`digitCount_eq`). The search for it starts at a place that is worked out from the binary digits of
`n`; it is never too high, because `10 ^ 8651 ≤ 2 ^ 28738`.

Zeros are taken from the end of a number in blocks of `2 ^ k`, `2 ^ (k - 1)`, and so on. Each block is
tried once, which is enough if fewer than `2 ^ (k + 1)` zeros can go: the blocks that went are the
binary digits of how many zeros there were (`stripZerosFrom_complete`).
-/

set_option autoImplicit false

namespace DecimalCalc

theorem tenPow_eq (n : Nat) : tenPow n = 10 ^ n := rfl

theorem tenPow_ne_zero (n : Nat) : tenPow n ≠ 0 := (tenPow_pos n).ne'

theorem tenPow_le {m n : Nat} (h : m ≤ n) : tenPow m ≤ tenPow n :=
  Nat.pow_le_pow_right (by decide) h

theorem tenPow_lt_iff {m n : Nat} : tenPow m < tenPow n ↔ m < n :=
  Nat.pow_lt_pow_iff_right (by decide)

theorem tenPow_dvd {m n : Nat} (h : m ≤ n) : tenPow m ∣ tenPow n := Nat.pow_dvd_pow 10 h

/-! ## The search -/

section Search

variable {n : Nat}

theorem pow_log2_le {a b : Nat} (hpowers : 10 ^ a ≤ 2 ^ b) (hb : b ≠ 0) (h : n ≠ 0) :
    10 ^ (n.log2 * a / b) ≤ n := by
  have hle : (10 ^ (n.log2 * a / b)) ^ b ≤ n ^ b :=
    calc (10 ^ (n.log2 * a / b)) ^ b
        = 10 ^ (n.log2 * a / b * b) := (Nat.pow_mul ..).symm
      _ ≤ 10 ^ (n.log2 * a) := Nat.pow_le_pow_right (by decide) (Nat.div_mul_le_self _ _)
      _ = (10 ^ a) ^ n.log2 := by rw [Nat.mul_comm, Nat.pow_mul]
      _ ≤ (2 ^ b) ^ n.log2 := Nat.pow_le_pow_left hpowers _
      _ = (2 ^ n.log2) ^ b := by rw [← Nat.pow_mul, Nat.mul_comm, Nat.pow_mul]
      _ ≤ n ^ b := Nat.pow_le_pow_left (Nat.log2_self_le h) _
  exact (Nat.pow_le_pow_iff_left hb).mp hle

/-- The search starts at no place above the highest one. -/
theorem tenPow_start_le (h : n ≠ 0) : tenPow (n.log2 * 8651 / 28738) ≤ n :=
  pow_log2_le (by decide +kernel) (by decide) h

/-- The search answers the first power above `n`, if it gets that far. -/
theorem digitCountFrom_spec (fuel : Nat) : ∀ k, tenPow k ≤ n → n < tenPow (k + 1 + fuel) →
    ∃ place, digitCountFrom n fuel (k + 1) (tenPow (k + 1)) = place + 1 ∧
      tenPow place ≤ n ∧ n < tenPow (place + 1) := by
  induction fuel with
  | zero => exact fun k hle hlt => ⟨k, rfl, hle, hlt⟩
  | succ fuel ih =>
      intro k hle hlt
      unfold digitCountFrom
      by_cases habove : n < tenPow (k + 1)
      · exact ⟨k, if_pos habove, hle, habove⟩
      · rw [if_neg habove, ← tenPow_succ]
        refine ih (k + 1) (by omega) ?_
        rwa [show k + 1 + 1 + fuel = k + 1 + (fuel + 1) by omega]

/-- **The number of digits** is one more than the logarithm, rounded down. -/
theorem digitCount_eq (n : Nat) : digitCount n = Nat.log 10 n + 1 := by
  by_cases hzero : n = 0
  · subst hzero
    decide
  · have hstart := tenPow_start_le hzero
    have hfar : n < tenPow (n.log2 * 8651 / 28738 + 1 + (n.log2 + 1)) :=
      calc n < 2 ^ (n.log2 + 1) := Nat.lt_log2_self
        _ ≤ 10 ^ (n.log2 + 1) := Nat.pow_le_pow_left (by decide) _
        _ ≤ tenPow (n.log2 * 8651 / 28738 + 1 + (n.log2 + 1)) := tenPow_le (by omega)
    obtain ⟨place, hcount, hle, hlt⟩ := digitCountFrom_spec (n.log2 + 1) _ hstart hfar
    have hlog : Nat.log 10 n = place := Nat.log_eq_of_pow_le_of_lt_pow hle hlt
    rw [hlog]
    exact hcount

end Search

/-! ## Its bounds -/

section Bounds

variable {m n k : Nat}

theorem digitCount_pos (n : Nat) : 0 < digitCount n := by
  rw [digitCount_eq]
  omega

theorem digitCount_zero : digitCount 0 = 1 := by decide

theorem lt_tenPow_digitCount (n : Nat) : n < tenPow (digitCount n) := by
  rw [digitCount_eq]
  exact Nat.lt_pow_succ_log_self (by decide) n

theorem tenPow_le_of_ne_zero (h : n ≠ 0) : tenPow (digitCount n - 1) ≤ n := by
  rw [digitCount_eq]
  exact Nat.pow_log_le_self 10 h

/-- **A number has at most `k` digits** if it is below the power of ten with that exponent. -/
theorem digitCount_le_iff (hk : 0 < k) : digitCount n ≤ k ↔ n < tenPow k := by
  constructor
  · intro h
    exact (lt_tenPow_digitCount n).trans_le (tenPow_le h)
  · intro h
    by_contra hmore
    by_cases hzero : n = 0
    · subst hzero
      rw [digitCount_zero] at hmore
      omega
    · have hle : tenPow k ≤ tenPow (digitCount n - 1) := tenPow_le (by omega)
      have := tenPow_le_of_ne_zero hzero
      omega

theorem lt_digitCount_iff (hk : 0 < k) : k < digitCount n ↔ tenPow k ≤ n := by
  have := digitCount_le_iff (n := n) hk
  omega

theorem digitCount_eq_of_le_of_lt (hle : tenPow k ≤ n) (hlt : n < tenPow (k + 1)) :
    digitCount n = k + 1 := by
  rw [digitCount_eq, Nat.log_eq_of_pow_le_of_lt_pow hle hlt]

theorem digitCount_tenPow (k : Nat) : digitCount (tenPow k) = k + 1 :=
  digitCount_eq_of_le_of_lt (Nat.le_refl _) (tenPow_lt_iff.mpr (Nat.lt_succ_self k))

/-- Each zero at the end is one digit more. -/
theorem digitCount_mul_tenPow (h : n ≠ 0) (k : Nat) :
    digitCount (n * tenPow k) = digitCount n + k := by
  have hpos := digitCount_pos n
  have hle : tenPow (digitCount n - 1 + k) ≤ n * tenPow k := by
    rw [tenPow_add]
    exact Nat.mul_le_mul_right _ (tenPow_le_of_ne_zero h)
  have hlt : n * tenPow k < tenPow (digitCount n - 1 + k + 1) := by
    rw [show digitCount n - 1 + k + 1 = digitCount n + k by omega, tenPow_add]
    exact Nat.mul_lt_mul_of_pos_right (lt_tenPow_digitCount n) (tenPow_pos k)
  rw [digitCount_eq_of_le_of_lt hle hlt]
  omega

end Bounds

/-! ## Zeros at the end -/

section Zeros

variable {n : Nat}

/-- What is left and the zeros that went make up the number. -/
theorem stripZerosFrom_value (k : Nat) : ∀ limit n : Nat,
    (stripZerosFrom k limit n).1 * tenPow (stripZerosFrom k limit n).2 = n ∧
      (stripZerosFrom k limit n).2 ≤ limit := by
  induction k with
  | zero =>
      intro limit n
      unfold stripZerosFrom
      by_cases h : 1 ≤ limit ∧ n % 10 = 0
      · rw [if_pos h]
        exact ⟨Nat.div_mul_cancel (Nat.dvd_of_mod_eq_zero h.2), h.1⟩
      · rw [if_neg h]
        exact ⟨Nat.mul_one n, Nat.zero_le limit⟩
  | succ k ih =>
      intro limit n
      unfold stripZerosFrom
      by_cases h : 1 <<< (k + 1) ≤ limit ∧ n % tenPow (1 <<< (k + 1)) = 0
      · obtain ⟨hvalue, hle⟩ := ih (limit - 1 <<< (k + 1)) (n / tenPow (1 <<< (k + 1)))
        simp only [h, and_self, if_true]
        refine ⟨?_, by omega⟩
        rw [tenPow_add, ← Nat.mul_assoc, hvalue]
        exact Nat.div_mul_cancel (Nat.dvd_of_mod_eq_zero h.2)
      · simp only [h, if_false]
        exact ih limit n

/-- Zeros that a quotient ends in are zeros of the number before those that went. -/
theorem tenPow_add_dvd {a b : Nat} (ha : tenPow a ∣ n) (hb : tenPow b ∣ n / tenPow a) :
    tenPow (a + b) ∣ n := by
  rw [tenPow_add, ← Nat.mul_div_cancel' ha]
  exact Nat.mul_dvd_mul_left _ hb

/-- **No zero is left** that could have gone, if no more than the blocks hold can go. -/
theorem stripZerosFrom_complete (k : Nat) : ∀ limit n : Nat,
    (limit < 2 ^ (k + 1) ∨ ¬tenPow (2 ^ (k + 1)) ∣ n) →
      (stripZerosFrom k limit n).2 = limit ∨ ¬10 ∣ (stripZerosFrom k limit n).1 := by
  induction k with
  | zero =>
      intro limit n hroom
      unfold stripZerosFrom
      by_cases h : 1 ≤ limit ∧ n % 10 = 0
      · rw [if_pos h]
        rcases hroom with hlimit | hzeros
        · have : limit < 2 := hlimit
          exact .inl (by omega)
        · exact .inr fun hdvd =>
            hzeros (tenPow_add_dvd (a := 1) (b := 1) (Nat.dvd_of_mod_eq_zero h.2) hdvd)
      · rw [if_neg h]
        by_cases hlimit : limit = 0
        · exact .inl hlimit.symm
        · exact .inr fun hdvd => h ⟨by omega, Nat.mod_eq_zero_of_dvd hdvd⟩
  | succ k ih =>
      intro limit n hroom
      have hstep : 1 <<< (k + 1) = 2 ^ (k + 1) := Nat.one_shiftLeft _
      have hdouble : 2 ^ (k + 1 + 1) = 2 ^ (k + 1) + 2 ^ (k + 1) := by
        rw [Nat.pow_succ]
        omega
      unfold stripZerosFrom
      rw [hstep]
      by_cases h : 2 ^ (k + 1) ≤ limit ∧ n % tenPow (2 ^ (k + 1)) = 0
      · simp only [h, and_self, if_true]
        -- once a block is gone there are too few places, or too few zeros, for another one like it
        have hrest : limit - 2 ^ (k + 1) < 2 ^ (k + 1) ∨
            ¬tenPow (2 ^ (k + 1)) ∣ n / tenPow (2 ^ (k + 1)) := by
          rcases hroom with hlimit | hzeros
          · exact .inl (by omega)
          · refine .inr fun hdvd => hzeros ?_
            rw [hdouble]
            exact tenPow_add_dvd (Nat.dvd_of_mod_eq_zero h.2) hdvd
        rcases ih _ _ hrest with hcount | hten
        · exact .inl (by omega)
        · exact .inr hten
      · simp only [h, if_false]
        refine ih limit n ?_
        by_cases hlimit : 2 ^ (k + 1) ≤ limit
        · exact .inr fun hdvd => h ⟨hlimit, Nat.mod_eq_zero_of_dvd hdvd⟩
        · exact .inl (by omega)

theorem stripZeros_value (limit n : Nat) :
    (stripZeros limit n).1 * tenPow (stripZeros limit n).2 = n ∧
      (stripZeros limit n).2 ≤ limit := by
  unfold stripZeros
  by_cases hzero : n = 0
  · simp [hzero]
  · rw [if_neg hzero]
    exact stripZerosFrom_value _ limit n

/-- Zeros go until the limit is reached or another digit stands at the end. -/
theorem stripZeros_complete (limit : Nat) (h : n ≠ 0) :
    (stripZeros limit n).2 = limit ∨ ¬10 ∣ (stripZeros limit n).1 := by
  unfold stripZeros
  rw [if_neg h]
  refine stripZerosFrom_complete _ limit n (.inr fun hdvd => ?_)
  have hle : tenPow (2 ^ ((digitCount n).log2 + 1)) ≤ n := Nat.le_of_dvd (by omega) hdvd
  have hlt : n < tenPow (2 ^ ((digitCount n).log2 + 1)) :=
    (lt_tenPow_digitCount n).trans_le (tenPow_le Nat.lt_log2_self.le)
  omega

theorem stripZeros_ne_zero (limit : Nat) (h : n ≠ 0) : (stripZeros limit n).1 ≠ 0 := by
  intro hzero
  have hvalue := (stripZeros_value limit n).1
  rw [hzero, Nat.zero_mul] at hvalue
  exact h hvalue.symm

/-- All zeros go if the limit is not below the number of digits. -/
theorem not_ten_dvd_stripZeros {limit : Nat} (h : n ≠ 0) (hlimit : digitCount n ≤ limit) :
    ¬10 ∣ (stripZeros limit n).1 := by
  obtain ⟨hvalue, _⟩ := stripZeros_value limit n
  rcases stripZeros_complete limit h with hcount | hten
  · -- as many zeros as digits would leave nothing
    have hrest := stripZeros_ne_zero limit h
    have hdigits := digitCount_mul_tenPow hrest (stripZeros limit n).2
    have hpos := digitCount_pos (stripZeros limit n).1
    rw [hvalue] at hdigits
    omega
  · exact hten

end Zeros

end DecimalCalc
