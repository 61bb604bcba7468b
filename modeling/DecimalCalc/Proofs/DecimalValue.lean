import DecimalCalc.Decimal.Basic
import DecimalCalc.Decimal.Arithmetic
import DecimalCalc.Proofs.DigitCounts
import Mathlib.Data.Int.Log
import Mathlib.Data.Rat.Floor
import Mathlib.Tactic.FieldSimp
import Mathlib.Tactic.Linarith
import Mathlib.Tactic.NormNum
import Mathlib.Tactic.Positivity

/-!
# The number that a decimal stands for

A decimal has a value in the rational numbers. Signs, sums and products of decimals are those of
their values, and so are the place of the leading digit, the order, the integer part, and whether a
decimal is an integer at all. Each of these is defined by the parts of the decimal, of which the value
leaves open how many zeros stand at the end of the coefficient; so none of them depends on those
zeros. The reduced form has none, and is the same for all decimals of one value
(`Decimal.reduced_eq`).
-/

set_option autoImplicit false

namespace DecimalCalc

/-! ## Powers of ten -/

section PowersOfTen

variable {K : Type} [Field K] [LinearOrder K] [IsStrictOrderedRing K] {d e : Int}

omit [LinearOrder K] [IsStrictOrderedRing K] in
theorem cast_tenPow (n : Nat) : ((tenPow n : Nat) : K) = 10 ^ (n : Int) := by
  rw [tenPow_eq, zpow_natCast, Nat.cast_pow, Nat.cast_ofNat]

omit [LinearOrder K] [IsStrictOrderedRing K] in
theorem cast_tenPow_toNat (h : 0 ≤ e) : ((tenPow e.toNat : Nat) : K) = 10 ^ e := by
  rw [cast_tenPow, Int.toNat_of_nonneg h]

theorem ten_zpow_pos (e : Int) : (0 : K) < 10 ^ e := zpow_pos (by norm_num) e

theorem ten_zpow_add (d e : Int) : (10 : K) ^ (d + e) = 10 ^ d * 10 ^ e :=
  zpow_add₀ (by norm_num) d e

/-- **A multiple of a power of ten** is one of any lower power. -/
theorem cast_scaled (n : Nat) (h : d ≤ e) :
    ((n * tenPow (e - d).toNat : Nat) : K) * 10 ^ d = n * 10 ^ e := by
  rw [Nat.cast_mul, cast_tenPow_toNat (by omega), mul_assoc, ← ten_zpow_add, Int.sub_add_cancel]

theorem ten_zpow_le_iff : (10 : K) ^ d ≤ 10 ^ e ↔ d ≤ e :=
  zpow_le_zpow_iff_right₀ (by norm_num)

theorem ten_zpow_lt_iff : (10 : K) ^ d < 10 ^ e ↔ d < e :=
  zpow_lt_zpow_iff_right₀ (by norm_num)

end PowersOfTen

namespace Decimal

variable {x y : Decimal} {e : Int}

/-! ## Values -/

/-- **The number that a decimal stands for.** -/
def value (x : Decimal) : ℚ := x.signed * 10 ^ x.exponent

theorem abs_signed (x : Decimal) : |(x.signed : ℚ)| = x.coefficient := by
  unfold signed
  split <;> simp

theorem abs_value (x : Decimal) : |x.value| = x.coefficient * 10 ^ x.exponent := by
  rw [value, abs_mul, abs_signed, abs_of_pos (ten_zpow_pos _)]

theorem value_eq_of_abs (hsign : x.negative = y.negative) (h : |x.value| = |y.value|) :
    x.value = y.value := by
  rw [abs_value, abs_value] at h
  unfold value signed
  rw [hsign]
  split
  · push_cast
    rw [neg_mul, neg_mul, h]
  · exact_mod_cast h

theorem value_eq_zero_iff : x.value = 0 ↔ x.isZero = true := by
  rw [← abs_eq_zero, abs_value, mul_eq_zero_iff_right (ten_zpow_pos _).ne']
  simp [isZero]

theorem value_ne_zero_iff : x.value ≠ 0 ↔ x.isZero = false := by
  rw [Ne, value_eq_zero_iff, Bool.not_eq_true]

theorem coefficient_ne_zero (h : x.isZero = false) : x.coefficient ≠ 0 := by
  simpa [isZero] using h

theorem coefficient_eq_zero (h : x.isZero = true) : x.coefficient = 0 := by
  simpa [isZero] using h

theorem isZero_congr (h : x.value = y.value) : x.isZero = y.isZero := by
  rw [Bool.eq_iff_iff, ← value_eq_zero_iff, ← value_eq_zero_iff, h]

/-- A decimal that is not zero has the sign of its value. -/
theorem negative_iff (h : x.isZero = false) : x.negative = true ↔ x.value < 0 := by
  have hcoefficient : (0 : ℚ) < x.coefficient := by
    exact_mod_cast Nat.pos_of_ne_zero (coefficient_ne_zero h)
  have hpos := mul_pos hcoefficient (ten_zpow_pos x.exponent)
  unfold value signed
  by_cases hneg : x.negative = true
  · simp only [hneg, if_true, true_iff]
    push_cast
    linarith
  · simp only [hneg, if_false, Bool.false_eq_true, false_iff, not_lt]
    push_cast
    linarith

theorem pos_iff (h : x.isZero = false) : 0 < x.value ↔ x.negative = false := by
  rw [← Bool.not_eq_true, negative_iff h, not_lt]
  exact ⟨le_of_lt, fun hle => lt_of_le_of_ne hle (value_ne_zero_iff.mpr h).symm⟩

/-- A decimal that is not zero is below zero or above it, as its flag says. -/
theorem sign_cases (h : x.isZero = false) :
    (x.negative = true ∧ x.value < 0) ∨ (x.negative = false ∧ 0 < x.value) := by
  cases hneg : x.negative with
  | true => exact .inl ⟨rfl, (negative_iff h).mp hneg⟩
  | false => exact .inr ⟨rfl, (pos_iff h).mpr hneg⟩

theorem negative_congr (h : x.value = y.value) (hx : x.isZero = false) :
    x.negative = y.negative := by
  have hy : y.isZero = false := by rw [← isZero_congr h, hx]
  rw [Bool.eq_iff_iff, negative_iff hx, negative_iff hy, h]

theorem value_neg (x : Decimal) : x.neg.value = -x.value := by
  unfold value neg signed
  cases x.negative <;> simp

theorem value_magnitude (x : Decimal) : x.magnitude.value = |x.value| := by
  rw [abs_value]
  simp [value, magnitude, signed]

/-- A decimal made of a signed coefficient. -/
theorem value_ofSigned (n e : Int) : value ⟨decide (n < 0), n.natAbs, e⟩ = n * 10 ^ e := by
  unfold value signed
  by_cases h : n < 0
  · have : -((n.natAbs : Nat) : Int) = n := by omega
    simp only [h, decide_true, if_true, this]
  · have : ((n.natAbs : Nat) : Int) = n := by omega
    simp only [h, decide_false, if_false, this, Bool.false_eq_true]

theorem value_ofInt (n : Int) : (ofInt n).value = n := by
  rw [ofInt, value_ofSigned, zpow_zero, mul_one]

theorem value_ofNat (n : Nat) : (ofNat n).value = n := by simp [ofNat, value, signed]

theorem value_zero : zero.value = 0 := by simp [zero, value_ofNat]

theorem value_one : one.value = 1 := by simp [one, value_ofNat]

/-- **The value on a common scale.** -/
theorem scaledTo_mul (h : e ≤ x.exponent) : (x.scaledTo e : ℚ) * 10 ^ e = x.value := by
  have hscale : ((tenPow (x.exponent - e).toNat : Nat) : ℚ) * 10 ^ e = 10 ^ x.exponent := by
    rw [cast_tenPow_toNat (by omega), ← ten_zpow_add, Int.sub_add_cancel]
  unfold scaledTo
  push_cast
  rw [mul_assoc, hscale, value]

theorem abs_scaledTo_mul (h : e ≤ x.exponent) :
    ((x.scaledTo e).natAbs : ℚ) * 10 ^ e = |x.value| := by
  rw [← scaledTo_mul h, abs_mul, abs_of_pos (ten_zpow_pos (K := ℚ) e), Nat.cast_natAbs,
    Int.cast_abs]

/-! ## Sums and products -/

/-- **The exact sum** has the sum of the values. -/
theorem value_exactSum (mode : Rounding) (x y : Decimal) :
    (exactSum mode x y).value = x.value + y.value := by
  have hx := scaledTo_mul (min_le_left x.exponent y.exponent)
  have hy := scaledTo_mul (min_le_right x.exponent y.exponent)
  unfold exactSum
  rw [← hx, ← hy, ← add_mul]
  by_cases h : x.scaledTo (min x.exponent y.exponent) + y.scaledTo (min x.exponent y.exponent) = 0
  · have hcast : ((x.scaledTo (min x.exponent y.exponent) : ℚ) +
        y.scaledTo (min x.exponent y.exponent)) = 0 := by exact_mod_cast h
    simp only [h, if_true, hcast, zero_mul]
    rw [value_eq_zero_iff]
    rfl
  · simp only [h, if_false]
    rw [value_ofSigned]
    push_cast
    rfl

/-- **The exact product** has the product of the values. -/
theorem value_exactProduct (x y : Decimal) :
    (exactProduct x y).value = x.value * y.value := by
  unfold exactProduct value signed
  rw [ten_zpow_add]
  cases x.negative <;> cases y.negative <;> simp <;> ring

/-! ## The leading digit -/

/-- **The leading digit** stands at the place of the highest power of ten in the magnitude. -/
theorem abs_value_bounds (h : x.isZero = false) :
    10 ^ x.adjusted ≤ |x.value| ∧ |x.value| < 10 ^ (x.adjusted + 1) := by
  have hcoefficient := coefficient_ne_zero h
  have hpos := digitCount_pos x.coefficient
  have hle : (10 : ℚ) ^ ((digitCount x.coefficient - 1 : Nat) : Int) ≤ x.coefficient := by
    rw [← cast_tenPow]
    exact_mod_cast tenPow_le_of_ne_zero hcoefficient
  have hlt : (x.coefficient : ℚ) < 10 ^ (digitCount x.coefficient : Int) := by
    rw [← cast_tenPow]
    exact_mod_cast lt_tenPow_digitCount x.coefficient
  have hlow : x.adjusted = ((digitCount x.coefficient - 1 : Nat) : Int) + x.exponent := by
    unfold adjusted digits
    omega
  have hhigh : x.adjusted + 1 = (digitCount x.coefficient : Int) + x.exponent := by
    unfold adjusted digits
    omega
  rw [abs_value, hhigh, hlow, ten_zpow_add, ten_zpow_add]
  exact ⟨mul_le_mul_of_nonneg_right hle (ten_zpow_pos _).le,
    mul_lt_mul_of_pos_right hlt (ten_zpow_pos _)⟩

/-- The leading digit stands at or above a place if the magnitude reaches its power of ten. -/
theorem le_adjusted_iff (h : x.isZero = false) : e ≤ x.adjusted ↔ 10 ^ e ≤ |x.value| := by
  obtain ⟨hle, hlt⟩ := abs_value_bounds h
  constructor
  · exact fun he => (ten_zpow_le_iff.mpr he).trans hle
  · intro he
    have := ten_zpow_lt_iff.mp (he.trans_lt hlt)
    omega

theorem adjusted_lt_iff (h : x.isZero = false) : x.adjusted < e ↔ |x.value| < 10 ^ e := by
  rw [← not_le, ← not_le, le_adjusted_iff h]

/-- A decimal is below every power of ten above its leading digit. -/
theorem abs_value_lt (h : x.adjusted < e) : |x.value| < 10 ^ e := by
  cases hx : x.isZero with
  | true =>
      rw [value_eq_zero_iff.mpr hx, abs_zero]
      exact ten_zpow_pos _
  | false => exact (adjusted_lt_iff hx).mp h

theorem abs_lt_of_adjusted_lt (hy : y.isZero = false) (h : x.adjusted < y.adjusted) :
    |x.value| < |y.value| :=
  (abs_value_lt h).trans_le (abs_value_bounds hy).1

theorem adjusted_congr (h : |x.value| = |y.value|) (hx : x.isZero = false) :
    x.adjusted = y.adjusted := by
  have hy : y.isZero = false := by
    rw [← value_ne_zero_iff, ← abs_ne_zero, ← h, abs_ne_zero, value_ne_zero_iff]
    exact hx
  have hle := (le_adjusted_iff (e := x.adjusted) hy).mpr (h ▸ (abs_value_bounds hx).1)
  have hge := (le_adjusted_iff (e := y.adjusted) hx).mpr (h ▸ (abs_value_bounds hy).1)
  omega

/-! ## The reduced form -/

/-- Zeros at the end of the coefficient do not count. -/
theorem value_of_mul {rest count : Nat} (h : rest * tenPow count = x.coefficient) :
    value ⟨x.negative, rest, x.exponent + count⟩ = x.value := by
  have hcast : (rest : ℚ) * 10 ^ (count : Int) = x.coefficient := by
    rw [← cast_tenPow]
    exact_mod_cast h
  unfold value signed
  dsimp only
  rw [ten_zpow_add]
  cases x.negative
  all_goals
    simp only [Bool.false_eq_true, if_false, if_true]
    push_cast
    rw [← hcast]
    ring

theorem value_reduced (x : Decimal) : x.reduced.value = x.value := by
  unfold reduced
  by_cases h : x.isZero = true
  · rw [if_pos h, value_zero, value_eq_zero_iff.mpr h]
  · rw [if_neg h]
    exact value_of_mul (stripZeros_value x.digits x.coefficient).1

/-- Digits without a zero at the end are the same wherever the value is the same. -/
theorem unique_of_not_dvd {m n : Nat} {d e : Int} (hm : ¬10 ∣ m) (hn : ¬10 ∣ n)
    (h : (m : ℚ) * 10 ^ d = n * 10 ^ e) : m = n ∧ d = e := by
  have hshift : ∀ {m n : Nat} {d e : Int}, ¬10 ∣ m → (m : ℚ) * 10 ^ d = n * 10 ^ e → e ≤ d := by
    intro m n d e hm h
    -- otherwise the digits would end in as many zeros as the exponents differ by
    by_contra hlt
    have hm' : (m : ℚ) = n * 10 ^ (e - d) := by
      have hsplit : (10 : ℚ) ^ e = 10 ^ (e - d) * 10 ^ d := by
        rw [← ten_zpow_add, Int.sub_add_cancel]
      have hne := (ten_zpow_pos (K := ℚ) d).ne'
      rw [hsplit, ← mul_assoc] at h
      exact mul_right_cancel₀ hne h
    have hnat : m = n * tenPow (e - d).toNat := by
      rw [← cast_tenPow_toNat (by omega)] at hm'
      exact_mod_cast hm'
    apply hm
    rw [hnat]
    have hone : 10 ∣ tenPow (e - d).toNat := by
      have := tenPow_dvd (show 1 ≤ (e - d).toNat by omega)
      exact this
    exact hone.mul_left n
  obtain rfl : d = e := le_antisymm (hshift hn h.symm) (hshift hm h)
  exact ⟨by exact_mod_cast mul_right_cancel₀ (ten_zpow_pos d).ne' h, rfl⟩

theorem reduced_of_ne_zero (h : x.isZero = false) : x.reduced =
    ⟨x.negative, (stripZeros x.digits x.coefficient).1,
      x.exponent + (stripZeros x.digits x.coefficient).2⟩ := by
  simp [reduced, h]

/-- **Decimals of one value have one reduced form.** -/
theorem reduced_eq (h : x.value = y.value) : x.reduced = y.reduced := by
  have hzero := isZero_congr h
  cases hx : x.isZero with
  | true =>
      rw [hx] at hzero
      simp [reduced, hx, ← hzero]
  | false =>
      rw [hx] at hzero
      have hten : ∀ {z : Decimal}, z.isZero = false → ¬10 ∣ (stripZeros z.digits z.coefficient).1 :=
        fun hz => not_ten_dvd_stripZeros (coefficient_ne_zero hz) (Nat.le_refl _)
      have hvalue : |x.reduced.value| = |y.reduced.value| := by
        rw [value_reduced, value_reduced, h]
      rw [abs_value, abs_value, reduced_of_ne_zero hx, reduced_of_ne_zero hzero.symm] at hvalue
      dsimp only at hvalue
      obtain ⟨hrest, hexponent⟩ := unique_of_not_dvd (hten hx) (hten hzero.symm) hvalue
      rw [reduced_of_ne_zero hx, reduced_of_ne_zero hzero.symm, hrest, hexponent,
        negative_congr h hx]

/-! ## Order -/

theorem compare_congr {α β : Type} [LinearOrder α] [LinearOrder β] {a b : α} {c d : β}
    (hlt : a < b ↔ c < d) (hgt : b < a ↔ d < c) : Ord.compare a b = Ord.compare c d := by
  rcases lt_trichotomy a b with h | h | h
  · rw [compare_lt_iff_lt.mpr h, compare_lt_iff_lt.mpr (hlt.mp h)]
  · have heq : c = d := by
      refine le_antisymm (not_lt.mp fun hdc => ?_) (not_lt.mp fun hcd => ?_)
      · exact absurd (hgt.mpr hdc) (by simp [h])
      · exact absurd (hlt.mpr hcd) (by simp [h])
    rw [compare_eq_iff_eq.mpr h, compare_eq_iff_eq.mpr heq]
  · rw [compare_gt_iff_gt.mpr h, compare_gt_iff_gt.mpr (hgt.mp h)]

theorem coefficient_pos_iff : 0 < x.coefficient ↔ 0 < |x.value| := by
  rw [abs_value, mul_pos_iff_of_pos_right (ten_zpow_pos _), Nat.cast_pos]

theorem compareMagnitude_eq (x y : Decimal) :
    x.compareMagnitude y = Ord.compare |x.value| |y.value| := by
  unfold compareMagnitude
  cases hx : x.isZero with
  | true =>
      have hvalue : |x.value| = 0 := abs_eq_zero.mpr (value_eq_zero_iff.mpr hx)
      have hcoefficient : x.coefficient = 0 := coefficient_eq_zero hx
      simp only [Bool.true_or, if_true, hvalue, hcoefficient]
      exact compare_congr coefficient_pos_iff (by simp [abs_nonneg])
  | false =>
      cases hy : y.isZero with
      | true =>
          have hvalue : |y.value| = 0 := abs_eq_zero.mpr (value_eq_zero_iff.mpr hy)
          have hcoefficient : y.coefficient = 0 := coefficient_eq_zero hy
          simp only [Bool.or_true, if_true, hvalue, hcoefficient]
          exact compare_congr (by simp [abs_nonneg]) coefficient_pos_iff
      | false =>
          simp only [Bool.or_self, Bool.false_eq_true, if_false]
          by_cases hadjusted : x.adjusted = y.adjusted
          · -- on the smaller exponent both are integers
            rw [if_pos hadjusted]
            have hpos := ten_zpow_pos (K := ℚ) (min x.exponent y.exponent)
            rw [← abs_scaledTo_mul (min_le_left x.exponent y.exponent),
              ← abs_scaledTo_mul (min_le_right x.exponent y.exponent)]
            exact compare_congr (by rw [mul_lt_mul_iff_left₀ hpos, Nat.cast_lt])
              (by rw [mul_lt_mul_iff_left₀ hpos, Nat.cast_lt])
          · rw [if_neg hadjusted]
            rcases lt_or_gt_of_ne hadjusted with hlt | hlt
            · rw [compare_lt_iff_lt.mpr hlt, compare_lt_iff_lt.mpr (abs_lt_of_adjusted_lt hy hlt)]
            · rw [compare_gt_iff_gt.mpr hlt, compare_gt_iff_gt.mpr (abs_lt_of_adjusted_lt hx hlt)]

/-- **Decimals are compared by their values.** -/
theorem compare_eq (x y : Decimal) : x.compare y = Ord.compare x.value y.value := by
  unfold compare
  cases hx : x.isZero with
  | true =>
      have hvalue := value_eq_zero_iff.mpr hx
      cases hy : y.isZero with
      | true => simp [hvalue, value_eq_zero_iff.mpr hy]
      | false =>
          rcases sign_cases hy with ⟨hneg, hlt⟩ | ⟨hneg, hlt⟩
          · simpa [hneg, hvalue] using (compare_gt_iff_gt.mpr hlt).symm
          · simpa [hneg, hvalue] using (compare_lt_iff_lt.mpr hlt).symm
  | false =>
      cases hy : y.isZero with
      | true =>
          have hvalue := value_eq_zero_iff.mpr hy
          rcases sign_cases hx with ⟨hneg, hlt⟩ | ⟨hneg, hlt⟩
          · simpa [hneg, hvalue] using (compare_lt_iff_lt.mpr hlt).symm
          · simpa [hneg, hvalue] using (compare_gt_iff_gt.mpr hlt).symm
      | false =>
          rcases sign_cases hx with ⟨hxneg, hxlt⟩ | ⟨hxneg, hxlt⟩ <;>
            rcases sign_cases hy with ⟨hyneg, hylt⟩ | ⟨hyneg, hylt⟩
          · simp only [hxneg, hyneg, Bool.false_and, Bool.and_false, Bool.not_true,
              Bool.false_eq_true, if_false, if_true, compareMagnitude_eq]
            rw [abs_of_neg hxlt, abs_of_neg hylt]
            exact compare_congr (by rw [neg_lt_neg_iff]) (by rw [neg_lt_neg_iff])
          · simpa [hxneg, hyneg] using (compare_lt_iff_lt.mpr (hxlt.trans hylt)).symm
          · simpa [hxneg, hyneg] using (compare_gt_iff_gt.mpr (hylt.trans hxlt)).symm
          · simp only [hxneg, hyneg, Bool.false_and, Bool.and_false, Bool.not_false,
              Bool.false_eq_true, if_false, compareMagnitude_eq]
            rw [abs_of_pos hxlt, abs_of_pos hylt]

/-! ## Integers -/

theorem value_of_exponent_nonneg (h : 0 ≤ x.exponent) :
    x.value = (x.signed * tenPow x.exponent.toNat : Int) := by
  push_cast
  rw [cast_tenPow_toNat h, value]

theorem abs_value_of_exponent_neg (h : x.exponent < 0) :
    |x.value| = (x.coefficient : ℚ) / tenPow x.exponent.natAbs := by
  rw [abs_value, cast_tenPow, div_eq_mul_inv, ← zpow_neg]
  congr 2
  omega

/-- Digits after the point make no integer unless they are zeros. -/
theorem dvd_coefficient_iff (h : x.exponent < 0) :
    tenPow x.exponent.natAbs ∣ x.coefficient ↔ ∃ n : Int, x.value = n := by
  have hten : ((tenPow x.exponent.natAbs : Nat) : ℚ) ≠ 0 := by exact_mod_cast tenPow_ne_zero _
  have habs := abs_value_of_exponent_neg h
  constructor
  · rintro ⟨q, hq⟩
    rw [hq, Nat.cast_mul, mul_div_cancel_left₀ _ hten] at habs
    rcases abs_choice x.value with hsign | hsign
    · exact ⟨q, by rw [← hsign, habs, Int.cast_natCast]⟩
    · exact ⟨-q, by rw [Int.cast_neg, Int.cast_natCast, ← habs, hsign, neg_neg]⟩
  · rintro ⟨n, hn⟩
    rw [hn, eq_div_iff hten, ← Int.cast_abs, ← Nat.cast_natAbs] at habs
    have hcoefficient : n.natAbs * tenPow x.exponent.natAbs = x.coefficient := by
      exact_mod_cast habs
    exact ⟨n.natAbs, by rw [← hcoefficient, Nat.mul_comm]⟩

/-- An integer that is not zero has a digit before the point. -/
theorem adjusted_nonneg_of_integer (h : x.isZero = false) {n : Int} (hn : x.value = n) :
    0 ≤ x.adjusted := by
  rw [le_adjusted_iff h, zpow_zero, hn, ← Int.cast_abs]
  have hne : n ≠ 0 := by
    rintro rfl
    exact value_ne_zero_iff.mpr h (by simpa using hn)
  exact_mod_cast Int.one_le_abs hne

/-- **A decimal is an integer** as its value is one. -/
theorem isInteger_iff : x.isInteger = true ↔ ∃ n : Int, x.value = n := by
  unfold isInteger
  by_cases hexponent : 0 ≤ x.exponent
  · simp only [hexponent, decide_true, Bool.or_true, Bool.true_or, true_iff]
    exact ⟨_, value_of_exponent_nonneg hexponent⟩
  · cases hzero : x.isZero with
    | true =>
        simp only [Bool.true_or, true_iff]
        exact ⟨0, by simp [value_eq_zero_iff.mpr hzero]⟩
    | false =>
        simp only [hexponent, decide_false, Bool.or_false, Bool.false_or, Bool.and_eq_true,
          decide_eq_true_eq, beq_iff_eq, ← Nat.dvd_iff_mod_eq_zero]
        rw [dvd_coefficient_iff (not_le.mp hexponent)]
        exact and_iff_right_of_imp fun ⟨_, hn⟩ => adjusted_nonneg_of_integer hzero hn

theorem isInteger_congr (h : x.value = y.value) : x.isInteger = y.isInteger := by
  rw [Bool.eq_iff_iff, isInteger_iff, isInteger_iff, h]

/-- The integer part of the magnitude, as the coefficient gives it. -/
theorem floor_abs_value (x : Decimal) :
    ⌊|x.value|⌋ = ((if 0 ≤ x.exponent then x.coefficient * tenPow x.exponent.toNat
      else if x.adjusted < 0 then 0
      else x.coefficient / tenPow x.exponent.natAbs : Nat) : Int) := by
  by_cases hexponent : 0 ≤ x.exponent
  · have hvalue : |x.value| = ((x.coefficient * tenPow x.exponent.toNat : Nat) : ℚ) := by
      push_cast
      rw [abs_value, cast_tenPow_toNat hexponent]
    rw [if_pos hexponent, hvalue, Int.floor_natCast]
  · rw [if_neg hexponent]
    by_cases hsmall : x.adjusted < 0
    · have hlt : |x.value| < 1 := by simpa using abs_value_lt hsmall
      rw [if_pos hsmall]
      exact Int.floor_eq_zero_iff.mpr ⟨abs_nonneg _, hlt⟩
    · rw [if_neg hsmall, abs_value_of_exponent_neg (not_le.mp hexponent),
        ← Rat.natFloor_natCast_div_natCast, Int.natCast_floor_eq_floor]
      positivity

/-- **The integer part** is the value, rounded towards zero. -/
theorem truncate_eq (x : Decimal) :
    x.truncate = if 0 ≤ x.value then ⌊|x.value|⌋ else -⌊|x.value|⌋ := by
  unfold truncate
  dsimp only
  rw [← floor_abs_value]
  cases hzero : x.isZero with
  | true =>
      have hvalue := value_eq_zero_iff.mpr hzero
      simp [hvalue]
  | false =>
      rcases sign_cases hzero with ⟨hneg, hlt⟩ | ⟨hneg, hlt⟩
      · rw [if_pos hneg, if_neg (not_le.mpr hlt)]
      · rw [if_neg (by rw [hneg]; exact Bool.false_ne_true), if_pos hlt.le]

theorem truncate_congr (h : x.value = y.value) : x.truncate = y.truncate := by
  rw [truncate_eq, truncate_eq, h]

end Decimal

end DecimalCalc
