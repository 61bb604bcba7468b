import DecimalCalc.Proofs.Outcome
import DecimalCalc.Proofs.RoundingRule

/-!
# Decimals that fit a format

A decimal fits a format if it has no more digits than the precision allows, and its first and last
digit stand at places in range. What is rounded to a format fits it (`Decimal.round_gives`), and what
fits is not changed by rounding (`Decimal.round_of_fits`).

Rounding overflows only above the largest number of the format. So nothing overflows that is at most
as large as something that fits (`Decimal.round_ok`).
-/

set_option autoImplicit false

namespace DecimalCalc

namespace Decimal

variable {f : Format} {x y : Decimal}

/-- **A decimal that fits a format.** -/
structure Fits (f : Format) (x : Decimal) : Prop where
  digits : x.digits ≤ f.precision
  highest : x.adjusted ≤ Format.maxExponent
  lowest : f.tiny ≤ x.exponent

instance : Decidable (x.Fits f) :=
  decidable_of_iff (x.digits ≤ f.precision ∧ x.adjusted ≤ Format.maxExponent ∧ f.tiny ≤ x.exponent)
    ⟨fun h => ⟨h.1, h.2.1, h.2.2⟩, fun h => ⟨h.digits, h.highest, h.lowest⟩⟩

theorem Fits.neg (h : x.Fits f) : x.neg.Fits f := ⟨h.digits, h.highest, h.lowest⟩

/-- The rounding mode of the format does not matter. -/
theorem Fits.of_precision {g : Format} (h : x.Fits g) (heq : g.precision = f.precision) :
    x.Fits f := by
  refine ⟨heq ▸ h.digits, h.highest, ?_⟩
  have hlowest := h.lowest
  unfold Format.tiny at hlowest ⊢
  omega

theorem fits_small {negative : Bool} {n : Nat} {e : Int} (hn : digitCount n ≤ f.precision)
    (he : e ≤ 0) (hlow : -999998 - (f.precision : Int) ≤ e) (hsmall : n < 10) :
    Fits f ⟨negative, n, e⟩ := by
  have hone : digitCount n ≤ 1 := (digitCount_le_iff (by decide)).mpr hsmall
  refine ⟨hn, ?_, ?_⟩
  · unfold adjusted digits Format.maxExponent
    dsimp only
    omega
  · unfold Format.tiny Format.minExponent
    dsimp only
    omega

/-! ## What rounding answers -/

/-- What is kept of a decimal has no more digits than the precision, and none below the lowest
place. -/
theorem kept_digits (hp : 0 < f.precision) (h : x.isZero = false) :
    (x.kept f).digits ≤ f.precision ∧ f.tiny ≤ (x.kept f).exponent := by
  have hunit := unit_value (K := ℚ) (f := f) h
  have htiny : f.tiny ≤ f.unit |((x.value : ℚ) : ℚ)| := le_max_right _ _
  have hround := roundAt_eq (K := ℚ) f.rounding h (u := f.unit |((x.value : ℚ) : ℚ)|)
  have hle := nearest_le_tenPow (K := ℚ) (f := f) h
  generalize f.unit |((x.value : ℚ) : ℚ)| = unit at hunit htiny hround hle
  unfold kept
  dsimp only
  rw [hunit]
  by_cases hu : unit ≤ x.exponent
  · rw [if_pos hu]
    omega
  · rw [if_neg hu, hround (by omega)]
    generalize f.rounding.nearest x.negative (|((x.value : ℚ) : ℚ)| / 10 ^ unit) = q at hle ⊢
    by_cases hmore : f.precision < digits ⟨x.negative, q, unit⟩
    · -- a digit more than there is room for: that is a power of ten, which loses a zero
      have hge : tenPow f.precision ≤ q := (lt_digitCount_iff hp).mp hmore
      obtain rfl : q = tenPow f.precision := le_antisymm hle hge
      have hten : tenPow f.precision / 10 = tenPow (f.precision - 1) := by
        rw [show f.precision = f.precision - 1 + 1 by omega, tenPow_succ,
          Nat.mul_div_cancel _ (by decide), Nat.add_sub_cancel]
      rw [if_pos hmore]
      refine ⟨?_, by dsimp only; omega⟩
      show digitCount (tenPow f.precision / 10) ≤ f.precision
      rw [hten, digitCount_tenPow]
      omega
    · rw [if_neg hmore]
      exact ⟨Nat.le_of_not_lt hmore, htiny⟩

/-- **What is rounded to a format fits it.** -/
theorem round_gives (hp : 0 < f.precision) (x : Decimal) : (x.round f).Gives (Fits f) := by
  cases hx : x.isZero with
  | true =>
      have hcoefficient : x.coefficient = 0 := coefficient_eq_zero hx
      have hone : digitCount x.coefficient = 1 := by rw [hcoefficient, digitCount_zero]
      -- of a zero only the exponent is moved
      have htiny := f.tiny_le_maxExponent
      unfold round
      rw [if_pos hx]
      refine Except.gives_ok ⟨?_, ?_, ?_⟩
      · show digitCount x.coefficient ≤ f.precision
        omega
      · unfold adjusted digits
        dsimp only
        omega
      · dsimp only
        omega
  | false =>
      obtain ⟨hdigits, hlowest⟩ := kept_digits hp hx
      rw [round_of_ne_zero hx]
      by_cases hover : Format.maxExponent < (x.kept f).adjusted
      · rw [if_pos hover]
        exact Except.gives_error _
      · rw [if_neg hover]
        exact Except.gives_ok ⟨hdigits, by omega, hlowest⟩

/-- No digit is dropped where the precision and the places below allow for all of them. -/
theorem round_of_room (hdigits : x.digits ≤ f.precision) (hlowest : f.tiny ≤ x.exponent)
    (hx : x.isZero = false) :
    x.round f = if Format.maxExponent < x.adjusted then .error .overflow else .ok x := by
  have hkept : x.kept f = x := by
    unfold kept
    rw [if_pos (by omega)]
  rw [round_of_ne_zero hx, hkept]

/-- **What fits a format is not rounded**, unless it is a zero. -/
theorem round_of_fits (h : x.Fits f) (hx : x.isZero = false) : x.round f = .ok x := by
  have hhighest := h.highest
  rw [round_of_room h.digits h.lowest hx, if_neg (by omega)]

/-- A decimal is put on a place by rounding it there, if the digits down to there fit the format. -/
theorem quantize_eq {unit : Int} (htiny : f.tiny ≤ unit) (hunit : unit ≤ Format.maxExponent)
    (hx : x.isZero = true ∨ x.adjusted ≤ Format.maxExponent)
    (hfits : (x.roundAt f.rounding unit).isZero = false → (x.roundAt f.rounding unit).Fits f) :
    quantize f x unit = (x.roundAt f.rounding unit).round f := by
  have hlimit : ¬(!x.isZero && decide (Format.maxExponent < x.adjusted)) = true := by
    rcases hx with hx | hx <;> simp [hx]
  rw [quantize, if_neg (by omega), if_neg hlimit]
  dsimp only
  cases hy : (x.roundAt f.rounding unit).isZero with
  | true => exact if_pos rfl
  | false =>
      obtain ⟨hdigits, hhighest, -⟩ := hfits hy
      rw [if_neg (by decide), if_neg (by omega)]

theorem exponent_roundAt (mode : Rounding) (x : Decimal) (unit : Int) :
    (x.roundAt mode unit).exponent = unit := by
  unfold roundAt
  split <;> rfl

theorem roundAt_of_le (mode : Rounding) {unit : Int} (h : unit ≤ x.exponent) :
    x.roundAt mode unit =
      ⟨x.negative, x.coefficient * tenPow (x.exponent - unit).toNat, unit⟩ := by
  rw [roundAt, if_pos h]
  cases hx : x.isZero with
  | true =>
      have hcoefficient : x.coefficient = 0 := coefficient_eq_zero hx
      simp [hcoefficient]
  | false => rfl

/-- A decimal that is a multiple of a unit is not changed when its last digit is put there. -/
theorem value_roundAt (mode : Rounding) {unit : Int} {n : Nat} (h : |x.value| = n * 10 ^ unit) :
    (x.roundAt mode unit).value = x.value := by
  have hsign : (x.roundAt mode unit).negative = x.negative := by
    unfold roundAt
    split <;> rfl
  refine value_eq_of_abs hsign ?_
  by_cases hunit : unit ≤ x.exponent
  · rw [roundAt_of_le mode hunit, abs_value, abs_value, cast_scaled _ hunit]
  · cases hx : x.isZero with
    | true =>
        have hcoefficient : x.coefficient = 0 := coefficient_eq_zero hx
        rw [roundAt, if_neg hunit, abs_value, abs_value, hcoefficient]
        simp [Rounding.divide]
    | false =>
        rw [roundAt_eq (K := ℚ) mode hx (by omega), Rat.cast_id, h,
          mul_div_cancel_right₀ _ (ten_zpow_pos _).ne', Rounding.nearest_natCast, abs_value]

theorem round_zero (f : Format) (h : x.isZero = true) :
    ∃ y, x.round f = .ok y ∧ y.isZero = true := by
  unfold round
  rw [if_pos h]
  exact ⟨_, rfl, h⟩

/-! ## The largest number -/

/-- The magnitude of what fits is at most the largest number of the format. -/
theorem abs_value_le (hdigits : x.digits ≤ f.precision)
    (hhighest : x.adjusted ≤ Format.maxExponent) :
    |x.value| ≤ ((tenPow f.precision - 1 : Nat) : ℚ) *
      10 ^ (Format.maxExponent + 1 - f.precision) := by
  generalize Format.maxExponent = highest at hhighest ⊢
  have hlt : x.coefficient < tenPow x.digits := lt_tenPow_digitCount _
  have hone : ((tenPow f.precision - 1 : Nat) : ℚ) = 10 ^ (f.precision : Int) - 1 := by
    rw [Nat.cast_sub (tenPow_pos _), cast_tenPow, Nat.cast_one]
  rw [abs_value, hone]
  by_cases he : x.exponent ≤ highest + 1 - f.precision
  · have hcoefficient : (x.coefficient : ℚ) ≤ 10 ^ (f.precision : Int) - 1 := by
      have := tenPow_le hdigits
      rw [← hone]
      exact_mod_cast (show x.coefficient ≤ tenPow f.precision - 1 by omega)
    exact mul_le_mul hcoefficient (ten_zpow_le_iff.mpr he) (ten_zpow_pos _).le
      ((Nat.cast_nonneg _).trans hcoefficient)
  · -- a larger exponent leaves room for fewer digits
    have hcoefficient : (x.coefficient : ℚ) ≤ 10 ^ (x.digits : Int) - 1 := by
      rw [← cast_tenPow, ← Nat.cast_one, ← Nat.cast_sub (tenPow_pos _)]
      exact_mod_cast (show x.coefficient ≤ tenPow x.digits - 1 by omega)
    have htop : (10 : ℚ) ^ ((x.digits : Int) + x.exponent) ≤ 10 ^ (highest + 1) := by
      rw [ten_zpow_le_iff]
      unfold adjusted at hhighest
      omega
    have hlow : (10 : ℚ) ^ (highest + 1 - f.precision) ≤ 10 ^ x.exponent := by
      rw [ten_zpow_le_iff]
      omega
    calc (x.coefficient : ℚ) * 10 ^ x.exponent
        ≤ (10 ^ (x.digits : Int) - 1) * 10 ^ x.exponent :=
          mul_le_mul_of_nonneg_right hcoefficient (ten_zpow_pos _).le
      _ = 10 ^ ((x.digits : Int) + x.exponent) - 10 ^ x.exponent := by
          rw [ten_zpow_add]
          ring
      _ ≤ 10 ^ (highest + 1) - 10 ^ (highest + 1 - f.precision) := by
          linarith
      _ = (10 ^ (f.precision : Int) - 1) * 10 ^ (highest + 1 - f.precision) := by
          rw [sub_mul, ← ten_zpow_add, one_mul]
          congr 2
          omega

/-- The largest number is a whole number of units of any number in range. -/
theorem unit_le_highest (hx : x.isZero = false) (h : x.adjusted ≤ Format.maxExponent) :
    f.unit |x.value| ≤ Format.maxExponent + 1 - f.precision := by
  have hlog := log_value (K := ℚ) hx
  rw [Rat.cast_id] at hlog
  rw [Format.unit, hlog]
  unfold Format.tiny Format.minExponent
  unfold Format.maxExponent at h ⊢
  omega

/-- A row of nines is below the next power of ten. -/
theorem nines_lt (p : Nat) (e : Int) :
    ((tenPow p - 1 : Nat) : ℚ) * 10 ^ (e - p) < 10 ^ e := by
  calc ((tenPow p - 1 : Nat) : ℚ) * 10 ^ (e - p)
      < (tenPow p : Nat) * 10 ^ (e - p) := by
        refine mul_lt_mul_of_pos_right ?_ (ten_zpow_pos _)
        exact_mod_cast Nat.sub_lt (tenPow_pos _) (by decide)
    _ = 10 ^ e := by
        rw [cast_tenPow, ← ten_zpow_add]
        congr 1
        omega

/-- **Nothing overflows** that is at most as large as a decimal of at most as many digits. -/
theorem round_ok (hp : 0 < f.precision) (hdigits : y.digits ≤ f.precision)
    (hhighest : y.adjusted ≤ Format.maxExponent) (h : |x.value| ≤ |y.value|) :
    ∃ z, x.round f = .ok z := by
  cases hx : x.isZero with
  | true =>
      obtain ⟨z, hz, _⟩ := round_zero f hx
      exact ⟨z, hz⟩
  | false =>
      obtain ⟨_, hmagnitude, hrange⟩ := kept_spec (K := ℚ) hp hx
      simp only [Rat.cast_id] at hmagnitude
      have hover := overflows_iff (K := ℚ) hrange
      simp only [Rat.cast_id, hmagnitude] at hover
      have htop : |y.value| < 10 ^ (Format.maxExponent + 1) :=
        abs_value_lt (Int.lt_add_one_of_le hhighest)
      have hadjusted : x.adjusted ≤ Format.maxExponent :=
        Int.le_of_lt_add_one ((adjusted_lt_iff hx).mpr (h.trans_lt htop))
      have hlargest := h.trans (abs_value_le hdigits hhighest)
      -- the largest number is not rounded, and what is rounded is not above it
      have hwhole : ((tenPow f.precision - 1 : Nat) : ℚ) *
          10 ^ (Format.maxExponent + 1 - f.precision) =
            (((tenPow f.precision - 1) *
              tenPow (Format.maxExponent + 1 - f.precision - f.unit |x.value|).toNat : Nat) : ℚ) *
                10 ^ f.unit |x.value| := by
        rw [cast_scaled _ (unit_le_highest hx hadjusted)]
      have hpos := ten_zpow_pos (K := ℚ) (f.unit |x.value|)
      rw [hwhole, ← div_le_iff₀ hpos] at hlargest
      have hnearest := f.rounding.nearest_le x.negative
        (div_nonneg (abs_nonneg x.value) hpos.le) hlargest
      have hbelow : (f.rounding.nearest x.negative (|x.value| / 10 ^ f.unit |x.value|) : ℚ) *
          10 ^ f.unit |x.value| < 10 ^ (Format.maxExponent + 1) := by
        refine lt_of_le_of_lt ?_ (nines_lt f.precision (Format.maxExponent + 1))
        rw [hwhole]
        exact mul_le_mul_of_nonneg_right (by exact_mod_cast hnearest) hpos.le
      rw [round_of_ne_zero hx, if_neg (by rw [hover]; exact not_le.mpr hbelow)]
      exact ⟨_, rfl⟩

end Decimal

end DecimalCalc
