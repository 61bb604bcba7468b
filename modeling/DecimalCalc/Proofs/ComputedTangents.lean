import DecimalCalc.Proofs.ComputedAngles

/-!
# Tangents that are computed

The series of sine and cosine stay close to what they start with, so the tangent of three eighths of a
turn is enclosed by intervals that are not zero (`Interval.exists_tangent`). A number that is enclosed in
that way has a result with limited places after the point, if the precision is not beyond the range of
exponents (`Settings.exists_computedAtPlaces`).
-/

set_option autoImplicit false

namespace DecimalCalc

open Except

namespace Interval

variable {bits : Nat} {x z : Interval} {v η : ℝ}

/-! ## Sine and cosine -/

theorem within_square (hbits : 64 ≤ bits) (hz : Within z v η) (hsize : |v| + η ≤ 9 / 10) :
    Within (mul bits z z).neg 0 (82 / 100) := by
  have hg := grain_le hbits
  have hg0 := grain_pos bits
  have hnonneg : 0 ≤ |v| + η := add_nonneg (abs_nonneg v) hz.nonneg
  refine ((hz.small.mul_small hz.small bits).neg_small).mono ?_
  have hbound := mul_self_le_mul_self hnonneg hsize
  have hgrown := mul_le_mul (by linarith : 1 + grain bits ≤ 1001 / 1000) hbound (by positivity)
    (by norm_num)
  linarith

/-- The next term of a series: the term before it, times the square, and divided. -/
theorem within_next (hbits : 64 ≤ bits) (hx : Within x 0 (82 / 100)) {t : Interval} {m : ℝ} {d : Nat}
    (ht : Within t 0 m) (hd : 0 < d) :
    Within (divNat bits (mul bits t x) d) 0 (83 / 100 * (m / d)) := by
  have hg := grain_le hbits
  have hg0 := grain_pos bits
  have hm := ht.nonneg
  refine ((ht.mul_small hx bits).divNat_small hd (by omega)).mono ?_
  have hproduct : (1 + grain bits) * (m * (82 / 100)) ≤ 1001 / 1000 * (m * (82 / 100)) :=
    mul_le_mul_of_nonneg_right (by linarith) (by positivity)
  calc (1 + 3 * grain bits) * ((1 + grain bits) * (m * (82 / 100)) / d)
      ≤ 1001 / 1000 * (1001 / 1000 * (m * (82 / 100)) / d) := by
        refine mul_le_mul (by linarith) ?_ (by positivity) (by norm_num)
        exact div_le_div_of_nonneg_right hproduct (Nat.cast_nonneg d)
    _ = 1001 / 1000 * (1001 / 1000) * (82 / 100) * (m / d) := by ring
    _ ≤ 83 / 100 * (m / d) := mul_le_mul_of_nonneg_right (by norm_num) (by positivity)

/-- From the second on, the terms fall to a third at least. -/
theorem within_third (hbits : 64 ≤ bits) (hx : Within x 0 (82 / 100)) {t : Interval} {m : ℝ} {d : Nat}
    (ht : Within t 0 m) (hd : 3 ≤ d) : Within (divNat bits (mul bits t x) d) 0 (m / 3) := by
  have hm := ht.nonneg
  refine (within_next hbits hx ht (by omega)).mono ?_
  have hcast : (3 : ℝ) ≤ d := by exact_mod_cast hd
  have hle : m / d ≤ m / 3 := div_le_div_of_nonneg_left hm (by norm_num) hcast
  linarith

/-- **The series of the sine** stays close to its first term, for angles below one. -/
theorem within_sinSeries (hbits : 64 ≤ bits) (hz : Within z v η) (hz0 : z.isZero = false)
    (hsize : |v| + η ≤ 9 / 10) : Within (sinSeries bits z) v (η + 7 / 25 * (|v| + η)) := by
  have hnonneg : 0 ≤ |v| + η := add_nonneg (abs_nonneg v) hz.nonneg
  have hsquare := within_square hbits hz hsize
  have hsecond : Within (divNat bits (mul bits z (mul bits z z).neg) ((2 * 0 + 2) * (2 * 0 + 3))) 0
      (83 / 600 * (|v| + η)) :=
    (within_next hbits hsquare hz.small (by decide)).mono (le_of_eq (by push_cast; ring))
  -- as many terms as there are bits, each with an error of its own
  have hfuel : (((bits + 19 : Nat) : ℝ) + 1) * (2 * (grain bits * (2 * (|v| + η)))) ≤
      4 / 10 ^ 6 * (|v| + η) := by
    have hscaled := mul_le_mul_of_nonneg_right (mul_grain_le hbits) hnonneg
    push_cast
    linarith
  unfold sinSeries
  dsimp only
  rw [show bits + 20 = bits + 19 + 1 from rfl, series_start hz0]
  refine (Within.series (k := bits + 19) (M := 2 * (|v| + η)) (fun n t m hn ht => ?_)
    (fun _ _ _ _ ht => ht) hz hsecond Nat.one_pos ?_ (by positivity)).mono ?_
  · refine within_third hbits hsquare ht ?_
    nlinarith
  · linarith
  · linarith

/-- The second term of the series of the cosine, for angles close to an eighth of a turn. -/
theorem within_cosSecond (hbits : 64 ≤ bits) (hz : Within z v η) (hv : |v| = 951 / 1195)
    (hη : η ≤ 76 / 1000) :
    Within (divNat bits (mul bits (ofInt 1) (mul bits z z).neg) ((2 * 0 + 1) * (2 * 0 + 2)))
      (-(v * v) / 2) (64 / 1000) := by
  have hg := grain_le hbits
  have hg0 := grain_pos bits
  have hη0 := hz.nonneg
  have hunit : Within (ofInt 1) 1 0 := by
    have h := within_ofInt 1
    rwa [Int.cast_one] at h
  have hvv : v * v = 951 / 1195 * (951 / 1195) := by rw [← abs_mul_abs_self, hv]
  have hclose : Within (mul bits z z).neg (-(v * v)) (127 / 1000) := by
    refine (hz.mul hz bits).neg.mono ?_
    have hself := mul_self_le_mul_self hη0 hη
    have hgrown : grain bits * ((|v| + η) * (|v| + η)) ≤ 1 / 10 ^ 18 * (1 * 1) := by
      refine mul_le_mul hg ?_ (by positivity) (by norm_num)
      exact mul_self_le_mul_self (by positivity) (by linarith)
    rw [hv] at hgrown ⊢
    linarith
  have hterm := (hunit.mul hclose bits).divNat (n := (2 * 0 + 1) * (2 * 0 + 2)) (by decide)
    (by omega : 1 ≤ bits)
  rw [one_mul] at hterm
  refine hterm.mono ?_
  have hself := mul_le_mul_of_nonneg_left hg hg0.le
  rw [abs_neg, hvv]
  norm_num
  linarith

/-- A number that is not small has an interval with a high leading bit. -/
theorem Within.lt_top (h : Within x v η) {k : Int} (hlarge : 2 ^ k + η ≤ |v|) : k < x.top := by
  have hbelow := abs_sub_abs_le_abs_sub v x.lower
  have hlower := h.lower
  rw [abs_sub_comm] at hlower
  have hlt : (2 : ℝ) ^ k < 2 ^ x.top := lt_of_le_of_lt (by linarith) (abs_lower_lt x)
  exact (zpow_lt_zpow_iff_right₀ (by norm_num)).mp hlt

/-- **The series of the cosine** stays close to its first two terms, for angles close to an eighth of a
turn. -/
theorem within_cosSeries (hbits : 64 ≤ bits) (hz : Within z v η) (hv : |v| = 951 / 1195)
    (hη : η ≤ 76 / 1000) : Within (cosSeries bits z) (1 - v * v / 2) (1 / 8) := by
  have hg := grain_le hbits
  have hg0 := grain_pos bits
  have hsquare := within_square hbits hz (by linarith)
  have hunit : Within (ofInt 1) 1 0 := by
    have h := within_ofInt 1
    rwa [Int.cast_one] at h
  have hsecond := within_cosSecond hbits hz hv hη
  have hvv : v * v = 951 / 1195 * (951 / 1195) := by rw [← abs_mul_abs_self, hv]
  have habs : |-(v * v) / 2| = 951 / 1195 * (951 / 1195) / 2 := by
    rw [hvv]
    norm_num [abs_of_neg, abs_of_pos]
  -- the second term is not so small that the sum would be broken off
  have htop := hsecond.lt_top (k := -2) (by rw [habs]; norm_num)
  have hsecond0 := hsecond.isZero_eq_false (by rw [habs]; norm_num)
  have hsum := hunit.add hsecond (M := 2) (by norm_num) (by rw [habs]; norm_num) bits
  have hthird := within_next hbits hsquare hsecond.small (d := (2 * 1 + 1) * (2 * 1 + 2)) (by decide)
  rw [habs] at hthird
  have hfuel : (((bits + 18 : Nat) : ℝ) + 1) * (2 * (grain bits * 2)) ≤ 4 / 10 ^ 6 := by
    have hcount := mul_grain_le hbits
    push_cast
    linarith
  have honeTop : (ofInt 1).top = 1 := rfl
  unfold cosSeries
  dsimp only
  rw [show bits + 20 = bits + 18 + 1 + 1 from rfl, series_start rfl,
    series_next hsecond0 (by rw [honeTop]; omega)]
  rw [show 1 - v * v / 2 = 1 + -(v * v) / 2 by ring]
  refine (Within.series (k := bits + 18) (M := 2) (fun n t m hn ht => ?_) (fun _ _ _ _ ht => ht) hsum
    hthird (by omega) ?_ (by norm_num)).mono ?_
  · refine within_third hbits hsquare ht ?_
    nlinarith
  · rw [hvv]
    norm_num [abs_of_pos] at hfuel ⊢
    linarith
  · norm_num at hfuel ⊢
    linarith

/-- An eighth of a turn in radians, on the other side of the axis. -/
theorem within_eighth (hbits : 64 ≤ bits) :
    Within (divNat bits (mul bits (ofDecimal bits ⟨true, 45, 0⟩) (pi bits)) 180)
      (-951 / 1195) (76 / 1000) := by
  have hg := grain_le hbits
  have hg0 := grain_pos bits
  have hdegrees := (within_ofDecimal hbits ⟨true, 45, 0⟩).mono (θ := 1 / 10 ^ 10) (by
    norm_num [Decimal.value, Decimal.signed]
    linarith)
  have hvalue : (Decimal.value ⟨true, 45, 0⟩ : ℝ) = -45 := by norm_num [Decimal.value, Decimal.signed]
  rw [hvalue] at hdegrees
  have hproduct := (hdegrees.mul (within_pi hbits) bits).mono (θ := 1351 / 100) (by
    norm_num [abs_of_pos]
    linarith)
  have hdivided := hproduct.divNat (n := 180) (by decide) (by omega : 1 ≤ bits)
  have hradians : (-45 : ℝ) * (16 / 5 - 4 / 239) / (180 : Nat) = -951 / 1195 := by norm_num
  rw [hradians] at hdivided
  refine hdivided.mono ?_
  norm_num [abs_of_pos]
  linarith

/-- **The tangent of three eighths of a turn** is enclosed clearly. -/
theorem exists_tangent (hbits : 64 ≤ bits) :
    ∃ q, div bits (sinCosDegrees bits ⟨false, 135, 0⟩).1 (sinCosDegrees bits ⟨false, 135, 0⟩).2 =
      some q ∧ q.Clear := by
  have hg := grain_le hbits
  have hg0 := grain_pos bits
  have hrest : Decimal.exactSum .halfEven ⟨false, 135, 0⟩ (Decimal.ofInt (-90 * 2)) = ⟨true, 45, 0⟩ := by
    decide
  have hreduced : sinCosDegrees bits ⟨false, 135, 0⟩ =
      turned bits 2 (divNat bits (mul bits (ofDecimal bits ⟨true, 45, 0⟩) (pi bits)) 180) :=
    congrArg (fun d => turned bits 2 (divNat bits (mul bits (ofDecimal bits d) (pi bits)) 180)) hrest
  -- the angle in radians, which is an eighth of a turn short of a half
  have hangle := within_eighth hbits
  have hsize : |(-951 / 1195 : ℝ)| = 951 / 1195 := by norm_num [abs_of_pos]
  have hangle0 := hangle.isZero_eq_false (by rw [hsize]; norm_num)
  rw [hreduced]
  generalize divNat bits (mul bits (ofDecimal bits ⟨true, 45, 0⟩) (pi bits)) 180 = z at *
  have hsine : Within (sinSeries bits z).neg (951 / 1195) (41 / 100 * |951 / 1195|) := by
    have hseries := (within_sinSeries hbits hangle hangle0 (by rw [hsize]; norm_num)).neg
    rw [show -(-951 / 1195 : ℝ) = 951 / 1195 by norm_num] at hseries
    refine hseries.mono ?_
    norm_num [abs_of_pos]
  have hcosine : Within (cosSeries bits z).neg (-1951649 / 2856050) (184 / 1000 * |-1951649 / 2856050|) := by
    have hseries := (within_cosSeries hbits hangle hsize le_rfl).neg
    rw [show -(1 - -951 / 1195 * (-951 / 1195) / 2 : ℝ) = -1951649 / 2856050 by norm_num] at hseries
    refine hseries.mono ?_
    norm_num [abs_of_pos]
  obtain ⟨q, hq, hnear⟩ := hsine.div_relative hcosine (by norm_num) (by norm_num)
    (by omega : 1 ≤ bits)
  refine ⟨q, hq, _, hnear.mono ?_, ?_, ?_⟩
  · refine mul_le_mul_of_nonneg_right ?_ (abs_nonneg _)
    rw [div_le_iff₀ (by norm_num)]
    linarith
  · norm_num [abs_of_pos]
  · refine (zpow_le_one_of_nonpos₀ (by norm_num) (by norm_num)).trans ?_
    norm_num [abs_of_pos]

end Interval

/-! ## Results with limited places -/

namespace Decimal

variable {f : Format} {x : Decimal} {unit e : Int}

/-- Rounding at a place does not leave a power of ten behind that is above the place. -/
theorem abs_value_roundAt_le (m : Rounding) (hunit : unit ≤ e) (hx : |x.value| < 10 ^ e) :
    |(x.roundAt m unit).value| ≤ 10 ^ e := by
  by_cases hle : unit ≤ x.exponent
  · rw [roundAt_of_le m hle, abs_value, cast_scaled _ hle, ← abs_value]
    exact hx.le
  · cases hx0 : x.isZero with
    | true =>
        rw [value_roundAt m (n := 0) (by simp [value_eq_zero_iff.mpr hx0])]
        exact hx.le
    | false =>
        have hpower : ((tenPow (e - unit).toNat : Nat) : ℚ) * 10 ^ unit = 10 ^ e := by
          rw [cast_tenPow_toNat (by omega), ← ten_zpow_add, Int.sub_add_cancel]
        -- the power of ten is a whole number of units, and rounding does not pass one
        have hwhole : |x.value| / 10 ^ unit ≤ (tenPow (e - unit).toNat : Nat) := by
          rw [div_le_iff₀ (ten_zpow_pos unit), hpower]
          exact hx.le
        have hnonneg : 0 ≤ |x.value| / 10 ^ unit := div_nonneg (abs_nonneg _) (ten_zpow_pos unit).le
        have hnearest := Rounding.nearest_le m x.negative hnonneg hwhole
        rw [roundAt_eq (K := ℚ) m hx0 (by omega), abs_value, Rat.cast_id]
        calc ((m.nearest x.negative (|x.value| / 10 ^ unit) : Nat) : ℚ) * 10 ^ unit
            ≤ (tenPow (e - unit).toNat : Nat) * 10 ^ unit :=
              mul_le_mul_of_nonneg_right (Nat.cast_le.mpr hnearest) (ten_zpow_pos unit).le
          _ = 10 ^ e := hpower

/-- **A decimal can be put on a place** if there is room for its digits down to there. -/
theorem exists_quantize (hlow : f.tiny ≤ unit) (hunit : unit ≤ e) (hx : |x.value| < 10 ^ e)
    (he : e ≤ Format.maxExponent) (hroom : e + 1 - unit ≤ f.precision) :
    ∃ y, quantize f x unit = .ok y ∧ |y.value| ≤ 10 ^ e := by
  have hexponent := exponent_roundAt f.rounding x unit
  have hbound := abs_value_roundAt_le f.rounding hunit hx
  have hfits : (x.roundAt f.rounding unit).isZero = false → (x.roundAt f.rounding unit).Fits f := by
    intro hy0
    have hadjusted := (adjusted_lt_iff hy0).mpr (hbound.trans_lt (ten_zpow_lt_iff.mpr (by omega)) :
      _ < (10 : ℚ) ^ (e + 1))
    have hdigits : ((x.roundAt f.rounding unit).digits : Int) ≤ e + 1 - unit := by
      unfold adjusted at hadjusted
      omega
    exact ⟨by omega, by omega, by omega⟩
  have hhighest : x.isZero = true ∨ x.adjusted ≤ Format.maxExponent := by
    cases hx0 : x.isZero with
    | true => exact .inl rfl
    | false =>
        have hlt := (adjusted_lt_iff hx0).mpr hx
        exact .inr (by omega)
  rw [quantize_eq hlow (by omega) hhighest hfits]
  cases hy0 : (x.roundAt f.rounding unit).isZero with
  | true =>
      obtain ⟨z, hz, hz0⟩ := round_zero f hy0
      refine ⟨z, hz, ?_⟩
      rw [value_eq_zero_iff.mpr hz0, abs_zero]
      exact (ten_zpow_pos e).le
  | false => exact ⟨_, round_of_fits (hfits hy0) hy0, hbound⟩

/-- The last place of a result with limited places, in the standard format. -/
theorem shiftPoint_one {n : Nat} (hn : n ≤ 1000000) :
    shiftPoint Format.standard one (-(n : Int)) = .ok ⟨false, 1, -(n : Int)⟩ := by
  have hfits : Fits Format.standard ⟨false, 1, -(n : Int)⟩ := by
    refine ⟨?_, ?_, ?_⟩
    · show digitCount 1 ≤ 28
      decide
    · show -(n : Int) + digitCount 1 - 1 ≤ 999999
      rw [show digitCount 1 = 1 by decide]
      omega
    · show -999999 - 28 + 1 ≤ -(n : Int)
      omega
  have hnear : ¬2 * (Format.maxExponent + Format.standard.precision) < (-(n : Int)).natAbs := by
    show ¬2 * (999999 + 28 : Int) < (-(n : Int)).natAbs
    omega
  have hshifted : (⟨false, 1, 0 + -(n : Int)⟩ : Decimal) = ⟨false, 1, -(n : Int)⟩ := by
    rw [zero_add]
  rw [shiftPoint, if_neg hnear]
  exact (congrArg (round Format.standard) hshifted).trans (round_of_fits hfits rfl)

/-- A decimal that is not large has few digits before the point. -/
theorem adjusted_laidOut_le {w : Decimal} (hw : |w.value| ≤ 10 ^ 7) (digits : Nat) :
    (w.laidOut digits).adjusted ≤ 7 := by
  cases hw0 : w.isZero with
  | true =>
      rw [laidOut, if_pos hw0]
      decide
  | false =>
      have hx0 : (w.laidOut digits).isZero = false := by
        rwa [← value_ne_zero_iff, value_laidOut, value_ne_zero_iff]
      have hlt : (w.laidOut digits).adjusted < 8 := by
        rw [adjusted_lt_iff hx0, value_laidOut]
        exact hw.trans_lt (by norm_num)
      omega

/-- A decimal that is not large has a rounded value in every format. -/
theorem exists_plus {y : Decimal} (hp : 0 < f.precision) (hy : |y.value| ≤ 10 ^ Format.maxExponent) :
    ∃ z, plus f y = .ok z := by
  obtain ⟨v, hv⟩ := Format.rounded_ok (Format.represents_ten_maxExponent hp) hy
  rw [← plus_value hp] at hv
  obtain ⟨z, hz, -⟩ := map_eq_ok.mp hv
  exact ⟨z, hz⟩

end Decimal

namespace Settings

/-- **A result with limited places** is there for every computed decimal that is not large, if the
precision is not beyond the range of exponents. -/
theorem exists_settleAtPlaces {s : Settings} (hp : s.precision ≤ 1000000) {w : Decimal}
    (hw : |w.value| ≤ 10 ^ 7) : ∃ z : Decimal, s.settleAtPlaces (.ok w) = .ok (.finite z) := by
  have hhighest := Decimal.adjusted_laidOut_le hw s.computedDigits
  generalize hx : w.laidOut s.computedDigits = x at hhighest
  have hbelow : |x.value| < 10 ^ (max x.adjusted 0 + 1) := Decimal.abs_value_lt (by omega)
  -- the places down to the last one, which the quantized decimal has room for
  have hquantize : ∃ y, Decimal.quantize ⟨(max x.adjusted 0).toNat + s.precision + 2, s.rounding⟩ x
      (-(s.precision : Int)) = .ok y ∧ |y.value| ≤ 10 ^ (max x.adjusted 0 + 1) := by
    refine Decimal.exists_quantize ?_ (by omega) hbelow ?_ ?_
    · show -999999 - (((max x.adjusted 0).toNat + s.precision + 2 : Nat) : Int) + 1 ≤ _
      omega
    · unfold Format.maxExponent
      omega
    · push_cast
      omega
  obtain ⟨y, hy, hbound⟩ := hquantize
  have hsmall : |y.value| ≤ 10 ^ Format.maxExponent := by
    refine hbound.trans (ten_zpow_le_iff.mpr ?_)
    unfold Format.maxExponent
    omega
  obtain ⟨z, hz⟩ := Decimal.exists_plus (f := s.format) s.precision_pos hsmall
  have hmax : s.format.precision ≤ Format.maxPrecision := by
    show s.precision ≤ 999999999999999999
    omega
  have hexact : Format.precision ⟨(max x.adjusted 0).toNat + s.precision + 2, s.rounding⟩ ≤
      Format.maxPrecision := by
    show (max x.adjusted 0).toNat + s.precision + 2 ≤ 999999999999999999
    omega
  have hquantized : Number.quantize ⟨(max x.adjusted 0).toNat + s.precision + 2, s.rounding⟩
      (.finite x) (-(s.precision : Int)) = .ok (.finite y) := by
    rw [Number.quantize, Number.lift₁_finite hexact, hy]
    rfl
  have hplus : Number.plus s.format (.finite y) = .ok (.finite z) := by
    rw [Number.plus, Number.lift₁_finite hmax, hz]
    rfl
  refine ⟨z, mapError_eq_ok.mpr (bind_eq_ok.mpr ⟨w, rfl, ?_⟩)⟩
  dsimp only
  rw [hx, Decimal.shiftPoint_one hp]
  exact bind_eq_ok.mpr ⟨_, rfl, bind_eq_ok.mpr ⟨_, hquantized, hplus⟩⟩

/-- **A number that is enclosed clearly** has a result with limited places. -/
theorem exists_computedAtPlaces (s : Settings) (hp : s.precision ≤ 1000000) {x : Enclosure}
    (hx : x.Clear) : ∃ z : Decimal, s.computedAtPlaces x = .ok (.finite z) := by
  obtain ⟨w, hw, hbound⟩ := hx.nearest s.computedDigits
  rw [computedAtPlaces, hw]
  exact exists_settleAtPlaces hp hbound

end Settings

end DecimalCalc
