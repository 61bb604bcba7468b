import DecimalCalc.Enclosure.Interval
import Mathlib.Analysis.Real.Sqrt

/-!
# How tight intervals are

Every operation on intervals cuts its result to the working precision. So the ends of the result are close
to the outcome for the numbers that the ends of the operands are close to, and the distance grows by a few
grains of the working precision at the most (`Interval.grain`). Which numbers these are does not matter:
they need not lie in the intervals.
-/

set_option autoImplicit false

namespace DecimalCalc

/-! ## Binary digits -/

section Bits

variable {n s t : Int}

theorem two_zpow_pos (s : Int) : (0 : ℝ) < 2 ^ s := zpow_pos (by norm_num) s

theorem two_zpow_add (s t : Int) : (2 : ℝ) ^ (s + t) = 2 ^ s * 2 ^ t := zpow_add₀ (by norm_num) s t

theorem two_zpow_le (h : s ≤ t) : (2 : ℝ) ^ s ≤ 2 ^ t := zpow_le_zpow_right₀ (by norm_num) h

theorem abs_lt_two_zpow_bitLength (n : Int) : |(n : ℝ)| < 2 ^ (bitLength n : Int) := by
  rw [← Int.cast_abs, Int.abs_eq_natAbs, zpow_natCast]
  unfold bitLength
  split
  case isTrue h => simp [h]
  case isFalse h =>
    exact_mod_cast Nat.lt_log2_self

theorem two_zpow_bitLength_le (hn : n ≠ 0) : (2 : ℝ) ^ (bitLength n : Int) ≤ 2 * |(n : ℝ)| := by
  rw [← Int.cast_abs, Int.abs_eq_natAbs, zpow_natCast, bitLength, if_neg hn, pow_succ, mul_comm]
  refine mul_le_mul_of_nonneg_left ?_ (by norm_num)
  exact_mod_cast Nat.log2_self_le (Int.natAbs_ne_zero.mpr hn)

/-- A quotient that is rounded down drops less than one. -/
theorem abs_fdiv_sub_le {a b : Int} (hb : 0 < b) : |((a.fdiv b : Int) : ℝ) - a / b| ≤ 1 := by
  have hb' : (0 : ℝ) < b := Int.cast_pos.mpr hb
  have hlow : ((a.fdiv b : Int) : ℝ) ≤ a / b := by
    rw [le_div_iff₀ hb', Int.fdiv_eq_ediv_of_nonneg a hb.le]
    exact_mod_cast Int.ediv_mul_le a hb.ne'
  have hhigh : (a : ℝ) / b ≤ (a.fdiv b : Int) + 1 := by
    rw [div_le_iff₀ hb', Int.fdiv_eq_ediv_of_nonneg a hb.le]
    exact_mod_cast (Int.lt_ediv_add_one_mul_self a hb).le
  rw [abs_le]
  constructor <;> linarith

theorem shiftDown_of_nonneg (hs : 0 ≤ s) : (shiftDown n s : ℝ) = n * 2 ^ s := by
  rw [shiftDown, if_pos hs, Int.shiftLeft_eq, Int.cast_mul, Int.cast_pow]
  conv_rhs => rw [← Int.toNat_of_nonneg hs, zpow_natCast]
  norm_num

/-- **A shift downwards** drops less than one. -/
theorem abs_shiftDown_sub_le (n s : Int) : |(shiftDown n s : ℝ) - n * 2 ^ s| ≤ 1 := by
  by_cases hs : 0 ≤ s
  · rw [shiftDown_of_nonneg hs, sub_self, abs_zero]
    exact zero_le_one
  · have hpower : (2 : ℝ) ^ s = 1 / ((2 ^ (-s).toNat : Nat) : Int) := by
      rw [one_div, Int.cast_natCast, Nat.cast_pow, ← zpow_natCast,
        Int.toNat_of_nonneg (by omega : 0 ≤ -s), zpow_neg, inv_inv]
      norm_num
    have hpos : (0 : Int) < (2 ^ (-s).toNat : Nat) := by positivity
    rw [shiftDown, if_neg hs, Int.shiftRight_eq_div_pow, hpower, mul_one_div,
      ← Int.fdiv_eq_ediv_of_nonneg _ hpos.le]
    exact abs_fdiv_sub_le hpos

theorem shiftUp_of_nonneg (hs : 0 ≤ s) : (shiftUp n s : ℝ) = n * 2 ^ s := by
  rw [shiftUp, Int.cast_neg, shiftDown_of_nonneg hs, Int.cast_neg, neg_mul, neg_neg]

theorem abs_shiftUp_sub_le (n s : Int) : |(shiftUp n s : ℝ) - n * 2 ^ s| ≤ 1 := by
  have hdown := abs_shiftDown_sub_le (-n) s
  rw [shiftUp, Int.cast_neg, ← abs_neg]
  convert hdown using 2
  push_cast
  ring

end Bits

namespace Interval

/-! ## Intervals close to a number -/

/-- The lower end. -/
noncomputable def lower (x : Interval) : ℝ := x.lo * ((2 : Nat) : ℝ) ^ x.scale

/-- The upper end. -/
noncomputable def upper (x : Interval) : ℝ := x.hi * ((2 : Nat) : ℝ) ^ x.scale

/-- **Both ends are within a distance** of a number. -/
structure Within (x : Interval) (v η : ℝ) : Prop where
  lower : |x.lower - v| ≤ η
  upper : |x.upper - v| ≤ η

/-- What an interval loses when it is cut to a working precision, as a fraction of its size. -/
noncomputable def grain (bits : Nat) : ℝ := ((2 : Nat) : ℝ) ^ (1 - (bits : Int))

variable {bits : Nat} {x y : Interval} {v w η θ M : ℝ}

/-- The definitions cast their base; lemmas on powers have it as a real number. -/
theorem lower_eq (x : Interval) : x.lower = x.lo * 2 ^ x.scale := rfl

theorem upper_eq (x : Interval) : x.upper = x.hi * 2 ^ x.scale := rfl

theorem grain_eq (bits : Nat) : grain bits = 2 ^ (1 - (bits : Int)) := rfl

theorem grain_pos (bits : Nat) : 0 < grain bits := two_zpow_pos _

theorem grain_le_one (h : 1 ≤ bits) : grain bits ≤ 1 :=
  zpow_le_one_of_nonpos₀ (by norm_num) (by omega)

theorem two_zpow_sub_bits (t : Int) (bits : Nat) :
    (2 : ℝ) ^ (t - bits) = grain bits * (2 ^ t / 2) := by
  rw [grain_eq, show t - bits = (1 - (bits : Int)) + (t - 1) by ring, two_zpow_add, zpow_sub_one₀ (by norm_num)]
  rfl

namespace Within

theorem mono (h : Within x v η) (hle : η ≤ θ) : Within x v θ := ⟨h.lower.trans hle, h.upper.trans hle⟩

theorem nonneg (h : Within x v η) : 0 ≤ η := (abs_nonneg _).trans h.lower

theorem abs_lower_le (h : Within x v η) : |x.lower| ≤ |v| + η := by
  have htriangle := abs_add_le (x.lower - v) v
  rw [sub_add_cancel] at htriangle
  linarith [h.lower]

theorem abs_upper_le (h : Within x v η) : |x.upper| ≤ |v| + η := by
  have htriangle := abs_add_le (x.upper - v) v
  rw [sub_add_cancel] at htriangle
  linarith [h.upper]

theorem neg (h : Within x v η) : Within x.neg (-v) η := by
  constructor
  · have hvalue : x.neg.lower - -v = -(x.upper - v) := by
      rw [lower_eq, upper_eq, Interval.neg]
      push_cast
      ring
    rw [hvalue, abs_neg]
    exact h.upper
  · have hvalue : x.neg.upper - -v = -(x.lower - v) := by
      rw [lower_eq, upper_eq, Interval.neg]
      push_cast
      ring
    rw [hvalue, abs_neg]
    exact h.lower

theorem shift (h : Within x v η) (k : Int) : Within (x.shift k) (v * 2 ^ k) (η * 2 ^ k) := by
  have hscaled : ∀ {e : ℝ}, |e - v| ≤ η → |e * 2 ^ k - v * 2 ^ k| ≤ η * 2 ^ k := by
    intro e he
    rw [← sub_mul, abs_mul, abs_of_pos (two_zpow_pos k)]
    exact mul_le_mul_of_nonneg_right he (two_zpow_pos k).le
  have hlower := hscaled h.lower
  have hupper := hscaled h.upper
  rw [lower_eq] at hlower
  rw [upper_eq] at hupper
  rw [mul_assoc, ← two_zpow_add] at hlower hupper
  exact ⟨hlower, hupper⟩

theorem abs_le_of_isZero (h : Within x v η) (hx : x.isZero = true) : |v| ≤ η := by
  have hlo : x.lo = 0 := by
    rw [Interval.isZero, Bool.and_eq_true, beq_iff_eq] at hx
    exact hx.1
  have hlower := h.lower
  rwa [lower_eq, hlo, Int.cast_zero, zero_mul, zero_sub, abs_neg] at hlower

theorem isZero_eq_false (h : Within x v η) (hlt : η < |v|) : x.isZero = false := by
  rw [Bool.eq_false_iff]
  intro hx
  exact absurd (h.abs_le_of_isZero hx) (not_le.mpr hlt)

theorem lo_pos (h : Within x v η) (hlt : η < v) : 0 < x.lo := by
  have hlower : 0 < x.lower := by linarith [(abs_le.mp h.lower).1]
  exact Int.cast_pos.mp (pos_of_mul_pos_left hlower (two_zpow_pos _).le)

theorem hi_pos (h : Within x v η) (hlt : η < v) : 0 < x.hi := by
  have hupper : 0 < x.upper := by linarith [(abs_le.mp h.upper).1]
  exact Int.cast_pos.mp (pos_of_mul_pos_left hupper (two_zpow_pos _).le)

/-- The place above the leading bit is at most one bit above the number. -/
theorem two_zpow_top_le (h : Within x v η) (hx : x.isZero = false) :
    (2 : ℝ) ^ x.top ≤ 2 * (|v| + η) := by
  have hend : ∀ {n : Int}, |(n : ℝ) * 2 ^ x.scale| ≤ |v| + η → n ≠ 0 →
      (2 : ℝ) ^ (bitLength n + x.scale) ≤ 2 * (|v| + η) := by
    intro n hn hne
    rw [abs_mul, abs_of_pos (two_zpow_pos _)] at hn
    rw [two_zpow_add]
    have hbits := mul_le_mul_of_nonneg_right (two_zpow_bitLength_le hne) (two_zpow_pos x.scale).le
    linarith
  have hne : x.lo ≠ 0 ∨ x.hi ≠ 0 := by
    rwa [Interval.isZero, Bool.and_eq_false_iff, beq_eq_false_iff_ne, beq_eq_false_iff_ne] at hx
  have hwidth : bitLength 0 = 0 := rfl
  unfold Interval.top Interval.width
  -- the wider end is not zero, since one of the two is not
  rcases le_total (bitLength x.lo) (bitLength x.hi) with hle | hle
  · rw [max_eq_right hle]
    refine hend h.abs_upper_le fun hzero => ?_
    rw [hzero, hwidth, Nat.le_zero] at hle
    rcases hne with hlo | hhi
    · rw [bitLength, if_neg hlo] at hle
      omega
    · exact hhi hzero
  · rw [max_eq_left hle]
    refine hend h.abs_lower_le fun hzero => ?_
    rw [hzero, hwidth, Nat.le_zero] at hle
    rcases hne with hlo | hhi
    · exact hlo hzero
    · rw [bitLength, if_neg hhi] at hle
      omega

end Within

theorem abs_lower_lt (x : Interval) : |x.lower| < 2 ^ x.top := by
  rw [lower_eq, abs_mul, abs_of_pos (two_zpow_pos _), top, two_zpow_add]
  refine mul_lt_mul_of_pos_right ?_ (two_zpow_pos _)
  refine (abs_lt_two_zpow_bitLength x.lo).trans_le (two_zpow_le ?_)
  exact_mod_cast le_max_left _ _

/-! ## Scales -/

/-- An end on another scale. -/
theorem abs_shift_sub_le {m n s t : Int} (h : |(m : ℝ) - n * 2 ^ (s - t)| ≤ 1) :
    |(m : ℝ) * 2 ^ t - n * 2 ^ s| ≤ 2 ^ t := by
  have hsplit : (m : ℝ) * 2 ^ t - n * 2 ^ s = (m - n * 2 ^ (s - t)) * 2 ^ t := by
    rw [sub_mul, mul_assoc, ← two_zpow_add, sub_add_cancel]
  rw [hsplit, abs_mul, abs_of_pos (two_zpow_pos t)]
  exact mul_le_of_le_one_left (two_zpow_pos t).le h

/-- Another scale moves the ends by less than its unit. -/
theorem Within.rescale (h : Within x v η) {t : Int} (ht : x.scale < t → (2 : ℝ) ^ t ≤ θ) (hθ : 0 ≤ θ) :
    Within (x.rescale t) v (η + θ) := by
  have hmoved : ∀ {m n : Int}, |(n : ℝ) * 2 ^ x.scale - v| ≤ η →
      |(m : ℝ) - n * 2 ^ (x.scale - t)| ≤ 1 →
      (t ≤ x.scale → (m : ℝ) = n * 2 ^ (x.scale - t)) → |(m : ℝ) * 2 ^ t - v| ≤ η + θ := by
    intro m n hn hmove hexact
    by_cases hscale : t ≤ x.scale
    · rw [hexact hscale, mul_assoc, ← two_zpow_add, sub_add_cancel]
      linarith
    · have htriangle := abs_sub_le ((m : ℝ) * 2 ^ t) (n * 2 ^ x.scale) v
      linarith [abs_shift_sub_le hmove, ht (not_le.mp hscale)]
  exact ⟨hmoved h.lower (abs_shiftDown_sub_le _ _) fun hle => shiftDown_of_nonneg (by omega),
    hmoved h.upper (abs_shiftUp_sub_le _ _) fun hle => shiftUp_of_nonneg (by omega)⟩

theorem within_ofInt (n : Int) : Within (ofInt n) n 0 := by
  constructor <;> simp [ofInt, lower_eq, upper_eq]

/-- **What is cut off** is a grain. -/
theorem Within.trim (h : Within x v η) (bits : Nat) :
    Within (x.trim bits) v (η + grain bits * (|v| + η)) := by
  have hsize : 0 ≤ |v| + η := add_nonneg (abs_nonneg v) h.nonneg
  have hcut := mul_nonneg (grain_pos bits).le hsize
  unfold Interval.trim
  split
  case isTrue hx =>
    have hv := h.abs_le_of_isZero hx
    constructor
    · simpa [ofInt, lower_eq] using (by linarith : |v| ≤ η + grain bits * (|v| + η))
    · simpa [ofInt, upper_eq] using (by linarith : |v| ≤ η + grain bits * (|v| + η))
  case isFalse hx =>
    split
    case isTrue => exact h.mono (by linarith)
    case isFalse hwide =>
      refine h.rescale (fun _ => ?_) hcut
      have htop := h.two_zpow_top_le (Bool.eq_false_iff.mpr hx)
      have hscale : x.scale + (x.width - bits : Nat) = x.top - bits := by
        unfold Interval.top
        omega
      rw [hscale, two_zpow_sub_bits]
      refine mul_le_mul_of_nonneg_left ?_ (grain_pos bits).le
      linarith

/-! ## Sums and products -/

/-- A number that is left out of a sum, since it is small. -/
theorem Within.moved (h : Within y w θ) (hv : |v| ≤ η) : Within y (v + w) (η + θ) := by
  have hmoved : ∀ {e : ℝ}, |e - w| ≤ θ → |e - (v + w)| ≤ η + θ := by
    intro e he
    rw [show e - (v + w) = e - w - v by ring]
    linarith [abs_sub (e - w) v]
  exact ⟨hmoved h.lower, hmoved h.upper⟩

/-- The sum of intervals on one scale. -/
theorem Within.addEnds {lo hi lo' hi' t : Int} (hx : Within ⟨lo, hi, t⟩ v η)
    (hy : Within ⟨lo', hi', t⟩ w θ) : Within ⟨lo + lo', hi + hi', t⟩ (v + w) (η + θ) := by
  have hsum : ∀ {m n : Int}, |(m : ℝ) * 2 ^ t - v| ≤ η → |(n : ℝ) * 2 ^ t - w| ≤ θ →
      |((m + n : Int) : ℝ) * 2 ^ t - (v + w)| ≤ η + θ := by
    intro m n hm hn
    rw [show ((m + n : Int) : ℝ) * 2 ^ t - (v + w) = (m * 2 ^ t - v) + (n * 2 ^ t - w) by
      push_cast; ring]
    exact (abs_add_le _ _).trans (add_le_add hm hn)
  exact ⟨hsum hx.lower hy.lower, hsum hx.upper hy.upper⟩

/-- **The error of a sum** is that of the operands, and two grains. -/
theorem Within.add (hx : Within x v η) (hy : Within y w θ) (hv : |v| + η ≤ M) (hw : |w| + θ ≤ M)
    (bits : Nat) : Within (x.add bits y) (v + w) (η + θ + 2 * (grain bits * M)) := by
  have hM : 0 ≤ M := (add_nonneg (abs_nonneg v) hx.nonneg).trans hv
  have hcut := mul_nonneg (grain_pos bits).le hM
  unfold Interval.add
  split
  case isTrue hzero => exact (hy.moved (hx.abs_le_of_isZero hzero)).mono (by linarith)
  case isFalse hx0 =>
    split
    case isTrue hzero =>
      rw [add_comm v]
      exact (hx.moved (hy.abs_le_of_isZero hzero)).mono (by linarith)
    case isFalse hy0 =>
      have hxtop := hx.two_zpow_top_le (Bool.eq_false_iff.mpr hx0)
      have hytop := hy.two_zpow_top_le (Bool.eq_false_iff.mpr hy0)
      have htop : (2 : ℝ) ^ max x.top y.top ≤ 2 * M := by
        rcases max_choice x.top y.top with h | h <;> rw [h] <;> linarith
      have hunit : (2 : ℝ) ^ (max x.top y.top - bits) ≤ grain bits * M := by
        rw [two_zpow_sub_bits]
        exact mul_le_mul_of_nonneg_left (by linarith) (grain_pos bits).le
      dsimp only
      generalize hscale : max (min x.scale y.scale) (max x.top y.top - bits) = t
      -- bits are lost only if they stand a grain below the larger operand
      have hcoarse : min x.scale y.scale < t → (2 : ℝ) ^ t ≤ grain bits * M := by
        intro hlt
        rwa [← hscale, max_eq_right (by omega)]
      have hx' := hx.rescale (t := t) (fun h => hcoarse (by omega)) hcut
      have hy' := hy.rescale (t := t) (fun h => hcoarse (by omega)) hcut
      exact (hx'.addEnds hy').mono (by linarith)

/-- The error of a product of two numbers. -/
theorem abs_mul_sub_le {a b : ℝ} (ha : |a - v| ≤ η) (hb : |b - w| ≤ θ) :
    |a * b - v * w| ≤ η * |w| + |v| * θ + η * θ := by
  have hη : 0 ≤ η := (abs_nonneg _).trans ha
  rw [show a * b - v * w = (a - v) * w + v * (b - w) + (a - v) * (b - w) by ring]
  refine (abs_add_three _ _ _).trans (add_le_add_three ?_ ?_ ?_)
  · rw [abs_mul]
    exact mul_le_mul_of_nonneg_right ha (abs_nonneg w)
  · rw [abs_mul]
    exact mul_le_mul_of_nonneg_left hb (abs_nonneg v)
  · rw [abs_mul]
    exact mul_le_mul ha hb (abs_nonneg _) hη

/-- **The error of a product**. -/
theorem Within.mul (hx : Within x v η) (hy : Within y w θ) (bits : Nat) :
    Within (x.mul bits y) (v * w)
      (η * |w| + |v| * θ + η * θ + grain bits * ((|v| + η) * (|w| + θ))) := by
  have hproduct : ∀ {m n : Int}, |(m : ℝ) * 2 ^ x.scale - v| ≤ η → |(n : ℝ) * 2 ^ y.scale - w| ≤ θ →
      |((m * n : Int) : ℝ) * 2 ^ (x.scale + y.scale) - v * w| ≤ η * |w| + |v| * θ + η * θ := by
    intro m n hm hn
    rw [two_zpow_add, show ((m * n : Int) : ℝ) * (2 ^ x.scale * 2 ^ y.scale) =
      m * 2 ^ x.scale * (n * 2 ^ y.scale) by push_cast; ring]
    exact abs_mul_sub_le hm hn
  have hlolo := hproduct hx.lower hy.lower
  have hlohi := hproduct hx.lower hy.upper
  have hhilo := hproduct hx.upper hy.lower
  have hhihi := hproduct hx.upper hy.upper
  -- the ends are the least and the largest of the four products
  have hmin : ∀ {m n : Int} {β : ℝ}, |(m : ℝ) * 2 ^ (x.scale + y.scale) - v * w| ≤ β →
      |(n : ℝ) * 2 ^ (x.scale + y.scale) - v * w| ≤ β →
      |((min m n : Int) : ℝ) * 2 ^ (x.scale + y.scale) - v * w| ≤ β := by
    intro m n β hm hn
    rcases min_choice m n with h | h <;> rw [h] <;> assumption
  have hmax : ∀ {m n : Int} {β : ℝ}, |(m : ℝ) * 2 ^ (x.scale + y.scale) - v * w| ≤ β →
      |(n : ℝ) * 2 ^ (x.scale + y.scale) - v * w| ≤ β →
      |((max m n : Int) : ℝ) * 2 ^ (x.scale + y.scale) - v * w| ≤ β := by
    intro m n β hm hn
    rcases max_choice m n with h | h <;> rw [h] <;> assumption
  have hraw : Within ⟨_, _, x.scale + y.scale⟩ (v * w) (η * |w| + |v| * θ + η * θ) :=
    ⟨hmin (hmin hlolo hlohi) (hmin hhilo hhihi), hmax (hmax hlolo hlohi) (hmax hhilo hhihi)⟩
  have hsize : |v * w| + (η * |w| + |v| * θ + η * θ) = (|v| + η) * (|w| + θ) := by
    rw [abs_mul]
    ring
  have htrim := hraw.trim bits
  rwa [hsize] at htrim

/-! ## Quotients and roots -/

/-- The error of a quotient of two numbers. -/
theorem abs_div_sub_le {a b : ℝ} (ha : |a - v| ≤ η) (hb : |b - w| ≤ θ) (hθ : θ < w) :
    |a / b - v / w| ≤ (η + |v| * θ / w) / (w - θ) := by
  have hw : 0 < w := ((abs_nonneg _).trans hb).trans_lt hθ
  have hlow : w - θ ≤ b := by linarith [(abs_le.mp hb).1]
  have hgap : 0 < w - θ := sub_pos.mpr hθ
  have hbpos : 0 < b := hgap.trans_le hlow
  have hη : 0 ≤ η := (abs_nonneg _).trans ha
  have hsplit : a / b - v / w = ((a - v) + v * (w - b) / w) / b := by
    field_simp
    ring
  rw [hsplit, abs_div, abs_of_pos hbpos]
  refine div_le_div₀ ?_ ?_ hgap hlow
  · exact add_nonneg hη (div_nonneg (mul_nonneg (abs_nonneg v) ((abs_nonneg _).trans hb)) hw.le)
  · refine (abs_add_le _ _).trans (add_le_add ha ?_)
    rw [abs_div, abs_of_pos hw, abs_mul, abs_sub_comm w b]
    exact div_le_div_of_nonneg_right (mul_le_mul_of_nonneg_left hb (abs_nonneg v)) hw.le

/-- The unit that a quotient is computed to. -/
theorem quotient_unit_le (hx : Within x v η) (hy : Within y w θ) (hθ : θ < w)
    (hx0 : x.isZero = false) :
    (2 : ℝ) ^ (x.scale - y.scale - (bits + y.width - x.width : Nat)) ≤
      grain bits * ((|v| + η) / (w - θ)) := by
  have hgap : 0 < w - θ := sub_pos.mpr hθ
  have hlow : w - θ ≤ 2 ^ y.top := by
    have hlower := (abs_le.mp hy.lower).1
    linarith [le_abs_self y.lower, abs_lower_lt y]
  have hexponent : x.scale - y.scale - (bits + y.width - x.width : Nat) ≤
      x.top - bits + -y.top := by
    unfold top
    omega
  calc (2 : ℝ) ^ (x.scale - y.scale - (bits + y.width - x.width : Nat))
      ≤ 2 ^ (x.top - bits + -y.top) := two_zpow_le hexponent
    _ = grain bits * (2 ^ x.top / 2 / 2 ^ y.top) := by
        rw [two_zpow_add, two_zpow_sub_bits, zpow_neg]
        ring
    _ ≤ grain bits * ((|v| + η) / (w - θ)) := by
        refine mul_le_mul_of_nonneg_left ?_ (grain_pos bits).le
        refine div_le_div₀ (add_nonneg (abs_nonneg v) hx.nonneg) ?_ hgap hlow
        linarith [hx.two_zpow_top_le hx0]

/-- The error of an end of a quotient, which is rounded to a unit of it. -/
theorem abs_fdiv_mul_sub_le {m n s t k : Int} {u : ℝ} (hn : 0 < n)
    (hm : |(m : ℝ) * 2 ^ (s - k) - u| ≤ η) (hw : |(n : ℝ) * 2 ^ t - w| ≤ θ) (hθ : θ < w) :
    |((m.fdiv n : Int) : ℝ) * 2 ^ (s - t - k) - u / w| ≤
      (η + |u| * θ / w) / (w - θ) + 2 ^ (s - t - k) := by
  have hquotient := abs_div_sub_le hm hw hθ
  have hsame : (m : ℝ) / n * 2 ^ (s - t - k) = m * 2 ^ (s - k) / (n * 2 ^ t) := by
    rw [show s - t - k = s - k + -t by ring, two_zpow_add, zpow_neg]
    field_simp
  have hround : |((m.fdiv n : Int) : ℝ) * 2 ^ (s - t - k) - m / n * 2 ^ (s - t - k)| ≤
      2 ^ (s - t - k) := by
    rw [← sub_mul, abs_mul, abs_of_pos (two_zpow_pos _)]
    exact mul_le_of_le_one_left (two_zpow_pos _).le (abs_fdiv_sub_le hn)
  have htriangle := abs_sub_le (((m.fdiv n : Int) : ℝ) * 2 ^ (s - t - k))
    (m / n * 2 ^ (s - t - k)) (u / w)
  rw [hsame] at htriangle hround
  linarith

/-- A shift upwards puts a magnitude on a lower scale. -/
theorem shiftLeft_mul_two_zpow (n s : Int) (k : Nat) :
    ((n <<< k : Int) : ℝ) * 2 ^ (s - k) = n * 2 ^ s := by
  rw [Int.shiftLeft_eq, Int.cast_mul, Int.cast_pow, mul_assoc]
  push_cast
  rw [← zpow_natCast, ← two_zpow_add, add_sub_cancel]

/-- The other end of a quotient is rounded upwards. -/
theorem abs_neg_fdiv_mul_sub_le {m n s t k : Int} {u : ℝ} (hn : 0 < n)
    (hm : |(m : ℝ) * 2 ^ (s - k) - u| ≤ η) (hw : |(n : ℝ) * 2 ^ t - w| ≤ θ) (hθ : θ < w) :
    |((-(-m).fdiv n : Int) : ℝ) * 2 ^ (s - t - k) - u / w| ≤
      (η + |u| * θ / w) / (w - θ) + 2 ^ (s - t - k) := by
  have hm' : |((-m : Int) : ℝ) * 2 ^ (s - k) - -u| ≤ η := by
    rwa [Int.cast_neg, neg_mul, sub_neg_eq_add, neg_add_eq_sub, abs_sub_comm]
  have hquotient := abs_fdiv_mul_sub_le hn hm' hw hθ
  rw [neg_div, sub_neg_eq_add, abs_neg] at hquotient
  rwa [Int.cast_neg, neg_mul, ← abs_neg, neg_sub, sub_neg_eq_add, add_comm]

/-- The ends of a quotient, before they are trimmed. -/
def quotientEnds (bits : Nat) (x y : Interval) : Interval :=
  let k := bits + y.width - x.width
  ⟨(x.lo <<< k).fdiv (if 0 ≤ x.lo <<< k then y.hi else y.lo),
    -(-(x.hi <<< k)).fdiv (if 0 ≤ x.hi <<< k then y.lo else y.hi), x.scale - y.scale - k⟩

theorem Within.quotientEnds (hx : Within x v η) (hy : Within y w θ) (hθ : θ < w) (bits : Nat) :
    Within (quotientEnds bits x y) (v / w)
      ((η + |v| * θ / w) / (w - θ) + grain bits * ((|v| + η) / (w - θ))) := by
  have hgap : 0 < w - θ := sub_pos.mpr hθ
  have hlo := hy.lo_pos hθ
  have hhi := hy.hi_pos hθ
  unfold Interval.quotientEnds
  dsimp only
  cases hx0 : x.isZero with
  | true =>
      rw [isZero, Bool.and_eq_true, beq_iff_eq, beq_iff_eq] at hx0
      have hquotient := abs_div_sub_le hx.lower hy.lower hθ
      rw [lower_eq, hx0.1, Int.cast_zero, zero_mul, zero_div] at hquotient
      have hcut : 0 ≤ grain bits * ((|v| + η) / (w - θ)) :=
        mul_nonneg (grain_pos bits).le
          (div_nonneg (add_nonneg (abs_nonneg v) hx.nonneg) hgap.le)
      have hle := hquotient.trans (le_add_of_nonneg_right hcut)
      rw [hx0.1, hx0.2, Int.zero_shiftLeft, neg_zero, Int.zero_fdiv, Int.zero_fdiv, neg_zero]
      constructor
      · rwa [lower_eq, Int.cast_zero, zero_mul]
      · rwa [upper_eq, Int.cast_zero, zero_mul]
  | false =>
      have hunit : (2 : ℝ) ^ (x.scale - y.scale - (bits + y.width - x.width : Nat)) ≤
          grain bits * ((|v| + η) / (w - θ)) := quotient_unit_le hx hy hθ hx0
      -- the numerator is shifted until the quotient has as many bits as are asked for
      generalize bits + y.width - x.width = k at hunit ⊢
      have hlower : |((x.lo <<< k : Int) : ℝ) * 2 ^ (x.scale - k) - v| ≤ η := by
        rw [shiftLeft_mul_two_zpow]
        exact hx.lower
      have hupper : |((x.hi <<< k : Int) : ℝ) * 2 ^ (x.scale - k) - v| ≤ η := by
        rw [shiftLeft_mul_two_zpow]
        exact hx.upper
      constructor
      · -- which end of the divisor gives the least quotient depends on the sign of the numerator
        rw [lower_eq]
        dsimp only
        split
        · exact (abs_fdiv_mul_sub_le hhi hlower hy.upper hθ).trans (add_le_add_right hunit _)
        · exact (abs_fdiv_mul_sub_le hlo hlower hy.lower hθ).trans (add_le_add_right hunit _)
      · rw [upper_eq]
        dsimp only
        split
        · exact (abs_neg_fdiv_mul_sub_le hlo hupper hy.lower hθ).trans (add_le_add_right hunit _)
        · exact (abs_neg_fdiv_mul_sub_le hhi hupper hy.upper hθ).trans (add_le_add_right hunit _)

/-- **The error of a quotient** is that of the operands, and three grains of the largest quotient. -/
theorem Within.divPositive (hx : Within x v η) (hy : Within y w θ) (hθ : θ < w) (hbits : 1 ≤ bits) :
    Within (x.divPositive bits y) (v / w)
      ((η + |v| * θ / w) / (w - θ) + 3 * (grain bits * ((|v| + η) / (w - θ)))) := by
  have hw : 0 < w := hy.nonneg.trans_lt hθ
  have hgap : 0 < w - θ := sub_pos.mpr hθ
  have hcut : 0 ≤ grain bits * ((|v| + η) / (w - θ)) :=
    mul_nonneg (grain_pos bits).le (div_nonneg (add_nonneg (abs_nonneg v) hx.nonneg) hgap.le)
  have hdeviation : |v| / w + (η + |v| * θ / w) / (w - θ) = (|v| + η) / (w - θ) := by
    field_simp
    ring
  have hgrain : grain bits * (grain bits * ((|v| + η) / (w - θ))) ≤
      grain bits * ((|v| + η) / (w - θ)) := mul_le_of_le_one_left hcut (grain_le_one hbits)
  refine ((hx.quotientEnds hy hθ bits).trim bits).mono ?_
  rw [abs_div, abs_of_pos hw, ← add_assoc, hdeviation, mul_add]
  linarith

/-- The quotient by a natural number. -/
theorem Within.divNat (hx : Within x v η) {n : Nat} (hn : 0 < n) (hbits : 1 ≤ bits) :
    Within (x.divNat bits n) (v / n) (η / n + 3 * (grain bits * ((|v| + η) / n))) := by
  have hpos : (0 : ℝ) < (n : Int) := by exact_mod_cast hn
  have hquotient := hx.divPositive (within_ofInt n) hpos hbits
  simp only [mul_zero, zero_div, add_zero, sub_zero, Int.cast_natCast] at hquotient
  exact hquotient

/-- **The quotient by a number that is not zero** is defined, if the divisor is closer than zero. -/
theorem Within.div (hx : Within x v η) (hy : Within y w θ) (hθ : θ < |w|) (hbits : 1 ≤ bits) :
    ∃ q, x.div bits y = some q ∧ Within q (v / w)
      ((η + |v| * θ / |w|) / (|w| - θ) + 3 * (grain bits * ((|v| + η) / (|w| - θ)))) := by
  unfold Interval.div
  rcases lt_or_gt_of_ne (abs_pos.mp (hy.nonneg.trans_lt hθ)) with hw | hw
  · rw [abs_of_neg hw] at hθ ⊢
    have hlo : 0 < -y.lo := hy.neg.hi_pos hθ
    have hhi : 0 < -y.hi := hy.neg.lo_pos hθ
    rw [if_neg (by omega), if_pos (by omega)]
    have hquotient := hx.neg.divPositive hy.neg hθ hbits
    rw [neg_div_neg_eq, abs_neg] at hquotient
    exact ⟨_, rfl, hquotient⟩
  · rw [abs_of_pos hw] at hθ ⊢
    rw [if_pos (hy.lo_pos hθ)]
    exact ⟨_, rfl, hx.divPositive hy hθ hbits⟩

/-- The error of a quotient as a fraction of it, from those of the operands. -/
theorem Within.div_relative {ε δ : ℝ} (hx : Within x v (ε * |v|)) (hy : Within y w (δ * |w|))
    (hw : w ≠ 0) (hδ : δ < 1) (hbits : 1 ≤ bits) :
    ∃ q, x.div bits y = some q ∧
      Within q (v / w) ((ε + δ + 3 * (grain bits * (1 + ε))) / (1 - δ) * |v / w|) := by
  have hw0 : 0 < |w| := abs_pos.mpr hw
  have hgap : 0 < 1 - δ := sub_pos.mpr hδ
  obtain ⟨q, hq, hnear⟩ := hx.div hy (mul_lt_of_lt_one_left hw0 hδ) hbits
  refine ⟨q, hq, hnear.mono (le_of_eq ?_)⟩
  have hrest : |w| - δ * |w| = (1 - δ) * |w| := by ring
  rw [hrest, abs_div]
  field_simp

/-- Roots of numbers from one on are closer to each other than the numbers. -/
theorem abs_sqrt_sub_le {a : ℝ} (ha : 0 ≤ a) (hv : 1 ≤ v) (h : |a - v| ≤ η) : |√a - √v| ≤ η := by
  have hroot : 1 ≤ √v := Real.one_le_sqrt.mpr hv
  have hfactor : |√a - √v| * (√a + √v) = |a - v| := by
    have hsquares : (√a - √v) * (√a + √v) = √a * √a - √v * √v := by ring
    rw [← abs_of_nonneg (add_nonneg (Real.sqrt_nonneg a) (Real.sqrt_nonneg v)), ← abs_mul,
      hsquares, Real.mul_self_sqrt ha, Real.mul_self_sqrt (zero_le_one.trans hv)]
  have hle : |√a - √v| * 1 ≤ |√a - √v| * (√a + √v) :=
    mul_le_mul_of_nonneg_left (by linarith [Real.sqrt_nonneg a]) (abs_nonneg _)
  linarith

/-- An end of a root, in a unit of it. -/
theorem abs_root_mul_sub_le {n s e : Int} {k r : Nat} (hv : 1 ≤ v)
    (hn : |(n : ℝ) * 2 ^ s - v| ≤ η) (he : s - k = e + e)
    (hr : |(r : ℝ) - √((n.toNat <<< k : Nat) : ℝ)| ≤ 1) :
    |((r : Int) : ℝ) * 2 ^ e - √v| ≤ η + 2 ^ e := by
  have hnonneg : (0 : ℝ) ≤ n.toNat * 2 ^ s := mul_nonneg (Nat.cast_nonneg _) (two_zpow_pos s).le
  have hclose : |(n.toNat : ℝ) * 2 ^ s - v| ≤ η := by
    rcases le_total 0 n with h | h
    · rwa [← Int.cast_natCast, Int.toNat_of_nonneg h]
    · -- an end below zero is read as zero, which is closer
      have hbelow : (n : ℝ) * 2 ^ s ≤ 0 :=
        mul_nonpos_of_nonpos_of_nonneg (Int.cast_nonpos.mpr h) (two_zpow_pos s).le
      rw [Int.toNat_of_nonpos h, Nat.cast_zero, zero_mul, zero_sub, abs_neg, abs_of_pos (by linarith)]
      linarith [(abs_le.mp hn).1]
  have hscaled : √((n.toNat <<< k : Nat) : ℝ) * 2 ^ e = √(n.toNat * 2 ^ s) := by
    have hunit : (2 : ℝ) ^ e = √(2 ^ (s - k)) := by
      rw [he, two_zpow_add, Real.sqrt_mul_self (two_zpow_pos e).le]
    rw [hunit, ← Real.sqrt_mul (Nat.cast_nonneg _)]
    congr 1
    have hshift := shiftLeft_mul_two_zpow n.toNat s k
    rw [Int.cast_natCast] at hshift
    rw [← hshift]
    norm_cast
  have hround : |(r : ℝ) * 2 ^ e - √((n.toNat <<< k : Nat) : ℝ) * 2 ^ e| ≤ 2 ^ e := by
    rw [← sub_mul, abs_mul, abs_of_pos (two_zpow_pos e)]
    exact mul_le_of_le_one_left (two_zpow_pos e).le hr
  have htriangle := abs_sub_le ((r : ℝ) * 2 ^ e) (√((n.toNat <<< k : Nat) : ℝ) * 2 ^ e) (√v)
  have hroots := abs_sqrt_sub_le hnonneg hv hclose
  rw [hscaled] at htriangle hround
  rw [Int.cast_natCast]
  linarith

/-- The unit that a root is computed to. -/
theorem root_unit_le (hx : Within x v η) (hx0 : x.isZero = false) (hv : 1 ≤ v) {e : Int} {k : Nat}
    (hk : 2 * bits - x.width ≤ k) (he : x.scale - k = e + e) :
    (2 : ℝ) ^ e ≤ grain bits * (v + η) := by
  have hη := hx.nonneg
  have hsize : 0 ≤ grain bits * (v + η) := mul_nonneg (grain_pos bits).le (by linarith)
  refine (mul_self_le_mul_self_iff (two_zpow_pos e).le hsize).mpr ?_
  have hexponent : e + e ≤ x.top - bits - bits := by
    unfold top
    omega
  have htop := hx.two_zpow_top_le hx0
  rw [abs_of_pos (by linarith)] at htop
  rw [← two_zpow_add]
  calc (2 : ℝ) ^ (e + e) ≤ 2 ^ (x.top - bits - bits) := two_zpow_le hexponent
    _ = grain bits * grain bits * (2 ^ x.top / 4) := by
        rw [two_zpow_sub_bits, two_zpow_sub_bits]
        ring
    _ ≤ grain bits * grain bits * ((v + η) * (v + η)) := by
        refine mul_le_mul_of_nonneg_left ?_ (mul_nonneg (grain_pos bits).le (grain_pos bits).le)
        have hone : (v + η) * 1 ≤ (v + η) * (v + η) :=
          mul_le_mul_of_nonneg_left (by linarith) (by linarith)
        linarith
    _ = grain bits * (v + η) * (grain bits * (v + η)) := by ring

theorem abs_natSqrt_sub_le (n : Nat) : |(n.sqrt : ℝ) - √(n : ℝ)| ≤ 1 := by
  have hlow := Real.nat_sqrt_le_real_sqrt (a := n)
  have hhigh := Real.real_sqrt_lt_nat_sqrt_succ (a := n)
  rw [abs_le]
  constructor <;> linarith

theorem abs_natSqrtUp_sub_le (n : Nat) :
    |((if n.sqrt * n.sqrt = n then n.sqrt else n.sqrt + 1 : Nat) : ℝ) - √(n : ℝ)| ≤ 1 := by
  split
  · exact abs_natSqrt_sub_le n
  · have hlow := Real.nat_sqrt_le_real_sqrt (a := n)
    have hhigh := Real.real_sqrt_lt_nat_sqrt_succ (a := n)
    rw [Nat.cast_add, Nat.cast_one, abs_le]
    constructor <;> linarith

/-- **The error of a root** of a number from one on is that of the number, and three grains. -/
theorem Within.sqrt (hx : Within x v η) (hv : 1 ≤ v) (hη : η < v) (hbits : 1 ≤ bits) :
    ∃ r, x.sqrt bits = some r ∧ Within r (√v) (η + 3 * (grain bits * (v + η))) := by
  have hx0 : x.isZero = false := hx.isZero_eq_false (by rwa [abs_of_pos (by linarith)])
  have hcut : 0 ≤ grain bits * (v + η) :=
    mul_nonneg (grain_pos bits).le (by linarith [hx.nonneg])
  unfold Interval.sqrt
  rw [if_neg (not_lt.mpr (hx.hi_pos hη).le)]
  dsimp only
  generalize hkept : (if (x.scale - (2 * bits - x.width : Nat)) % 2 = 0 then 2 * bits - x.width
    else 2 * bits - x.width + 1) = k
  -- by one bit more, where the exponent would be odd
  have heven : x.scale - k = (x.scale - k) / 2 + (x.scale - k) / 2 := by
    split at hkept <;> omega
  have hk : 2 * bits - x.width ≤ k := by
    split at hkept <;> omega
  have hunit := root_unit_le hx hx0 hv hk heven
  refine ⟨_, rfl, ?_⟩
  have hwithin : Within ⟨((x.lo.toNat <<< k).sqrt : Nat),
      ((if (x.hi.toNat <<< k).sqrt * (x.hi.toNat <<< k).sqrt = x.hi.toNat <<< k
        then (x.hi.toNat <<< k).sqrt else (x.hi.toNat <<< k).sqrt + 1 : Nat) : Int),
      (x.scale - k) / 2⟩ (√v) (η + grain bits * (v + η)) :=
    ⟨(abs_root_mul_sub_le hv hx.lower heven (abs_natSqrt_sub_le _)).trans (by linarith),
      (abs_root_mul_sub_le hv hx.upper heven (abs_natSqrtUp_sub_le _)).trans (by linarith)⟩
  refine (hwithin.trim bits).mono ?_
  have hroot : √v ≤ v := by
    rw [Real.sqrt_le_left (by linarith), pow_two]
    exact le_mul_of_one_le_left (by linarith) hv
  have hgrain : grain bits * (grain bits * (v + η)) ≤ grain bits * (v + η) :=
    mul_le_of_le_one_left hcut (grain_le_one hbits)
  rw [abs_of_nonneg (Real.sqrt_nonneg v)]
  have hsplit := mul_le_mul_of_nonneg_left hroot (grain_pos bits).le
  linarith

/-! ## Series -/

/-- Every number of at most twice the size of a small interval is small. -/
theorem Within.spread (h : Within x 0 η) : Within x.spread 0 (2 * η) := by
  have hbound : ((2 * max x.lo.natAbs x.hi.natAbs : Nat) : ℝ) * 2 ^ x.scale ≤ 2 * η := by
    have hlower := h.lower
    have hupper := h.upper
    rw [sub_zero, lower_eq, abs_mul, abs_of_pos (two_zpow_pos _)] at hlower
    rw [sub_zero, upper_eq, abs_mul, abs_of_pos (two_zpow_pos _)] at hupper
    rw [Nat.cast_mul, Nat.cast_ofNat, mul_assoc, Nat.cast_max, Nat.cast_natAbs, Nat.cast_natAbs]
    refine mul_le_mul_of_nonneg_left ?_ (by norm_num)
    rcases max_choice ((|x.lo| : Int) : ℝ) ((|x.hi| : Int) : ℝ) with h | h <;> rw [h, Int.cast_abs] <;>
      assumption
  have hnonneg : 0 ≤ ((2 * max x.lo.natAbs x.hi.natAbs : Nat) : ℝ) * 2 ^ x.scale :=
    mul_nonneg (Nat.cast_nonneg _) (two_zpow_pos _).le
  constructor
  · rw [sub_zero, lower_eq, Interval.spread, ← abs_neg]
    dsimp only
    rw [Int.cast_neg, neg_mul, neg_neg, Int.cast_natCast, abs_of_nonneg hnonneg]
    exact hbound
  · rw [sub_zero, upper_eq, Interval.spread]
    dsimp only
    rw [Int.cast_natCast, abs_of_nonneg hnonneg]
    exact hbound

/-- **The sum of a series** whose terms fall to a third at least: all that is added to a partial sum is
twice the next term, and two grains for each addition. -/
theorem Within.series {step part : Nat → Interval → Interval} {sum term : Interval} {n k : Nat}
    (hstep : ∀ (n : Nat) (t : Interval) (m : ℝ), 0 < n → Within t 0 m → Within (step n t) 0 (m / 3))
    (hpart : ∀ (n : Nat) (t : Interval) (m : ℝ), 0 < n → Within t 0 m → Within (part n t) 0 m)
    (hsum : Within sum v η) (hterm : Within term 0 θ) (hn : 0 < n)
    (hM : |v| + η + 2 * θ + (k + 1) * (2 * (grain bits * M)) ≤ M) (hpos : 0 ≤ M) :
    Within (series bits step part k n term sum) v
      (η + 2 * θ + (k + 1) * (2 * (grain bits * M))) := by
  have hcut := mul_nonneg (grain_pos bits).le hpos
  -- what a sum that is broken off comes to
  have hlast : ∀ {s t : Interval} {α β : ℝ}, Within s v α → Within t 0 β → |v| + α + 2 * β ≤ M →
      Within (s.add bits t.spread) v (α + 2 * β + 2 * (grain bits * M)) := by
    intro s t α β hs ht hle
    have hα := hs.nonneg
    have hβ := ht.nonneg
    have hadd := hs.add ht.spread (M := M) (by linarith) (by rw [abs_zero]; linarith [abs_nonneg v]) bits
    rwa [add_zero] at hadd
  induction k generalizing sum term n η θ with
  | zero =>
      unfold Interval.series
      have hsmall := hlast hsum hterm (by push_cast at hM; linarith)
      refine hsmall.mono (le_of_eq ?_)
      push_cast
      ring
  | succ k ih =>
      have hcount : (0 : ℝ) ≤ (k + 1) * (2 * (grain bits * M)) := by positivity
      push_cast at hM ⊢
      unfold Interval.series
      split
      · exact (hlast hsum hterm (by linarith)).mono (by linarith)
      · have hη := hsum.nonneg
        have hθ := hterm.nonneg
        have hadd := hsum.add (hpart n term θ hn hterm) (M := M) (by linarith)
          (by rw [abs_zero]; linarith [abs_nonneg v]) bits
        rw [add_zero] at hadd
        refine (ih hadd (hstep n term θ hn hterm) (Nat.succ_pos n) ?_).mono ?_ <;> linarith

/-- A series that is not zero begins with its first part. -/
theorem series_start {step part : Nat → Interval → Interval} {term : Interval} {fuel : Nat}
    (hterm : term.isZero = false) :
    series bits step part (fuel + 1) 0 term (ofInt 0) =
      series bits step part fuel 1 (step 0 term) (part 0 term) := by
  have hzero : (ofInt 0).isZero = true := rfl
  rw [series, hterm, hzero, add, if_pos hzero]
  rfl

/-- A series goes on as long as its terms are not much smaller than the sum. -/
theorem series_next {step part : Nat → Interval → Interval} {sum term : Interval} {n k : Nat}
    (hterm : term.isZero = false) (hlarge : sum.top ≤ term.top + bits) :
    series bits step part (k + 1) n term sum =
      series bits step part k (n + 1) (step n term) (add bits sum (part n term)) := by
  have hgoes : (!sum.isZero && decide (term.top + bits < sum.top)) = false := by
    rw [decide_eq_false (not_lt.mpr hlarge), Bool.and_false]
  rw [series, hterm, hgoes]
  rfl

/-! ## Working precisions -/

theorem grain_le (hbits : 64 ≤ bits) : grain bits ≤ 1 / 10 ^ 18 := by
  calc grain bits ≤ 2 ^ (-63 : Int) := two_zpow_le (by omega)
    _ ≤ 1 / 10 ^ 18 := by norm_num

/-- The grains of all additions in a series come to little. -/
theorem mul_grain_le (hbits : 64 ≤ bits) : (bits + 20 : ℝ) * grain bits ≤ 1 / 10 ^ 6 := by
  have hlt : bits - 24 < 2 ^ (bits - 24) := Nat.lt_two_pow_self
  have hle : ((bits + 20 : Nat) : ℝ) ≤ ((4 * 2 ^ (bits - 24) : Nat) : ℝ) := by
    refine Nat.cast_le.mpr ?_
    omega
  have hpower : ((4 * 2 ^ (bits - 24) : Nat) : ℝ) = 2 ^ ((bits : Int) - 22) := by
    rw [show (bits : Int) - 22 = 2 + ((bits - 24 : Nat) : Int) by omega, two_zpow_add, zpow_natCast]
    norm_num
  rw [hpower] at hle
  push_cast at hle
  calc (bits + 20 : ℝ) * grain bits ≤ 2 ^ ((bits : Int) - 22) * grain bits :=
        mul_le_mul_of_nonneg_right hle (grain_pos bits).le
    _ = 2 ^ (-21 : Int) := by
        rw [grain_eq, ← two_zpow_add]
        congr 1
        ring
    _ ≤ 1 / 10 ^ 6 := by norm_num

end Interval

end DecimalCalc
