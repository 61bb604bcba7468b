import DecimalCalc.Enclosure.Trigonometric
import DecimalCalc.Proofs.IntervalErrors

/-!
# Angles are always enclosed

The direction of a point is enclosed with any working precision from sixty-four bits on, by an interval
that leaves no doubt about its sign. The bounds are coarse: it is enough to know how large the result is
that a series starts with, and that what is added to it later is less.
-/

set_option autoImplicit false

namespace DecimalCalc

namespace Interval

variable {bits : Nat} {x y z : Interval} {v w ε η θ : ℝ}

/-- An interval close to a number is not far from zero. -/
theorem Within.small (h : Within x v η) : Within x 0 (|v| + η) := by
  constructor
  · rw [sub_zero]
    exact h.abs_lower_le
  · rw [sub_zero]
    exact h.abs_upper_le

theorem Within.mul_small (hx : Within x 0 η) (hy : Within y 0 θ) (bits : Nat) :
    Within (x.mul bits y) 0 ((1 + grain bits) * (η * θ)) := by
  have hmul := hx.mul hy bits
  rw [abs_zero, mul_zero] at hmul
  exact hmul.mono (le_of_eq (by ring))

theorem Within.divNat_small (hx : Within x 0 η) {n : Nat} (hn : 0 < n) (hbits : 1 ≤ bits) :
    Within (x.divNat bits n) 0 ((1 + 3 * grain bits) * (η / n)) := by
  have hdiv := hx.divNat hn hbits
  rw [abs_zero, zero_div] at hdiv
  exact hdiv.mono (le_of_eq (by ring))

theorem Within.neg_small (hx : Within x 0 η) : Within x.neg 0 η := by
  have hneg := hx.neg
  rwa [neg_zero] at hneg

/-- A quotient by a natural number from two on is smaller. -/
theorem Within.divNat_le (hx : Within x 0 η) {n : Nat} (hn : 2 ≤ n) (hbits : 64 ≤ bits) :
    Within (x.divNat bits n) 0 η := by
  have hη := hx.nonneg
  have hg := grain_le hbits
  have hcast : (2 : ℝ) ≤ n := by exact_mod_cast hn
  refine (hx.divNat_small (by omega) (by omega)).mono ?_
  calc (1 + 3 * grain bits) * (η / n) ≤ 2 * (η / 2) := by
        refine mul_le_mul (by linarith) ?_ (by positivity) (by norm_num)
        exact div_le_div_of_nonneg_left hη (by norm_num) hcast
    _ = η := by ring

/-- The first part of an odd series is its first term, divided by one. -/
theorem Within.divNat_one (hx : Within x v η) (hbits : 1 ≤ bits) :
    Within (x.divNat bits (2 * 0 + 1)) v (η + 3 * (grain bits * (|v| + η))) := by
  have hdiv := hx.divNat (n := 2 * 0 + 1) Nat.one_pos hbits
  simpa using hdiv

/-- An interval close to a positive number, as a fraction of it, lies above zero. -/
theorem Within.lo_pos_of_pos (h : Within x v (ε * |v|)) (hε : ε < 1) (hv : 0 < v) : 0 < x.lo := by
  refine h.lo_pos ?_
  rw [abs_of_pos hv]
  exact mul_lt_of_lt_one_left hv hε

/-- An interval close to a negative number, as a fraction of it, lies below zero. -/
theorem Within.ends_neg_of_neg (h : Within x v (ε * |v|)) (hε : ε < 1) (hv : v < 0) :
    x.lo < 0 ∧ x.hi < 0 := by
  have hlt : ε * |v| < -v := by
    rw [abs_of_neg hv]
    exact mul_lt_of_lt_one_left (neg_pos.mpr hv) hε
  have hlo : 0 < -x.lo := h.neg.hi_pos hlt
  have hhi : 0 < -x.hi := h.neg.lo_pos hlt
  omega

/-! ## π -/

/-- A term of the series of an inverse is much smaller than the one before it. -/
theorem Within.divNat_square (hx : Within x 0 η) (hbits : 64 ≤ bits) {q : Nat} (hq : 5 ≤ q) :
    Within (x.divNat bits (q * q)).neg 0 (η / 24) := by
  have hη := hx.nonneg
  have hg := grain_le hbits
  have hsquare : (25 : ℝ) ≤ (q * q : Nat) := by exact_mod_cast Nat.mul_le_mul hq hq
  refine (hx.divNat_small (by positivity) (by omega)).neg_small.mono ?_
  calc (1 + 3 * grain bits) * (η / (q * q : Nat)) ≤ 25 / 24 * (η / 25) :=
        mul_le_mul (by linarith) (div_le_div_of_nonneg_left hη (by norm_num) hsquare)
          (by positivity) (by norm_num)
    _ = η / 24 := by ring

theorem within_arctanInverse (hbits : 64 ≤ bits) {q : Nat} (hq : 5 ≤ q) :
    Within (arctanInverse bits q) (1 / q) (1 / q / 11 + 1 / 10 ^ 5) := by
  have hone : 1 ≤ bits := by omega
  have hg := grain_le hbits
  have hg0 := grain_pos bits
  have hcast : (5 : ℝ) ≤ q := by exact_mod_cast hq
  -- the power of the inverse that the series starts from
  have hfirst : Within (divNat bits (ofInt 1) q) (1 / q) (3 * (grain bits * (1 / q))) := by
    have hdiv := (within_ofInt 1).divNat (n := q) (by omega) hone
    simpa using hdiv
  have hfifth : 1 / (q : ℝ) ≤ 1 / 5 := one_div_le_one_div_of_le (by norm_num) hcast
  have hpos : 0 < 1 / (q : ℝ) := one_div_pos.mpr (by linarith)
  -- from here on only `0 < c ≤ 1 / 5` is used of the inverse
  generalize 1 / (q : ℝ) = c at *
  have hgc : grain bits * c ≤ c / 10 ^ 18 := by
    rw [div_eq_mul_one_div, mul_comm]
    exact mul_le_mul_of_nonneg_left hg hpos.le
  have hterm : Within ((divNat bits (divNat bits (ofInt 1) q) (q * q)).neg) 0 (c / 23) := by
    refine (hfirst.small.divNat_square hbits hq).mono ?_
    rw [abs_of_pos hpos]
    linarith
  have hsum : Within (divNat bits (divNat bits (ofInt 1) q) (2 * 0 + 1)) c (1 / 10 ^ 6) := by
    refine (hfirst.divNat_one hone).mono ?_
    rw [abs_of_pos hpos]
    have hgrain : grain bits * (c + 3 * (grain bits * c)) ≤ grain bits * 1 :=
      mul_le_mul_of_nonneg_left (by linarith) hg0.le
    linarith
  have hnonzero : (divNat bits (ofInt 1) q).isZero = false := by
    refine hfirst.isZero_eq_false ?_
    rw [abs_of_pos hpos]
    linarith
  have hfuel := mul_grain_le hbits
  unfold arctanInverse
  rw [show bits + 20 = bits + 19 + 1 from rfl, series_start hnonzero]
  -- each pass divides the power by the square once more, and adds the quotient by an odd number
  refine (Within.series (k := bits + 19) (M := 1)
    (fun n t m _ ht => (ht.divNat_square hbits hq).mono (by linarith [ht.nonneg]))
    (fun n t m hn ht => ht.divNat_le (by omega) hbits) hsum hterm Nat.one_pos ?_ zero_le_one).mono ?_
  · push_cast
    rw [abs_of_pos hpos]
    linarith
  · push_cast
    linarith

/-- **The enclosure of π**, coarsely. -/
theorem within_pi (hbits : 64 ≤ bits) : Within (pi bits) (16 / 5 - 4 / 239) (3 / 10) := by
  have hg := grain_le hbits
  have hfive := (within_arctanInverse hbits (q := 5) (by decide)).shift 4
  have hlarge := ((within_arctanInverse hbits (q := 239) (by decide)).shift 2).neg
  have hsum := hfive.add hlarge (M := 4) (by norm_num) (by norm_num) bits
  unfold pi sub
  have hvalue : (1 / (5 : Nat) : ℝ) * 2 ^ (4 : Int) + -(1 / (239 : Nat) * 2 ^ (2 : Int)) =
      16 / 5 - 4 / 239 := by norm_num
  rw [← hvalue]
  refine hsum.mono ?_
  norm_num
  linarith

/-! ## Halving an angle -/

/-- The tangent of half the angle of a tangent. -/
noncomputable def halved (v : ℝ) : ℝ := v / (1 + √(1 + v * v))

theorem one_le_root (v : ℝ) : 1 ≤ √(1 + v * v) :=
  Real.one_le_sqrt.mpr (by linarith [mul_self_nonneg v])

theorem abs_halved (v : ℝ) : |halved v| = |v| / (1 + √(1 + v * v)) := by
  have hroot := one_le_root v
  rw [halved, abs_div, abs_of_pos (a := 1 + √(1 + v * v)) (by linarith)]

theorem abs_halved_le (v : ℝ) : |halved v| ≤ |v| / 2 := by
  rw [abs_halved]
  exact div_le_div_of_nonneg_left (abs_nonneg v) (by norm_num) (by linarith [one_le_root v])

theorem mul_self_le (hv : |v| ≤ 201 / 100) : v * v ≤ 201 / 100 * (201 / 100) := by
  rw [← abs_mul_abs_self v]
  exact mul_self_le_mul_self (abs_nonneg v) hv

theorem root_le (hv : |v| ≤ 201 / 100) : √(1 + v * v) ≤ 9 / 4 := by
  rw [Real.sqrt_le_left (by norm_num)]
  linarith [mul_self_le hv]

theorem le_abs_halved (hv : |v| ≤ 201 / 100) : |v| / 4 ≤ |halved v| := by
  rw [abs_halved]
  refine div_le_div_of_nonneg_left (abs_nonneg v) ?_ ?_
  · linarith [one_le_root v]
  · linarith [root_le hv]

/-- The half of an angle whose tangent is not much above two. -/
theorem abs_halved_le_of_le (hv : |v| ≤ 201 / 100) : |halved v| ≤ 5 / 8 := by
  have hroot : 1115 / 1000 * |v| ≤ √(1 + v * v) := by
    refine Real.le_sqrt_of_sq_le ?_
    rw [mul_pow, sq_abs, pow_two v]
    linarith [mul_self_le hv]
  rw [abs_halved, div_le_iff₀ (by linarith [one_le_root v])]
  linarith

theorem halved_pos (hv : 0 < v) : 0 < halved v :=
  div_pos hv (by linarith [one_le_root v])

theorem halved_neg (hv : v < 0) : halved v < 0 :=
  div_neg_of_neg_of_pos hv (by linarith [one_le_root v])

/-- The square of a tangent that is not much above two. -/
theorem Within.square (hz : Within z v (ε * |v|)) (hv : |v| ≤ 201 / 100) (hgrain : grain bits ≤ ε)
    (hε : ε ≤ 1 / 1000) : Within (z.mul bits z) (v * v) (17 * ε) := by
  have hε0 : 0 ≤ ε := (grain_pos bits).le.trans hgrain
  refine (hz.mul hz bits).mono ?_
  have hfactor : 2 * ε + ε * ε + grain bits * ((1 + ε) * (1 + ε)) ≤ 4 * ε := by
    have htwice := mul_le_mul_of_nonneg_left hε hε0
    have hgrown : grain bits * ((1 + ε) * (1 + ε)) ≤ ε * ((1 + 1 / 1000) * (1 + 1 / 1000)) := by
      refine mul_le_mul hgrain ?_ (by positivity) hε0
      exact mul_self_le_mul_self (by linarith) (by linarith)
    linarith
  calc ε * |v| * |v| + |v| * (ε * |v|) + ε * |v| * (ε * |v|) +
        grain bits * ((|v| + ε * |v|) * (|v| + ε * |v|))
      = (2 * ε + ε * ε + grain bits * ((1 + ε) * (1 + ε))) * (|v| * |v|) := by ring
    _ ≤ 4 * ε * (201 / 100 * (201 / 100)) := by
        rw [abs_mul_abs_self]
        exact mul_le_mul hfactor (mul_self_le hv) (mul_self_nonneg v) (by positivity)
    _ ≤ 17 * ε := by linarith

/-- What the tangent of an angle is divided by for that of its half. -/
theorem exists_halfDivisor (hbits : 64 ≤ bits) (hz : Within z v (ε * |v|)) (hv : |v| ≤ 201 / 100)
    (hgrain : grain bits ≤ ε) (hε : ε ≤ 1 / 1000) :
    ∃ root, sqrt bits (add bits (mul bits z z) (ofInt 1)) = some root ∧
      Within (add bits root (ofInt 1)) (1 + √(1 + v * v)) (53 / 2 * ε * |1 + √(1 + v * v)|) := by
  have hε0 : 0 ≤ ε := (grain_pos bits).le.trans hgrain
  have hbound := mul_self_le hv
  have hnonneg := mul_self_nonneg v
  have hroot := one_le_root v
  have hroot' := root_le hv
  -- what stands under the root
  have hsum : Within (add bits (mul bits z z) (ofInt 1)) (1 + v * v) (29 * ε) := by
    have hadd := (hz.square hv hgrain hε).add (within_ofInt 1) (M := 6)
      (by rw [abs_of_nonneg hnonneg]; linarith) (by norm_num) bits
    rw [Int.cast_one, add_comm (v * v)] at hadd
    exact hadd.mono (by linarith)
  obtain ⟨root, hsqrt, hnear⟩ := hsum.sqrt (by linarith) (by linarith) (by omega : 1 ≤ bits)
  have hdivisor : Within (add bits root (ofInt 1)) (1 + √(1 + v * v)) (53 * ε) := by
    have hgrown : grain bits * (1 + v * v + 29 * ε) ≤ ε * (51 / 10) :=
      mul_le_mul hgrain (by linarith) (by linarith) hε0
    have hadd := hnear.add (within_ofInt 1) (M := 4)
      (by rw [abs_of_pos (by linarith)]; linarith) (by norm_num) bits
    rw [Int.cast_one, add_comm (√(1 + v * v))] at hadd
    exact hadd.mono (by linarith)
  -- the divisor is at least two, so that its error is a relative one
  refine ⟨root, hsqrt, hdivisor.mono ?_⟩
  rw [abs_of_pos (by linarith)]
  have hscaled := mul_le_mul_of_nonneg_left (by linarith : 2 ≤ 1 + √(1 + v * v)) hε0
  linarith

/-- **Half an angle** is enclosed. -/
theorem exists_halfTangent (hbits : 64 ≤ bits) (hz : Within z v (ε * |v|)) (hv : |v| ≤ 201 / 100)
    (hgrain : grain bits ≤ ε) (hε : ε ≤ 1 / 1000) :
    ∃ t, halfTangent bits z = some t ∧ Within t (halved v) (100 * ε * |halved v|) := by
  have hε0 : 0 ≤ ε := (grain_pos bits).le.trans hgrain
  have hroot := one_le_root v
  obtain ⟨root, hsqrt, hdivisor⟩ := exists_halfDivisor hbits hz hv hgrain hε
  obtain ⟨t, hdiv, ht⟩ := hz.div_relative hdivisor (by linarith) (by linarith) (by omega : 1 ≤ bits)
  refine ⟨t, ?_, ht.mono ?_⟩
  · unfold halfTangent
    rw [hsqrt]
    exact hdiv
  · refine mul_le_mul_of_nonneg_right ?_ (abs_nonneg _)
    have hgrown : grain bits * (1 + ε) ≤ ε * 2 := mul_le_mul hgrain (by linarith) (by linarith) hε0
    rw [div_le_iff₀ (by linarith)]
    have hscaled := mul_le_mul_of_nonneg_left hε hε0
    linarith

/-! ## Arcus tangent -/

/-- There is nothing but zeros to add in the series of zero. -/
theorem within_arctanSeries_of_isZero (hz : Within z v (ε * |v|)) (hε : ε < 1)
    (hz0 : z.isZero = true) : Within (arctanSeries bits z) v (|v| / 10) := by
  have hzero : |v| = 0 := by
    have hle := hz.abs_le_of_isZero hz0
    by_contra hne
    have hpos : 0 < |v| := (abs_nonneg v).lt_of_ne' hne
    linarith [mul_lt_of_lt_one_left hpos hε]
  have hempty : (ofInt 0).isZero = true := rfl
  unfold arctanSeries
  dsimp only
  rw [show bits + 20 = bits + 19 + 1 from rfl, series, hz0, Bool.true_or, if_pos rfl, add,
    if_pos hempty]
  rw [abs_eq_zero.mp hzero, abs_zero, mul_zero] at hz
  rw [abs_eq_zero.mp hzero, abs_zero, zero_div]
  simpa using hz.spread

/-- **The series of the arcus tangent** stays close to its first term, for small tangents. -/
theorem within_arctanSeries (hbits : 64 ≤ bits) (hz : Within z v (ε * |v|)) (hv : |v| ≤ 4 / 25)
    (hε : ε ≤ 1 / 1000) : Within (arctanSeries bits z) v (|v| / 10) := by
  cases hz0 : z.isZero with
  | true => exact within_arctanSeries_of_isZero hz (by linarith) hz0
  | false =>
  have hg := grain_le hbits
  have hv0 := abs_nonneg v
  have hscaled := mul_le_mul_of_nonneg_right hε hv0
  have hsmall : Within z 0 (1001 / 1000 * |v|) := hz.small.mono (by linarith)
  have hsquare : Within (mul bits z z).neg 0 (1 / 35) := by
    refine ((hsmall.mul_small hsmall bits).neg_small).mono ?_
    have hbound := mul_self_le_mul_self (by positivity : 0 ≤ 1001 / 1000 * |v|)
      (by linarith : 1001 / 1000 * |v| ≤ 1001 / 1000 * (4 / 25))
    have hgrown := mul_le_mul (by linarith : 1 + grain bits ≤ 1001 / 1000) hbound (by positivity)
      (by norm_num)
    linarith
  -- each term is at most a thirtieth of the one before it
  have hnext : ∀ {t : Interval} {m : ℝ}, Within t 0 m →
      Within (mul bits t (mul bits z z).neg) 0 (1001 / 1000 * (m * (1 / 35))) := by
    intro t m ht
    have hm := ht.nonneg
    refine (ht.mul_small hsquare bits).mono (mul_le_mul_of_nonneg_right ?_ (by positivity))
    linarith
  have hsum : Within (divNat bits z (2 * 0 + 1)) v (|v| / 500) := by
    refine (hz.divNat_one (by omega)).mono ?_
    have hgrown := mul_le_mul hg (by linarith : |v| + ε * |v| ≤ 2 * |v|)
      (by linarith [hz.nonneg]) (by positivity)
    linarith
  have hfuel : (((bits + 19 : Nat) : ℝ) + 1) * (2 * (grain bits * (2 * |v|))) ≤
      4 / 10 ^ 6 * |v| := by
    have hgrown := mul_le_mul_of_nonneg_right (mul_grain_le hbits) hv0
    push_cast
    linarith
  unfold arctanSeries
  dsimp only
  rw [show bits + 20 = bits + 19 + 1 from rfl, series_start hz0]
  refine (Within.series (k := bits + 19) (M := 2 * |v|) (θ := |v| / 30)
    (fun n t m _ ht => (hnext ht).mono (by linarith [ht.nonneg]))
    (fun n t m hn ht => ht.divNat_le (by omega) hbits) hsum ((hnext hsmall).mono (by linarith))
    Nat.one_pos ?_ (by positivity)).mono ?_ <;> linarith

/-- Eight times what is left of an angle that is halved three times. -/
noncomputable def smallAngle (v : ℝ) : ℝ := halved (halved (halved v)) * ((2 : Nat) : ℝ) ^ (3 : Int)

theorem abs_smallAngle (v : ℝ) : |smallAngle v| = 8 * |halved (halved (halved v))| := by
  rw [smallAngle, abs_mul, mul_comm]
  norm_num

theorem abs_smallAngle_le (v : ℝ) : |smallAngle v| ≤ |v| := by
  rw [abs_smallAngle]
  linarith [abs_halved_le v, abs_halved_le (halved v), abs_halved_le (halved (halved v))]

theorem abs_smallAngle_le_of_le (hv : |v| ≤ 201 / 100) : |smallAngle v| ≤ 5 / 4 := by
  rw [abs_smallAngle]
  linarith [abs_halved_le_of_le hv, abs_halved_le (halved v), abs_halved_le (halved (halved v))]

theorem le_abs_smallAngle (hv : |v| ≤ 201 / 100) : |v| / 8 ≤ |smallAngle v| := by
  have hone := abs_halved_le v
  have htwo := abs_halved_le (halved v)
  have hlow := le_abs_halved (v := halved (halved v)) (by linarith)
  rw [abs_smallAngle]
  linarith [le_abs_halved hv, le_abs_halved (v := halved v) (by linarith)]

theorem smallAngle_pos (hv : 0 < v) : 0 < smallAngle v :=
  mul_pos (halved_pos (halved_pos (halved_pos hv))) (two_zpow_pos 3)

theorem smallAngle_neg (hv : v < 0) : smallAngle v < 0 :=
  mul_neg_of_neg_of_pos (halved_neg (halved_neg (halved_neg hv))) (two_zpow_pos 3)

theorem smallAngle_zero : smallAngle 0 = 0 := by simp [smallAngle, halved]

theorem exists_arctanSmall (hbits : 64 ≤ bits) (hz : Within z v (ε * |v|)) (hv : |v| ≤ 201 / 100)
    (hgrain : grain bits ≤ ε) (hε : ε ≤ 1 / 10 ^ 9) :
    ∃ r, arctanSmall bits z = some r ∧ Within r (smallAngle v) (|smallAngle v| / 10) := by
  have hε0 : 0 ≤ ε := (grain_pos bits).le.trans hgrain
  have hone := abs_halved_le v
  have htwo := abs_halved_le (halved v)
  have hthree := abs_halved_le (halved (halved v))
  have hlarge := abs_halved_le_of_le hv
  -- the error grows with each halving, and three of them leave it small enough for the series
  obtain ⟨z₁, h₁, hz₁⟩ := exists_halfTangent hbits hz hv hgrain (by linarith)
  obtain ⟨z₂, h₂, hz₂⟩ := exists_halfTangent hbits hz₁ (by linarith) (by linarith) (by linarith)
  obtain ⟨z₃, h₃, hz₃⟩ := exists_halfTangent hbits hz₂ (by linarith) (by linarith) (by linarith)
  have hseries := (within_arctanSeries hbits hz₃ (by linarith) (by linarith)).shift 3
  refine ⟨_, ?_, hseries.mono (le_of_eq ?_)⟩
  · unfold arctanSmall
    simp only [h₁, h₂, h₃, bind, Option.bind]
  · rw [abs_smallAngle]
    norm_num
    ring

/-- **What is known of the angle that is enclosed for a tangent**: its sign, and its size, coarsely. -/
structure AngleOf (v a : ℝ) : Prop where
  pos : 0 < v → 0 < a
  neg : v < 0 → a < 0
  zero : v = 0 → a = 0
  le : |a| ≤ 8 / 5
  ge : min 1 (|v| / 8) ≤ |a|

theorem angleOf_smallAngle (hv : |v| ≤ 201 / 100) : AngleOf v (smallAngle v) where
  pos := smallAngle_pos
  neg := smallAngle_neg
  zero := by
    rintro rfl
    exact smallAngle_zero
  le := by linarith [abs_smallAngle_le_of_le hv]
  ge := (min_le_right _ _).trans (le_abs_smallAngle hv)

/-- The angle of a large tangent is what its inverse leaves of a quarter turn, and is large. -/
theorem angleOf_complement (hv : 0 < v) (hsmall : |smallAngle (1 / v)| ≤ 100 / 199) :
    AngleOf v (8 / 5 - 2 / 239 - smallAngle (1 / v)) ∧
      1 ≤ |8 / 5 - 2 / 239 - smallAngle (1 / v)| := by
  have hb := smallAngle_pos (one_div_pos.mpr hv)
  rw [abs_of_pos hb] at hsmall
  have ha : 0 < 8 / 5 - 2 / 239 - smallAngle (1 / v) := by linarith
  have habs := abs_of_pos ha
  have hone : 1 ≤ |8 / 5 - 2 / 239 - smallAngle (1 / v)| := by linarith
  exact ⟨⟨fun _ => ha, fun hneg => absurd hneg hv.not_gt, fun hzero => absurd hzero hv.ne',
    by linarith, (min_le_left _ _).trans hone⟩, hone⟩

theorem angleOf_complement_of_neg (hv : v < 0) (hsmall : |smallAngle (1 / v)| ≤ 100 / 199) :
    AngleOf v (-(8 / 5 - 2 / 239) - smallAngle (1 / v)) ∧
      1 ≤ |-(8 / 5 - 2 / 239) - smallAngle (1 / v)| := by
  have hb := smallAngle_neg (one_div_neg.mpr hv)
  rw [abs_of_neg hb] at hsmall
  have ha : -(8 / 5 - 2 / 239) - smallAngle (1 / v) < 0 := by linarith
  have habs := abs_of_neg ha
  have hone : 1 ≤ |-(8 / 5 - 2 / 239) - smallAngle (1 / v)| := by linarith
  exact ⟨⟨fun hpos => absurd hpos hv.not_gt, fun _ => ha, fun hzero => absurd hzero hv.ne,
    by linarith, (min_le_left _ _).trans hone⟩, hone⟩

/-- The place above the leading bit of a tangent tells whether its angle is small. -/
theorem Within.abs_le_of_top (hz : Within z v (ε * |v|)) (hε : ε ≤ 1 / 10 ^ 10) (htop : z.top ≤ 1) :
    |v| ≤ 201 / 100 := by
  have hlower : |z.lower| < 2 ^ (1 : Int) := (abs_lower_lt z).trans_le (two_zpow_le htop)
  have htriangle := abs_sub_abs_le_abs_sub v z.lower
  have hnear := hz.lower
  rw [abs_sub_comm] at hnear
  rw [zpow_one] at hlower
  have hscaled := mul_le_mul_of_nonneg_right hε (abs_nonneg v)
  linarith

theorem Within.le_abs_of_top (hz : Within z v (ε * |v|)) (hε : ε ≤ 1 / 10 ^ 10) (hv : v ≠ 0)
    (htop : ¬z.top ≤ 1) : 199 / 100 ≤ |v| := by
  have hpos := abs_pos.mpr hv
  have hscaled := mul_le_mul_of_nonneg_right hε hpos.le
  have htwo : (2 : ℝ) ^ (2 : Int) ≤ 2 ^ z.top := two_zpow_le (by omega)
  have hbound := hz.two_zpow_top_le (hz.isZero_eq_false (by linarith))
  norm_num at htwo
  linarith

/-- The angle of the inverse of a large tangent is enclosed, and small. -/
theorem exists_arctan_inverse (hbits : 64 ≤ bits) (hz : Within z v (ε * |v|))
    (hgrain : grain bits ≤ ε) (hε : ε ≤ 1 / 10 ^ 10) (hv : 199 / 100 ≤ |v|) :
    ∃ q r, div bits (ofInt 1) z = some q ∧ arctanSmall bits q = some r ∧
      Within r (smallAngle (1 / v)) (|smallAngle (1 / v)| / 10) ∧
        |smallAngle (1 / v)| ≤ 100 / 199 := by
  have hε0 : 0 ≤ ε := (grain_pos bits).le.trans hgrain
  have hne : v ≠ 0 := abs_pos.mp (by linarith)
  have hinverse : |1 / v| ≤ 100 / 199 := by
    rw [abs_div, abs_one]
    exact (one_div_le_one_div_of_le (by norm_num) hv).trans (by norm_num)
  have hone : Within (ofInt 1) 1 (0 * |1|) := by
    have h := within_ofInt 1
    rwa [Int.cast_one, ← zero_mul |(1 : ℝ)|] at h
  obtain ⟨q, hq, hqnear⟩ := hone.div_relative hz hne (by linarith) (by omega : 1 ≤ bits)
  have hqnear' : Within q (1 / v) (10 * ε * |1 / v|) := by
    refine hqnear.mono (mul_le_mul_of_nonneg_right ?_ (abs_nonneg _))
    rw [div_le_iff₀ (by linarith)]
    have hsquare := mul_le_mul_of_nonneg_left hε hε0
    linarith
  obtain ⟨r, hr, hnear⟩ := exists_arctanSmall hbits hqnear' (by linarith) (by linarith) (by linarith)
  exact ⟨q, r, hq, hr, hnear, (abs_smallAngle_le (1 / v)).trans hinverse⟩

/-- Half of the enclosure of π. -/
theorem within_quarter (hbits : 64 ≤ bits) :
    Within ((pi bits).shift (-1)) (8 / 5 - 2 / 239) (3 / 20) := by
  have hpi := (within_pi hbits).shift (-1)
  norm_num at hpi ⊢
  exact hpi

/-- **The arcus tangent** is enclosed. -/
theorem exists_arctan (hbits : 64 ≤ bits) (hz : Within z v (ε * |v|)) (hgrain : grain bits ≤ ε)
    (hε : ε ≤ 1 / 10 ^ 10) (htop : z.top ≤ 1 ∨ v ≠ 0) :
    ∃ r a, arctan bits z = some r ∧ Within r a (|a| / 4) ∧ AngleOf v a := by
  unfold arctan
  split
  case isTrue hsmall =>
    have hv := hz.abs_le_of_top hε hsmall
    obtain ⟨r, hr, hnear⟩ := exists_arctanSmall hbits hz hv hgrain (by linarith)
    exact ⟨r, smallAngle v, hr, hnear.mono (by linarith [abs_nonneg (smallAngle v)]),
      angleOf_smallAngle hv⟩
  case isFalse hlarge =>
    have hne : v ≠ 0 := htop.resolve_left hlarge
    have hv := hz.le_abs_of_top hε hne hlarge
    have hg := grain_le hbits
    have hquarter := within_quarter hbits
    obtain ⟨q, r, hq, hr, hnear, hangle⟩ := exists_arctan_inverse hbits hz hgrain hε hv
    -- the quarter turn, with the sign of the tangent, less the angle of the inverse
    have hsum : ∀ {c : ℝ} {p : Interval}, |c| = 8 / 5 - 2 / 239 → Within p c (3 / 20) →
        Within (sub bits p r) (c - smallAngle (1 / v)) (1 / 4) := by
      intro c p hc hp
      have hadd := hp.add hnear.neg (M := 3) (by linarith) (by rw [abs_neg]; linarith) bits
      rw [← sub_eq_add_neg] at hadd
      exact hadd.mono (by linarith)
    simp only [hq, hr, bind, Option.bind]
    rcases lt_or_gt_of_ne hne with hneg | hpos
    · have hlo := (hz.ends_neg_of_neg (by linarith) hneg).1
      rw [if_neg hlo.not_gt]
      obtain ⟨hof, hone⟩ := angleOf_complement_of_neg hneg hangle
      exact ⟨_, _, rfl, (hsum (by norm_num) hquarter.neg).mono (by linarith), hof⟩
    · rw [if_pos (hz.lo_pos_of_pos (by linarith) hpos)]
      obtain ⟨hof, hone⟩ := angleOf_complement hpos hangle
      exact ⟨_, _, rfl, (hsum (by norm_num) hquarter).mono (by linarith), hof⟩

/-! ## Directions -/

/-- An interval that is not away from zero at all is the one of zero. -/
theorem Within.ends_eq_zero (h : Within x 0 0) : x.lo = 0 ∧ x.hi = 0 := by
  have hends : ∀ {n : Int}, |(n : ℝ) * 2 ^ x.scale - 0| ≤ 0 → n = 0 := by
    intro n hn
    rw [sub_zero, abs_nonpos_iff, mul_eq_zero] at hn
    exact Int.cast_eq_zero.mp (hn.resolve_right (two_zpow_pos _).ne')
  exact ⟨hends h.lower, hends h.upper⟩

/-- A quotient of zero has no scale. -/
theorem top_div_of_ends_eq_zero {q : Interval} (hx : x.lo = 0 ∧ x.hi = 0)
    (hq : div bits x y = some q) : q.top ≤ 1 := by
  have hquotient : ∀ d : Interval, ∀ z : Interval, z.lo = 0 → z.hi = 0 →
      z.divPositive bits d = ofInt 0 := by
    intro d z hlo hhi
    simp [divPositive, hlo, hhi, trim, isZero, Int.zero_shiftLeft]
  have hneg : x.neg.lo = 0 ∧ x.neg.hi = 0 := by
    simp [neg, hx.1, hx.2]
  have hzero : q = ofInt 0 := by
    unfold div at hq
    split at hq
    · rw [← Option.some.inj hq, hquotient y x hx.1 hx.2]
    · split at hq
      · rw [← Option.some.inj hq, hquotient y.neg x.neg hneg.1 hneg.2]
      · cases hq
  rw [hzero]
  decide

/-- The arcus tangent of a quotient is enclosed. -/
theorem exists_arctan_div (hbits : 64 ≤ bits) (hy : Within y w (ε * |w|)) (hx : Within x v (ε * |v|))
    (hgrain : grain bits ≤ ε) (hε : ε ≤ 1 / 10 ^ 12) (hv : v ≠ 0) :
    ∃ q r a, div bits y x = some q ∧ arctan bits q = some r ∧ Within r a (|a| / 4) ∧
      AngleOf (w / v) a := by
  have hε0 : 0 ≤ ε := (grain_pos bits).le.trans hgrain
  obtain ⟨q, hq, hnear⟩ := hy.div_relative hx hv (by linarith) (by omega : 1 ≤ bits)
  have hnear' : Within q (w / v) (10 * ε * |w / v|) := by
    refine hnear.mono (mul_le_mul_of_nonneg_right ?_ (abs_nonneg _))
    have hgrown : grain bits * (1 + ε) ≤ ε * 2 := mul_le_mul hgrain (by linarith) (by linarith) hε0
    have hsquare := mul_le_mul_of_nonneg_left hε hε0
    rw [div_le_iff₀ (by linarith)]
    linarith
  have htop : q.top ≤ 1 ∨ w / v ≠ 0 := by
    by_cases hw : w = 0
    · rw [hw, abs_zero, mul_zero] at hy
      exact .inl (top_div_of_ends_eq_zero hy.ends_eq_zero hq)
    · exact .inr (div_ne_zero hw hv)
  obtain ⟨r, a, hr, hra, hangle⟩ := exists_arctan hbits hnear' (by linarith) (by linarith) htop
  exact ⟨q, r, a, hq, hr, hra, hangle⟩

/-- **The direction of a point on the left**: the straight angle is added to the arcus tangent, or taken
away from it below the axis. -/
theorem exists_direction_left (hbits : 64 ≤ bits) (hy : Within y w (ε * |w|))
    (hx : Within x v (ε * |v|)) (hgrain : grain bits ≤ ε) (hε : ε ≤ 1 / 10 ^ 12) (hv : v < 0) :
    ∃ r a, direction bits y x = some r ∧ Within r a (|a| / 2) ∧ |a| ≤ 7 / 2 ∧ 1 ≤ |a| := by
  have hg := grain_le hbits
  have hpi := within_pi hbits
  obtain ⟨q, r, a, hq, hr, hra, hangle⟩ := exists_arctan_div hbits hy hx hgrain hε hv.ne
  obtain ⟨hxlo, hxhi⟩ := hx.ends_neg_of_neg (by linarith) hv
  have hle := hangle.le
  have hadd : ∀ {c : ℝ} {p : Interval}, |c| = 16 / 5 - 4 / 239 → Within p c (3 / 10) →
      Within (add bits r p) (a + c) (3 / 4) := by
    intro c p hc hp
    exact (hra.add hp (M := 4) (by linarith) (by linarith) bits).mono (by linarith)
  unfold direction
  rw [if_neg hxlo.not_gt, if_pos hxhi]
  simp only [hq, hr, bind, Option.bind]
  -- to the left of the upright axis the arcus tangent has the sign opposite to that of the height
  by_cases hw : 0 ≤ w
  · have hylo : 0 ≤ y.lo := by
      rcases hw.eq_or_lt with rfl | hw
      · rw [abs_zero, mul_zero] at hy
        exact hy.ends_eq_zero.1.ge
      · exact (hy.lo_pos_of_pos (by linarith) hw).le
    have hnonpos : a ≤ 0 := by
      rcases hw.eq_or_lt with rfl | hw
      · exact (hangle.zero (zero_div v)).le
      · exact (hangle.neg (div_neg_of_pos_of_neg hw hv)).le
    rw [abs_of_nonpos hnonpos] at hle
    have habs : |a + (16 / 5 - 4 / 239)| = a + (16 / 5 - 4 / 239) := abs_of_pos (by linarith)
    rw [if_pos hylo]
    exact ⟨_, _, rfl, (hadd (by norm_num) hpi).mono (by linarith), by linarith, by linarith⟩
  · obtain ⟨hylo, hyhi⟩ := hy.ends_neg_of_neg (by linarith) (not_le.mp hw)
    have hpos := hangle.pos (div_pos_of_neg_of_neg (not_le.mp hw) hv)
    rw [abs_of_pos hpos] at hle
    have habs : |a + -(16 / 5 - 4 / 239)| = -(a + -(16 / 5 - 4 / 239)) := abs_of_neg (by linarith)
    rw [if_neg hylo.not_ge, if_pos hyhi]
    exact ⟨_, _, rfl, (hadd (by norm_num) hpi.neg).mono (by linarith), by linarith, by linarith⟩

/-- **The direction of a point straight above or below the origin** is a quarter turn. -/
theorem exists_direction_upright (hbits : 64 ≤ bits) (hy : Within y w (ε * |w|)) (hx : Within x 0 0)
    (hε : ε ≤ 1 / 10 ^ 12) (hw : w ≠ 0) :
    ∃ r a, direction bits y x = some r ∧ Within r a (|a| / 2) ∧ |a| ≤ 7 / 2 ∧ 1 ≤ |a| := by
  obtain ⟨hlo, hhi⟩ := hx.ends_eq_zero
  have hx0 : x.isZero = true := by simp [isZero, hlo, hhi]
  have hquarter := within_quarter hbits
  unfold direction
  rw [if_neg (by omega), if_neg (by omega), if_pos hx0]
  rcases lt_or_gt_of_ne hw with hw | hw
  · obtain ⟨hylo, hyhi⟩ := hy.ends_neg_of_neg (by linarith) hw
    rw [if_neg hylo.not_gt, if_pos hyhi]
    refine ⟨_, _, rfl, hquarter.neg.mono ?_, ?_, ?_⟩ <;> norm_num [abs_div]
  · rw [if_pos (hy.lo_pos_of_pos (by linarith) hw)]
    refine ⟨_, _, rfl, hquarter.mono ?_, ?_, ?_⟩ <;> norm_num [abs_div]

/-- **The direction of a point** other than the origin is enclosed, and its sign is known. It is zero on
the right half of the axis, and nowhere else. -/
theorem exists_direction (hbits : 64 ≤ bits) (hy : Within y w (ε * |w|)) (hx : Within x v (ε * |v|))
    (hgrain : grain bits ≤ ε) (hε : ε ≤ 1 / 10 ^ 12) (horigin : v ≠ 0 ∨ w ≠ 0) :
    ∃ r a, direction bits y x = some r ∧ Within r a (|a| / 2) ∧ |a| ≤ 7 / 2 ∧
      (w = 0 ∧ 0 < v → a = 0) ∧
      (¬(w = 0 ∧ 0 < v) → 1 ≤ |a| ∨ v ≠ 0 ∧ w ≠ 0 ∧ |w / v| / 8 ≤ |a|) := by
  rcases lt_trichotomy v 0 with hv | rfl | hv
  · obtain ⟨r, a, hr, hra, hle, hone⟩ := exists_direction_left hbits hy hx hgrain hε hv
    exact ⟨r, a, hr, hra, hle, fun h => absurd h.2 hv.not_gt, fun _ => .inl hone⟩
  · have hw : w ≠ 0 := horigin.resolve_left fun h => h rfl
    rw [abs_zero, mul_zero] at hx
    obtain ⟨r, a, hr, hra, hle, hone⟩ := exists_direction_upright hbits hy hx hε hw
    exact ⟨r, a, hr, hra, hle, fun h => absurd h.2 (lt_irrefl 0), fun _ => .inl hone⟩
  · -- on the right the direction is the arcus tangent itself
    obtain ⟨q, r, a, hq, hr, hra, hangle⟩ := exists_arctan_div hbits hy hx hgrain hε hv.ne'
    refine ⟨r, a, ?_, hra.mono (by linarith [abs_nonneg a]), by linarith [hangle.le],
      fun h => hangle.zero (by rw [h.1, zero_div]), fun h => ?_⟩
    · unfold direction
      rw [if_pos (hx.lo_pos_of_pos (by linarith) hv)]
      simp only [hq, bind, Option.bind]
      exact hr
    · exact (min_le_iff.mp hangle.ge).imp id fun hle => ⟨hv.ne', fun hw => h ⟨hw, hv⟩, hle⟩

end Interval

end DecimalCalc
