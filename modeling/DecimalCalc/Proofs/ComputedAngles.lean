import DecimalCalc.Functions.Angle
import DecimalCalc.Proofs.AngleEnclosures
import DecimalCalc.Proofs.RoundingErrors
import DecimalCalc.Proofs.SettledResults

/-!
# Angles are always computed

The direction of a point has a result for all decimals that are not too far apart, and so has every
enclosed number that is neither too large nor too close to zero, if the sign of its intervals is known
(`Enclosure.Clear`): each of them leads to a decimal, and so does the last of them.
-/

set_option autoImplicit false

namespace DecimalCalc

open Except

/-! ## Decimals of intervals -/

theorem divide_le (mode : Rounding) (negative : Bool) (n d : Nat) :
    mode.divide negative n d ≤ n / d + 1 := by
  unfold Rounding.divide
  dsimp only
  split
  · omega
  · split <;> omega

theorem leadingPlace_le (n d fuel : Nat) (place : Int) :
    leadingPlace n d fuel place ≤ place + fuel := by
  induction fuel generalizing place with
  | zero => exact le_add_of_nonneg_right le_rfl
  | succ fuel ih =>
      unfold leadingPlace
      dsimp only
      split
      · have hnext := ih (place + 1)
        push_cast
        omega
      · omega

namespace Interval

/-- A whole number of units next to a fraction is not above it by more than a unit. -/
theorem divide_mul_ten_zpow_le {n d : Nat} (hd : 0 < d) (hle : n ≤ 4096 * d) (mode : Rounding)
    (negative : Bool) (unit : Int) :
    (mode.divide negative (n * tenPow (-unit).toNat) (d * tenPow unit.toNat) : ℚ) * 10 ^ unit ≤
      4096 + 10 ^ unit := by
  generalize hq : mode.divide negative (n * tenPow (-unit).toNat) (d * tenPow unit.toNat) = q
  have hbound : q * (d * tenPow unit.toNat) ≤
      4096 * d * tenPow (-unit).toNat + d * tenPow unit.toNat := by
    have hdivide := divide_le mode negative (n * tenPow (-unit).toNat) (d * tenPow unit.toNat)
    rw [hq] at hdivide
    calc q * (d * tenPow unit.toNat)
        ≤ (n * tenPow (-unit).toNat / (d * tenPow unit.toNat) + 1) * (d * tenPow unit.toNat) :=
          Nat.mul_le_mul_right _ hdivide
      _ ≤ n * tenPow (-unit).toNat + d * tenPow unit.toNat := by
          rw [add_mul, one_mul]
          exact Nat.add_le_add_right (Nat.div_mul_le_self _ _) _
      _ ≤ 4096 * d * tenPow (-unit).toNat + d * tenPow unit.toNat :=
          Nat.add_le_add_right (Nat.mul_le_mul_right _ hle) _
  have hfactor : q * tenPow unit.toNat ≤ 4096 * tenPow (-unit).toNat + tenPow unit.toNat := by
    refine Nat.le_of_mul_le_mul_left ?_ hd
    linarith
  have hcast : (q : ℚ) * tenPow unit.toNat ≤ 4096 * tenPow (-unit).toNat + tenPow unit.toNat := by
    exact_mod_cast hfactor
  -- of the two powers that make up the unit one is always one
  have hpower : (tenPow unit.toNat : ℚ) = 10 ^ unit * tenPow (-unit).toNat := by
    rw [cast_tenPow, cast_tenPow, ← ten_zpow_add]
    congr 1
    omega
  have hpos : (0 : ℚ) < tenPow (-unit).toNat := Nat.cast_pos.mpr (tenPow_pos _)
  rw [hpower] at hcast
  refine le_of_mul_le_mul_right ?_ hpos
  linarith

/-- The decimal next to a magnitude is not much larger than it. -/
theorem abs_nearestDigits_le {digits m : Nat} {scale : Int} (hm : m ≠ 0)
    (htop : scale + bitLength m ≤ 12) (negative : Bool) :
    |Decimal.value ⟨negative, (nearestDigits digits m scale).1, (nearestDigits digits m scale).2⟩| ≤
      10 ^ 7 := by
  have hbits : bitLength m = m.log2 + 1 := by
    rw [bitLength, if_neg (by exact_mod_cast hm)]
    rfl
  -- the magnitude is a fraction, of which only one side is shifted
  have hle : m <<< scale.toNat ≤ 4096 * (1 <<< (-scale).toNat) := by
    rw [Nat.shiftLeft_eq, Nat.shiftLeft_eq, one_mul]
    calc m * 2 ^ scale.toNat ≤ 2 ^ (m.log2 + 1) * 2 ^ scale.toNat :=
          Nat.mul_le_mul_right _ Nat.lt_log2_self.le
      _ ≤ 2 ^ (12 + (-scale).toNat) := by
          rw [← pow_add]
          exact Nat.pow_le_pow_right (by decide) (by omega)
      _ = 4096 * 2 ^ (-scale).toNat := by
          rw [pow_add]
          rfl
  have hd : 0 < 1 <<< (-scale).toNat := by
    rw [Nat.shiftLeft_eq, one_mul]
    exact Nat.two_pow_pos _
  unfold nearestDigits
  dsimp only
  generalize hunit : leadingPlace (m <<< scale.toNat) (1 <<< (-scale).toNat) 3
    (((m.log2 : Int) + scale) * 8651 / 28738 - 1) + 1 - digits = unit
  have hsmall : unit ≤ 6 := by
    have hplace := leadingPlace_le (m <<< scale.toNat) (1 <<< (-scale).toNat) 3
      (((m.log2 : Int) + scale) * 8651 / 28738 - 1)
    omega
  have hvalue := divide_mul_ten_zpow_le hd hle .halfUp false unit
  generalize Rounding.halfUp.divide false _ _ = q at hvalue ⊢
  have hpower : (10 : ℚ) ^ unit ≤ 10 ^ (6 : Int) := ten_zpow_le_iff.mpr hsmall
  have hpos := ten_zpow_pos (K := ℚ) unit
  have hsix : (10 : ℚ) ^ (6 : Int) = 1000000 := by norm_num
  rw [Decimal.abs_value]
  split
  · have htenth : ((q / 10 : Nat) : ℚ) * 10 ≤ q := by
      exact_mod_cast Nat.div_mul_le_self q 10
    have hscaled := mul_le_mul_of_nonneg_right htenth hpos.le
    dsimp only
    rw [ten_zpow_add, zpow_one]
    linarith
  · dsimp only
    linarith

/-- **An end of an interval has a decimal**, if it is neither too large nor too close to zero. -/
theorem exists_decimalOf {n m : Nat} {scale : Int} (hm : m ≠ 0)
    (htop : scale + bitLength m ≤ 12) (hlow : -8000000 ≤ scale + bitLength m) (negative : Bool) :
    ∃ d, decimalOf n negative m scale = .ok d ∧ |d.value| ≤ 10 ^ 7 := by
  unfold decimalOf
  dsimp only
  rw [if_neg (by unfold beyond; omega), if_neg (by unfold beyond; omega)]
  split
  · refine ⟨_, rfl, ?_⟩
    rw [Decimal.abs_value]
    have hone : (10 : ℚ) ^ (-1200000 - 2 * (n : Int)) ≤ 1 :=
      zpow_le_one_of_nonpos₀ (by norm_num) (by omega)
    push_cast
    linarith
  · exact ⟨_, rfl, abs_nearestDigits_le hm htop negative⟩

/-- **An interval with a sign** that is neither too large nor too close to zero. -/
inductive Clear (x : Interval) : Prop where
  | intro (a : ℝ) (near : Within x a (3 / 4 * |a|)) (large : |a| ≤ 1000)
      (small : (2 : ℝ) ^ (-4000010 : Int) ≤ |a|) : x.Clear

variable {x : Interval}

/-- The place above the leading bit of an end. -/
theorem bitLength_range {n s : Int} {a : ℝ} (hn : |(n : ℝ) * 2 ^ s - a| ≤ 3 / 4 * |a|)
    (hlarge : |a| ≤ 1000) (hsmall : (2 : ℝ) ^ (-4000010 : Int) ≤ |a|) :
    n.natAbs ≠ 0 ∧ s + bitLength n.natAbs ≤ 12 ∧ -8000000 ≤ s + bitLength n.natAbs := by
  have hpos : 0 < |a| := (two_zpow_pos _).trans_le hsmall
  have hne : n ≠ 0 := by
    rintro rfl
    rw [Int.cast_zero, zero_mul, zero_sub, abs_neg] at hn
    linarith
  have hsame : bitLength n.natAbs = bitLength n := by
    rw [bitLength, bitLength, Int.natAbs_natCast]
    simp only [Int.natCast_eq_zero, Int.natAbs_eq_zero]
  have hscaled : |(n : ℝ) * 2 ^ s| = |(n : ℝ)| * 2 ^ s := by
    rw [abs_mul, abs_of_pos (two_zpow_pos s)]
  -- the end is at least a quarter of the number, and less than twice as large
  have habove := abs_sub_abs_le_abs_sub ((n : ℝ) * 2 ^ s) a
  have hbelow := abs_sub_abs_le_abs_sub a ((n : ℝ) * 2 ^ s)
  rw [abs_sub_comm a] at hbelow
  rw [hscaled] at habove hbelow
  have htop : (2 : ℝ) ^ (s + bitLength n : Int) < 2 ^ (12 : Int) := by
    have hle := mul_le_mul_of_nonneg_right (two_zpow_bitLength_le hne) (two_zpow_pos s).le
    have hlarge' : (3500 : ℝ) < 2 ^ (12 : Int) := by norm_num
    rw [add_comm, two_zpow_add]
    linarith
  have hlow : (2 : ℝ) ^ (-4000012 : Int) < 2 ^ (s + bitLength n : Int) := by
    have hlt := mul_lt_mul_of_pos_right (abs_lt_two_zpow_bitLength n) (two_zpow_pos s)
    have hquarter : (2 : ℝ) ^ (-4000012 : Int) * 4 = 2 ^ (-4000010 : Int) := by
      rw [show (-4000010 : Int) = -4000012 + 2 by norm_num, two_zpow_add]
      norm_num
    rw [add_comm, two_zpow_add]
    linarith
  rw [zpow_lt_zpow_iff_right₀ (by norm_num)] at htop hlow
  rw [hsame]
  exact ⟨Int.natAbs_ne_zero.mpr hne, htop.le, by omega⟩

/-- The two ends of a clear interval have decimals, which tell its sign. -/
theorem Clear.settled (h : x.Clear) (digits : Nat) :
    (∀ result, x.settled digits = some result → ∃ d, result = .ok d ∧ |d.value| ≤ 10 ^ 7) ∧
      ∃ d, x.settledOutwards digits = .ok d ∧ |d.value| ≤ 10 ^ 7 := by
  obtain ⟨a, hnear, hlarge, hsmall⟩ := h
  have hpos : 0 < |a| := (two_zpow_pos _).trans_le hsmall
  obtain ⟨hlo, hlotop, hlolow⟩ := bitLength_range hnear.lower hlarge hsmall
  obtain ⟨hhi, hhitop, hhilow⟩ := bitLength_range hnear.upper hlarge hsmall
  have hx0 : ¬x.isZero = true := Bool.eq_false_iff.mp (hnear.isZero_eq_false (by linarith))
  -- both ends have the sign of the number
  have hsign : 0 < x.lo ∨ ¬0 < x.lo ∧ x.hi < 0 := by
    rcases lt_or_gt_of_ne (abs_pos.mp hpos) with ha | ha
    · rw [abs_of_neg ha] at hnear
      have hlo : 0 < -x.lo := hnear.neg.hi_pos (by linarith)
      have hhi : 0 < -x.hi := hnear.neg.lo_pos (by linarith)
      omega
    · rw [abs_of_pos ha] at hnear
      exact .inl (hnear.lo_pos (by linarith))
  constructor
  · intro result hresult
    obtain ⟨near, hnear, hbound⟩ := exists_decimalOf (n := digits) hlo hlotop hlolow (x.hi < 0)
    obtain ⟨far, hfar, -⟩ := exists_decimalOf (n := digits) hhi hhitop hhilow (x.hi < 0)
    have hdefinite : 0 < x.lo ∨ x.hi < 0 := hsign.imp id And.right
    unfold Interval.settled at hresult
    rw [if_neg hx0, if_pos hdefinite, hnear, hfar] at hresult
    dsimp only at hresult
    split at hresult
    · exact ⟨near, (Option.some.inj hresult).symm, hbound⟩
    · cases hresult
  · unfold settledOutwards
    rcases hsign with hlo' | ⟨hlo', hhi'⟩
    · rw [if_pos hlo']
      exact exists_decimalOf hhi hhitop hhilow false
    · rw [if_neg hlo', if_pos hhi']
      exact exists_decimalOf hlo hlotop hlolow true

end Interval

/-! ## Nearest decimals -/

namespace Enclosure

/-- **A number that is enclosed clearly** with every working precision from sixty-four bits on: it is
zero, or has a sign. -/
def Clear (x : Enclosure) : Prop :=
  (∀ bits, 64 ≤ bits → ∃ r, x bits = some r ∧ r.isZero = true) ∨
    ∀ bits, 64 ≤ bits → ∃ r, x bits = some r ∧ r.Clear

/-- **A number that is enclosed clearly has a nearest decimal.** -/
theorem Clear.nearest {x : Enclosure} (h : x.Clear) (digits : Nat) :
    ∃ d, x.nearest digits = .ok d ∧ |d.value| ≤ 10 ^ 7 := by
  rcases h with h | h
  · obtain ⟨r, hr, hr0⟩ := h (4 * digits + 64) (by omega)
    refine ⟨Decimal.zero, ?_, ?_⟩
    · unfold Enclosure.nearest refine
      rw [hr, Option.bind_some, Interval.settled, if_pos hr0]
    · rw [Decimal.value_zero]
      norm_num
  · -- by induction on the rounds that are left, each with twice as many bits
    have hrefine : ∀ rounds bits, 64 ≤ bits →
        ∃ d, x.refine digits rounds bits = .ok d ∧ |d.value| ≤ 10 ^ 7 := by
      intro rounds
      induction rounds with
      | zero =>
          intro bits hbits
          obtain ⟨r, hr, hclear⟩ := h bits hbits
          unfold refine
          rw [hr]
          exact (hclear.settled digits).2
      | succ rounds ih =>
          intro bits hbits
          obtain ⟨r, hr, hclear⟩ := h bits hbits
          unfold refine
          rw [hr, Option.bind_some]
          cases hresult : r.settled digits with
          | some result => exact (hclear.settled digits).1 result hresult
          | none => exact ih (2 * bits) (by omega)
    exact hrefine 5 _ (by omega)

end Enclosure

/-! ## Directions -/

namespace Interval

variable {bits : Nat} {r : Interval} {a : ℝ}

/-- **A decimal is enclosed** tightly. -/
theorem within_ofDecimal (hbits : 64 ≤ bits) (x : Decimal) :
    Within (ofDecimal bits x) (x.value : ℝ) (4 * grain bits * |(x.value : ℝ)|) := by
  have hg0 := grain_pos bits
  rw [← Decimal.value_reduced x]
  unfold ofDecimal
  dsimp only
  generalize x.reduced = y
  have hsize := mul_nonneg hg0.le (abs_nonneg (y.value : ℝ))
  split
  case isTrue hexponent =>
    have hvalue : (y.value : ℝ) = ((y.signed * tenPow y.exponent.toNat : Int) : ℝ) := by
      rw [Decimal.value, ← cast_tenPow_toNat hexponent]
      push_cast
      rfl
    have htrim := (within_ofInt (y.signed * tenPow y.exponent.toNat)).trim bits
    rw [← hvalue, zero_add, add_zero] at htrim
    exact htrim.mono (by linarith)
  case isFalse hexponent =>
    have hvalue : (y.value : ℝ) = (y.signed : ℝ) / (tenPow y.exponent.natAbs : Int) := by
      -- digits behind the point make it a quotient by a power of ten
      have hpower : (tenPow y.exponent.natAbs : ℚ) = (10 ^ y.exponent)⁻¹ := by
        rw [cast_tenPow, ← zpow_neg]
        congr 1
        omega
      have hrat : y.value = y.signed / (tenPow y.exponent.natAbs : ℚ) := by
        rw [hpower, div_inv_eq_mul]
        rfl
      rw [hrat]
      push_cast
      rfl
    have hpos : (0 : ℝ) < (tenPow y.exponent.natAbs : Int) := by
      exact_mod_cast tenPow_pos _
    have hdiv := (within_ofInt y.signed).divPositive (within_ofInt (tenPow y.exponent.natAbs)) hpos
      (by omega : 1 ≤ bits)
    rw [mul_zero, zero_div, add_zero, zero_div, zero_add, add_zero, sub_zero] at hdiv
    rw [hvalue] at hsize ⊢
    refine hdiv.mono ?_
    rw [abs_div, abs_of_pos hpos] at hsize ⊢
    linarith

/-- An angle in degrees. -/
theorem exists_degrees (hbits : 64 ≤ bits) (hr : Within r a (|a| / 2)) :
    ∃ q, div bits (mulInt bits r 180) (pi bits) = some q ∧
      Within q (a * 180 / (16 / 5 - 4 / 239)) (3 / 4 * |a * 180 / (16 / 5 - 4 / 239)|) := by
  have hg := grain_le hbits
  have hproduct : Within (mulInt bits r 180) (a * 180) (51 / 100 * |a * 180|) := by
    refine (hr.mul (within_ofInt 180) bits).mono ?_
    have hgrown := mul_le_mul_of_nonneg_right hg (abs_nonneg a)
    rw [abs_mul]
    norm_num
    linarith [abs_nonneg a]
  have hpi : Within (pi bits) (16 / 5 - 4 / 239) (1 / 10 * |16 / 5 - 4 / 239|) := by
    refine (within_pi hbits).mono ?_
    norm_num [abs_of_pos]
  obtain ⟨q, hq, hnear⟩ := hproduct.div_relative hpi (by norm_num) (by norm_num) (by omega : 1 ≤ bits)
  refine ⟨q, hq, hnear.mono (mul_le_mul_of_nonneg_right ?_ (abs_nonneg _))⟩
  rw [div_le_iff₀ (by norm_num)]
  linarith

/-- A power of ten is not smaller than one of two with four times its exponent. -/
theorem two_zpow_le_ten_zpow (n : Nat) : (2 : ℝ) ^ (-(4 * n) : Int) ≤ 10 ^ (-n : Int) := by
  rw [zpow_neg, zpow_neg, zpow_mul, zpow_natCast, zpow_natCast]
  exact inv_anti₀ (by positivity) (pow_le_pow_left₀ (by norm_num) (by norm_num) n)

/-- **The direction of a decimal point**, in radians: it is zero for all working precisions, or for
none. -/
theorem exists_radians {x y : Decimal} (horigin : x.value ≠ 0 ∨ y.value ≠ 0)
    (hrange : x.value ≠ 0 → y.value ≠ 0 → 10 ^ (-1000000 : Int) ≤ |y.value / x.value|) :
    (∀ bits, 64 ≤ bits → ∃ r, direction bits (ofDecimal bits y) (ofDecimal bits x) = some r ∧
      Within r 0 0) ∨
    ∀ bits, 64 ≤ bits → ∃ r a, direction bits (ofDecimal bits y) (ofDecimal bits x) = some r ∧
      Within r a (|a| / 2) ∧ |a| ≤ 7 / 2 ∧ (2 : ℝ) ^ (-4000010 : Int) ≤ |a| := by
  have henclosed : ∀ bits, 64 ≤ bits → ∃ r a,
      direction bits (ofDecimal bits y) (ofDecimal bits x) = some r ∧ Within r a (|a| / 2) ∧
        |a| ≤ 7 / 2 ∧ ((y.value : ℝ) = 0 ∧ 0 < (x.value : ℝ) → a = 0) ∧
        (¬((y.value : ℝ) = 0 ∧ 0 < (x.value : ℝ)) → 1 ≤ |a| ∨ (x.value : ℝ) ≠ 0 ∧
          (y.value : ℝ) ≠ 0 ∧ |(y.value : ℝ) / (x.value : ℝ)| / 8 ≤ |a|) := by
    intro bits hbits
    have hg := grain_le hbits
    have hg0 := grain_pos bits
    refine exists_direction hbits (within_ofDecimal hbits y) (within_ofDecimal hbits x) (by linarith)
      (by linarith) ?_
    exact horigin.imp Rat.cast_ne_zero.mpr Rat.cast_ne_zero.mpr
  by_cases hzero : (y.value : ℝ) = 0 ∧ 0 < (x.value : ℝ)
  · refine .inl fun bits hbits => ?_
    obtain ⟨r, a, hr, hnear, -, ha, -⟩ := henclosed bits hbits
    rw [ha hzero, abs_zero, zero_div] at hnear
    exact ⟨r, hr, hnear⟩
  · refine .inr fun bits hbits => ?_
    obtain ⟨r, a, hr, hnear, hlarge, -, ha⟩ := henclosed bits hbits
    refine ⟨r, a, hr, hnear, hlarge, ?_⟩
    rcases ha hzero with hone | ⟨hx, hy, hle⟩
    · exact (zpow_le_one_of_nonpos₀ (by norm_num) (by norm_num)).trans hone
    · have hquotient := hrange (Rat.cast_ne_zero.mp hx) (Rat.cast_ne_zero.mp hy)
      have hcast : (10 : ℝ) ^ (-1000000 : Int) ≤ |(y.value : ℝ) / (x.value : ℝ)| := by
        rw [← Decimal.cast_ten_zpow, ← Rat.cast_div, ← Rat.cast_abs]
        exact Rat.cast_le.mpr hquotient
      -- the quotient of two decimals of a format has a leading bit far above the last one
      have hpower := two_zpow_le_ten_zpow 1000000
      have heighth : (2 : ℝ) ^ (-4000010 : Int) * 8 ≤ 2 ^ (-(4 * (1000000 : Nat)) : Int) := by
        rw [show (8 : ℝ) = 2 ^ (3 : Int) by norm_num, ← two_zpow_add]
        exact two_zpow_le (by norm_num)
      have hcast' : (10 : ℝ) ^ (-(1000000 : Nat) : Int) = 10 ^ (-1000000 : Int) := rfl
      linarith

end Interval

namespace Functions

/-- An angle that is enclosed clearly has a result. -/
theorem exists_computed (s : Settings) (hmax : s.precision ≤ Format.maxPrecision) {x : Enclosure}
    (hx : x.Clear) : ∃ z : Decimal, s.computed x = .ok (.finite z) := by
  obtain ⟨d, hd, hbound⟩ := hx.nearest s.computedDigits
  have htop : |d.value| ≤ 10 ^ Format.maxExponent := by
    have hpower : (10 : ℚ) ^ (7 : Int) ≤ 10 ^ Format.maxExponent := ten_zpow_le_iff.mpr (by decide)
    norm_num at hpower hbound
    linarith
  obtain ⟨v, hv⟩ := Format.rounded_ok (f := s.format)
    (Format.represents_ten_maxExponent (f := s.format) s.precision_pos) htop
  obtain ⟨z, hz, -⟩ := (Settings.settle_answers_iff (w := d) hmax).mpr hv
  refine ⟨z, ?_⟩
  rw [Settings.computed, hd]
  exact hz

/-- An angle in radians that is enclosed is computed in either unit. -/
theorem exists_angleResult (s : Settings) (hmax : s.precision ≤ Format.maxPrecision)
    {radians : Enclosure}
    (h : (∀ bits, 64 ≤ bits → ∃ r, radians bits = some r ∧ r.Within 0 0) ∨
      ∀ bits, 64 ≤ bits → ∃ r a, radians bits = some r ∧ r.Within a (|a| / 2) ∧ |a| ≤ 7 / 2 ∧
        (2 : ℝ) ^ (-4000010 : Int) ≤ |a|) :
    ∃ angle : Decimal, angleResult s radians = .ok (.finite angle) := by
  have hzero : ∀ {r : Interval}, r.Within 0 0 → r.isZero = true := by
    intro r hr
    obtain ⟨hlo, hhi⟩ := hr.ends_eq_zero
    simp [Interval.isZero, hlo, hhi]
  unfold angleResult
  split
  case h_1 =>
    refine exists_computed s hmax (h.imp (fun h bits hbits => ?_) fun h bits hbits => ?_)
    · obtain ⟨r, hr, hnear⟩ := h bits hbits
      exact ⟨r, hr, hzero hnear⟩
    · obtain ⟨r, a, hr, hnear, hlarge, hsmall⟩ := h bits hbits
      exact ⟨r, hr, a, hnear.mono (by linarith [abs_nonneg a]), by linarith, hsmall⟩
  case h_2 =>
    refine exists_computed s hmax (h.imp (fun h bits hbits => ?_) fun h bits hbits => ?_)
    · obtain ⟨r, hr, hnear⟩ := h bits hbits
      obtain ⟨q, hq, hqnear⟩ := Interval.exists_degrees hbits (r := r) (a := 0) (by simpa using hnear)
      simp only [hr, bind, Option.bind]
      exact ⟨q, hq, hzero (by simpa using hqnear)⟩
    · obtain ⟨r, a, hr, hnear, hlarge, hsmall⟩ := h bits hbits
      obtain ⟨q, hq, hqnear⟩ := Interval.exists_degrees hbits hnear
      simp only [hr, bind, Option.bind]
      -- in degrees the number is larger by a fixed factor
      have hsize : |a * 180 / (16 / 5 - 4 / 239)| = |a| * (17925 / 317) := by
        rw [mul_div_assoc, abs_mul]
        norm_num [abs_of_pos]
      refine ⟨q, hq, _, hqnear, ?_, ?_⟩
      · rw [hsize]
        linarith
      · rw [hsize]
        exact hsmall.trans (le_mul_of_one_le_right (abs_nonneg a) (by norm_num))

/-- **The direction of a point is computed**, if its coordinates are not too far apart. -/
theorem exists_direction (s : Settings) (hmax : s.precision ≤ Format.maxPrecision) {x y : Decimal}
    (horigin : x.value ≠ 0 ∨ y.value ≠ 0)
    (hrange : x.value ≠ 0 → y.value ≠ 0 → 10 ^ (-1000000 : Int) ≤ |y.value / x.value|) :
    ∃ angle : Decimal, direction s (.finite y) (.finite x) = .ok (.finite angle) := by
  have hpoint : ((Number.finite x).isZero && (Number.finite y).isZero) = false := by
    rw [Bool.and_eq_false_iff]
    exact horigin.imp Decimal.value_ne_zero_iff.mp Decimal.value_ne_zero_iff.mp
  obtain ⟨angle, hangle⟩ :=
    exists_angleResult s hmax (Interval.exists_radians horigin hrange)
  refine ⟨angle, ?_⟩
  unfold direction
  rw [hpoint]
  exact Outcome.guarded_eq_ok.mpr hangle

end Functions

end DecimalCalc
