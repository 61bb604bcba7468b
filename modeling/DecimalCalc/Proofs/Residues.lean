import DecimalCalc.Proofs.FaithfulRounding
import DecimalCalc.Proofs.FittingResults
import DecimalCalc.Proofs.ValueArithmetic

/-!
# Residues

The residue of a number is what is left of it when a multiple of the divisor is taken away, so that the
rest lies between zero and the magnitude of the divisor (`IsResidue`). It is computed from the
remainder of a division towards zero, to which the divisor is added if it is negative, and it is
rounded twice: in a working format whose precision grows with the distance of the leading digits, and
in the format of the settings.

Neither rounding is one if the operands are numbers of the format and their residue is too, and then
**the residue is exact** (`Functions.modulo_exact`). Otherwise the residue of a negative number may be
rounded up to the divisor itself, and a divisor that the working format cannot represent may be less
than the rounded remainder. What is in range in spite of that is said by `Functions.modulo_range`.
-/

set_option autoImplicit false

namespace DecimalCalc

open Except

/-! ## The residue of a number -/

/-- **The residue of a number**: it differs from it by a multiple of the divisor, and lies between zero
and the divisor's magnitude. -/
structure IsResidue (v w r : ℚ) : Prop where
  nonneg : 0 ≤ r
  lt : r < |w|
  multiple : ∃ k : ℤ, v - r = k * w

/-- What a division towards zero leaves of the magnitude. -/
def magnitudeRest (v w : ℚ) : ℚ := |v| - ⌊|v| / |w|⌋₊ * |w|

/-- What a division towards zero leaves, with the sign of the dividend. -/
def truncatedRest (v w : ℚ) : ℚ := if v < 0 then -magnitudeRest v w else magnitudeRest v w

section Values

variable {v w r r' : ℚ}

theorem IsResidue.unique (h : IsResidue v w r) (h' : IsResidue v w r') : r = r' := by
  obtain ⟨k, hk⟩ := h.multiple
  obtain ⟨k', hk'⟩ := h'.multiple
  have hw : 0 < |w| := h.nonneg.trans_lt h.lt
  have hdiff : r' - r = ((k - k' : ℤ) : ℚ) * w := by
    push_cast
    linarith
  -- the residues are closer to each other than two multiples are
  have hclose : |((k - k' : ℤ) : ℚ)| * |w| < 1 * |w| := by
    rw [← abs_mul, ← hdiff, one_mul, abs_lt]
    constructor
    · linarith [h.lt, h'.nonneg]
    · linarith [h'.lt, h.nonneg]
  have hzero : |k - k'| < 1 := by
    have := lt_of_mul_lt_mul_right hclose hw.le
    exact_mod_cast this
  have hsame : k - k' = 0 := Int.abs_lt_one_iff.mp hzero
  rw [hsame, Int.cast_zero, zero_mul] at hdiff
  linarith

theorem magnitudeRest_nonneg (hw : w ≠ 0) : 0 ≤ magnitudeRest v w := by
  have hpos : 0 < |w| := abs_pos.mpr hw
  have hfloor := Nat.floor_le (div_nonneg (abs_nonneg v) hpos.le)
  exact sub_nonneg.mpr ((le_div_iff₀ hpos).mp hfloor)

theorem magnitudeRest_lt (hw : w ≠ 0) : magnitudeRest v w < |w| := by
  have hpos : 0 < |w| := abs_pos.mpr hw
  have hfloor := (div_lt_iff₀ hpos).mp (Nat.lt_floor_add_one (|v| / |w|))
  unfold magnitudeRest
  linarith

theorem magnitudeRest_le : magnitudeRest v w ≤ |v| :=
  sub_le_self _ (mul_nonneg (Nat.cast_nonneg _) (abs_nonneg w))

theorem exists_multiple_abs (v : ℚ) (n : Nat) : ∃ k : ℤ, (n : ℚ) * |v| = k * v := by
  rcases abs_choice v with h | h
  · exact ⟨n, by rw [h]; push_cast; rfl⟩
  · exact ⟨-n, by rw [h]; push_cast; ring⟩

theorem truncatedRest_multiple (v w : ℚ) : ∃ k : ℤ, v - truncatedRest v w = k * w := by
  obtain ⟨k, hk⟩ := exists_multiple_abs w ⌊|v| / |w|⌋₊
  unfold truncatedRest magnitudeRest
  by_cases hv : v < 0
  · refine ⟨-k, ?_⟩
    rw [if_pos hv, hk, abs_of_neg hv]
    push_cast
    ring
  · refine ⟨k, ?_⟩
    rw [if_neg hv, hk, abs_of_nonneg (not_lt.mp hv)]
    ring

theorem abs_truncatedRest (hw : w ≠ 0) : |truncatedRest v w| = magnitudeRest v w := by
  have hnonneg : 0 ≤ magnitudeRest v w := magnitudeRest_nonneg hw
  unfold truncatedRest
  split
  · rw [abs_neg, abs_of_nonneg hnonneg]
  · exact abs_of_nonneg hnonneg

theorem neg_abs_lt_truncatedRest (hw : w ≠ 0) : -|w| < truncatedRest v w := by
  have hlt : |truncatedRest v w| < |w| := (abs_truncatedRest hw).trans_lt (magnitudeRest_lt hw)
  exact (abs_lt.mp hlt).1

theorem truncatedRest_lt (hw : w ≠ 0) : truncatedRest v w < |w| := by
  have hlt : |truncatedRest v w| < |w| := (abs_truncatedRest hw).trans_lt (magnitudeRest_lt hw)
  exact (abs_lt.mp hlt).2

theorem truncatedRest_nonneg (hw : w ≠ 0) (hv : 0 ≤ v) : 0 ≤ truncatedRest v w := by
  rw [truncatedRest, if_neg (not_lt.mpr hv)]
  exact magnitudeRest_nonneg hw

/-- **The residue** is the remainder, or the remainder and the divisor. -/
theorem isResidue_truncatedRest (v : ℚ) (hw : w ≠ 0) : IsResidue v w
    (if truncatedRest v w < 0 then truncatedRest v w + |w| else truncatedRest v w) := by
  obtain ⟨k, hk⟩ := truncatedRest_multiple v w
  by_cases hneg : truncatedRest v w < 0
  · obtain ⟨j, hj⟩ := exists_multiple_abs w 1
    rw [if_pos hneg]
    refine ⟨?_, by linarith, k - j, ?_⟩
    · linarith [neg_abs_lt_truncatedRest (v := v) hw]
    · push_cast at hj ⊢
      linarith
  · rw [if_neg hneg]
    exact ⟨not_lt.mp hneg, truncatedRest_lt hw, k, hk⟩

end Values

/-! ## Remainders of a format -/

namespace Format

variable {f : Format} {v w : ℚ}

/-- A remainder has no more digits than the operand whose last digit stands lower. -/
theorem represents_magnitudeRest (hv : f.Represents v) (hw : f.Represents w) (hne : w ≠ 0) :
    f.Represents (magnitudeRest v w) := by
  obtain ⟨n, d, hvalue, hn, hd⟩ := hv.place
  obtain ⟨m, e, hvalue', hm, he⟩ := hw.place
  have hpos : 0 < |w| := abs_pos.mpr hne
  have htop : magnitudeRest v w < 10 ^ (maxExponent + 1) := magnitudeRest_le.trans_lt hv.abs_lt
  -- on the smaller exponent both operands are integers, and so is the remainder
  have hplaced : ∀ {a b : Nat} {u : Int}, |v| = a * 10 ^ u → |w| = b * 10 ^ u →
      magnitudeRest v w = (a % b : Nat) * 10 ^ u := by
    intro a b u ha hb
    have hunit := ten_zpow_pos (K := ℚ) u
    have hquotient : |v| / |w| = (a : ℚ) / b := by rw [ha, hb, mul_div_mul_right _ _ hunit.ne']
    have hsplit : ((b * (a / b) + a % b : Nat) : ℚ) = a := by rw [Nat.div_add_mod]
    push_cast at hsplit
    rw [magnitudeRest, hquotient, Nat.floor_div_eq_div, ha, hb, ← hsplit]
    ring
  rcases le_total d e with hle | hle
  · have hscaled : |w| = (m * tenPow (e - d).toNat : Nat) * 10 ^ d := by
      rw [cast_scaled m hle, hvalue']
    have hrest := hplaced hvalue hscaled
    rw [hrest] at htop ⊢
    exact represents_of_place ((Nat.mod_le _ _).trans_lt hn) hd htop hv.precision_pos
  · have hscaled : |v| = (n * tenPow (d - e).toNat : Nat) * 10 ^ e := by
      rw [cast_scaled n hle, hvalue]
    have hm0 : 0 < m := by
      refine Nat.pos_of_ne_zero fun hm0 => ?_
      rw [hvalue', hm0, Nat.cast_zero, zero_mul] at hpos
      exact lt_irrefl _ hpos
    have hrest := hplaced hscaled hvalue'
    rw [hrest] at htop ⊢
    exact represents_of_place ((Nat.mod_lt _ hm0).trans hm) he htop hv.precision_pos

theorem represents_truncatedRest (hv : f.Represents v) (hw : f.Represents w) (hne : w ≠ 0) :
    f.Represents (truncatedRest v w) := by
  unfold truncatedRest
  split
  · exact (represents_magnitudeRest hv hw hne).neg
  · exact represents_magnitudeRest hv hw hne

end Format

/-- **The residue is a number of the format** if it has no more digits than the precision, as it is a
whole number of units of the lowest place like the operands. -/
theorem IsResidue.represents {f : Format} {v w : ℚ} {d : Decimal} (hm : IsResidue v w d.value)
    (hv : f.Represents v) (hw : f.Represents w) (hdigits : d.digits ≤ f.precision) :
    f.Represents d.value := by
  obtain ⟨a, ha⟩ := hv.multiple
  obtain ⟨b, hb⟩ := hw.multiple
  obtain ⟨k, hk⟩ := hm.multiple
  have hmultiple : d.value = ((a - k * b : ℤ) : ℚ) * 10 ^ f.tiny := by
    push_cast
    rw [ha, hb] at hk
    linarith
  have htop : |d.value| < 10 ^ (Format.maxExponent + 1) := by
    rw [abs_of_nonneg hm.nonneg]
    exact hm.lt.trans hw.abs_lt
  exact Format.represents_of_digits (K := ℚ) hv.precision_pos hdigits hmultiple htop

namespace Decimal

variable {f : Format} {x y : Decimal}

/-- **A remainder is rounded from the exact one**, if the quotient has no more digits than the
precision. -/
theorem remainder_value (hp : 0 < f.precision) (x y : Decimal)
    (hquotient : digitCount ⌊|x.value| / |y.value|⌋₊ ≤ f.precision) :
    (remainder f x y).map value = f.rounded (truncatedRest x.value y.value) := by
  obtain ⟨z, hz, hsign, habs⟩ := remainder_eq_round f x y
  -- the remainder has the sign of the dividend, a zero included
  have hvalue : z.value = truncatedRest x.value y.value := by
    have hsigned := cast_value_eq (K := ℚ) z
    simp only [Rat.cast_id, hsign, habs] at hsigned
    rw [hsigned]
    cases hx : x.isZero with
    | true =>
        have hzero := value_eq_zero_iff.mpr hx
        simp [truncatedRest, magnitudeRest, hzero]
    | false =>
        have hneg := negative_iff hx
        unfold truncatedRest magnitudeRest
        cases hflag : x.negative with
        | true => rw [if_pos rfl, if_pos (hneg.mp hflag)]
        | false =>
            have hnot : ¬x.value < 0 := by rw [← hneg, hflag]; decide
            rw [if_neg (by decide), if_neg hnot]
  rw [hz, if_neg (by omega), ← hvalue]
  exact round_value (K := ℚ) hp z

theorem add_value (hp : 0 < f.precision) (x y : Decimal) :
    (add f x y).map value = f.rounded (x.value + y.value) := by
  rw [← value_exactSum f.rounding]
  exact round_value (K := ℚ) hp _

/-- The residue of a decimal: its remainder in the format `g`, to which the divisor is added if it is
below zero, in the format `f`. -/
def residue (f g : Format) (x w : Decimal) : Except Signal Decimal :=
  (remainder g x w).bind fun z =>
    (if z.compare zero == .lt then add g z w else .ok z).bind (plus f)

/-- **The rule of residues**: a remainder is rounded to the format `g`, the divisor is added if it is
negative, and both the sum and the result are rounded. -/
def roundedResidue (f g : Format) (t w : ℚ) : Except Signal ℚ :=
  (g.rounded t).bind fun t => (if t < 0 then g.rounded (t + w) else .ok t).bind f.rounded

theorem roundedResidue_of_neg {g : Format} {t t' : ℚ} (ht : g.rounded t = .ok t') (h : t' < 0)
    (w : ℚ) : roundedResidue f g t w = (g.rounded (t' + w)).bind f.rounded := by
  unfold roundedResidue
  rw [ht, Except.bind, if_pos h]

theorem roundedResidue_of_nonneg {g : Format} {t t' : ℚ} (ht : g.rounded t = .ok t') (h : 0 ≤ t')
    (w : ℚ) : roundedResidue f g t w = f.rounded t' := by
  unfold roundedResidue
  rw [ht, Except.bind, if_neg (not_lt.mpr h), Except.bind]

/-- **A residue of decimals follows the rule**, if the quotient has room. -/
theorem residue_value {g : Format} (hp : 0 < f.precision) (hg : 0 < g.precision) (x w : Decimal)
    (hquotient : digitCount ⌊|x.value| / |w.value|⌋₊ ≤ g.precision) :
    (residue f g x w).map value = roundedResidue f g (truncatedRest x.value w.value) w.value := by
  unfold residue roundedResidue
  rw [← remainder_value hg x w hquotient, Except.bind_map, Except.map_bind]
  congr 1
  funext z
  have hbelow : (z.compare zero == .lt) = true ↔ z.value < 0 := by
    rw [compare_eq, value_zero, beq_iff_eq, compare_lt_iff_lt]
  by_cases hneg : z.value < 0
  · rw [if_pos (hbelow.mpr hneg), if_pos hneg, ← add_value hg, Except.bind_map, Except.map_bind]
    congr 1
    funext sum
    exact plus_value hp sum
  · rw [if_neg (mt hbelow.mp hneg), if_neg hneg]
    exact plus_value hp z

end Decimal

/-! ## Where rounded residues lie -/

section Range

open Decimal (roundedResidue roundedResidue_of_neg roundedResidue_of_nonneg)

variable {f g : Format} {v w m c : ℚ}

/-- **The residue itself is rounded**, first to the working format and then to the other one, if the
working format represents both operands. -/
theorem roundedResidue_of_represents (hv : g.Represents v) (hw : g.Represents w)
    (hm : IsResidue v w m) :
    roundedResidue f g (truncatedRest v w) |w| = (g.rounded m).bind f.rounded := by
  have hne : w ≠ 0 := abs_pos.mp (hm.nonneg.trans_lt hm.lt)
  have hexact := (Format.represents_truncatedRest hv hw hne).rounded
  obtain rfl := hm.unique (isResidue_truncatedRest v hne)
  by_cases hneg : truncatedRest v w < 0
  · rw [roundedResidue_of_neg hexact hneg, if_pos hneg]
  · rw [roundedResidue_of_nonneg hexact (not_lt.mp hneg), if_neg hneg, hexact, Except.bind]

/-- **A rounded residue is not negative**, unless a remainder is rounded away from zero beyond a divisor
that the working format cannot represent. -/
theorem roundedResidue_nonneg (hp : 0 < f.precision) (hg : 0 < g.precision) (hne : w ≠ 0)
    (h : g.rounding = .down ∨ g.rounding = .ceiling ∨ 0 ≤ v ∨ g.Represents w) :
    (roundedResidue f g (truncatedRest v w) |w|).Gives (0 ≤ ·) := by
  -- adding the divisor lifts the rounded remainder above zero
  have habove : (g.rounded (truncatedRest v w)).Gives (-|w| ≤ ·) := by
    have hlow : -|w| ≤ truncatedRest v w := (neg_abs_lt_truncatedRest hne).le
    have hsign : -|w| ≤ 0 := neg_nonpos.mpr (abs_nonneg w)
    have hpositive : 0 ≤ truncatedRest v w → (g.rounded (truncatedRest v w)).Gives (-|w| ≤ ·) :=
      fun hle => (Format.le_rounded (Format.represents_zero hg) hle).mono fun t ht => hsign.trans ht
    rcases h with hdown | hceiling | hv | hw
    · rcases le_total 0 (truncatedRest v w) with hle | hle
      · exact hpositive hle
      · exact (Format.rounded_between hdown _).mono fun t ht => hlow.trans (ht.2 hle)
    · exact (Format.self_le_rounded hceiling _).mono fun t ht => hlow.trans ht
    · exact hpositive (truncatedRest_nonneg hne hv)
    · exact Format.le_rounded (Format.represents_abs.mpr hw).neg hlow
  refine habove.bind fun t ht => ?_
  have hresult : ∀ a : ℚ, 0 ≤ a → (f.rounded a).Gives (0 ≤ ·) :=
    fun a => Format.le_rounded (Format.represents_zero hp)
  by_cases hneg : t < 0
  · rw [if_pos hneg]
    have hsum : 0 ≤ t + |w| := by linarith
    exact (Format.le_rounded (Format.represents_zero hg) hsum).bind hresult
  · rw [if_neg hneg]
    exact hresult t (not_lt.mp hneg)

/-- **A rounded residue is less than the divisor** in a mode that goes down above zero. -/
theorem roundedResidue_lt (hp : 0 < f.precision) (hg : 0 < g.precision) (hne : w ≠ 0)
    (hsame : f.rounding = g.rounding) (hmode : g.rounding = .down ∨ g.rounding = .floor) :
    (roundedResidue f g (truncatedRest v w) |w|).Gives (· < |w|) := by
  have hpos : 0 < |w| := abs_pos.mpr hne
  have hresult : ∀ a : ℚ, a < |w| → (f.rounded a).Gives (· < |w|) :=
    fun a => Format.rounded_lt (hsame ▸ hmode) hp hpos
  refine (Format.rounded_lt hmode hg hpos (truncatedRest_lt hne)).bind fun t ht => ?_
  by_cases hneg : t < 0
  · rw [if_pos hneg]
    have hsum : t + |w| < |w| := by linarith
    exact (Format.rounded_lt hmode hg hpos hsum).bind hresult
  · rw [if_neg hneg]
    exact hresult t ht

/-- **A rounded residue passes no number of the format**, if it is rounded from the exact one. -/
theorem roundedResidue_le (hp : 0 < f.precision) (hle : f.precision ≤ g.precision)
    (h : 0 ≤ v ∨ g.Represents v ∧ g.Represents w) (hm : IsResidue v w m) (hc : f.Represents c)
    (hmc : m ≤ c) : (roundedResidue f g (truncatedRest v w) |w|).Gives (· ≤ c) := by
  have hresult : ∀ a : ℚ, a ≤ c → (f.rounded a).Gives (· ≤ c) := fun a => Format.rounded_le hc
  rcases h with hv | ⟨hv, hw⟩
  · have hne : w ≠ 0 := abs_pos.mp (hm.nonneg.trans_lt hm.lt)
    have hnonneg := truncatedRest_nonneg (v := v) hne hv
    obtain rfl := hm.unique (isResidue_truncatedRest v hne)
    rw [if_neg (not_lt.mpr hnonneg)] at hmc
    -- the remainder is the residue, and no divisor is added after rounding
    have hzero := Format.le_rounded (Format.represents_zero (hp.trans_le hle)) hnonneg
    intro r hr
    obtain ⟨t, ht, hr⟩ := bind_eq_ok.mp hr
    rw [if_neg (not_lt.mpr (hzero t ht))] at hr
    exact hresult t (Format.rounded_le (hc.mono hle) hmc t ht) r hr
  · rw [roundedResidue_of_represents hv hw hm]
    exact (Format.rounded_le (hc.mono hle) hmc).bind hresult

end Range

/-! ## The modulo operation -/

namespace Functions

open Decimal (roundedResidue)

variable {f : Format} {x y : Decimal}

/-- **The format that a residue is worked out in**. It has room for every digit of the quotient. -/
def working (f : Format) (x y : Decimal) : Format :=
  ⟨(max (x.adjusted - y.adjusted) 0).toNat + f.precision + 2, f.rounding⟩

theorem working_precision_pos (f : Format) (x y : Decimal) : 0 < (working f x y).precision :=
  Nat.succ_pos _

theorem le_working (f : Format) (x y : Decimal) : f.precision ≤ (working f x y).precision := by
  unfold working
  dsimp only
  omega

/-- **The quotient has room** in the working format. -/
theorem quotient_digits (f : Format) (x : Decimal) (hy : y.isZero = false) :
    digitCount ⌊|x.value| / |y.value|⌋₊ ≤ (working f x y).precision := by
  have hp := working_precision_pos f x y
  have hpos : 0 < |y.value| := abs_pos.mpr (Decimal.value_ne_zero_iff.mpr hy)
  rw [digitCount_le_iff hp, Nat.floor_lt (div_nonneg (abs_nonneg _) hpos.le), cast_tenPow,
    div_lt_iff₀ hpos]
  obtain ⟨habove, -⟩ := Decimal.abs_value_bounds hy
  calc |x.value| < 10 ^ (x.adjusted + 1) := Decimal.abs_value_lt (Int.lt_succ x.adjusted)
    _ ≤ 10 ^ ((working f x y).precision + y.adjusted : Int) := by
        rw [ten_zpow_le_iff]
        unfold working
        dsimp only
        omega
    _ = 10 ^ ((working f x y).precision : Int) * 10 ^ y.adjusted := ten_zpow_add _ _
    _ ≤ 10 ^ ((working f x y).precision : Int) * |y.value| :=
        mul_le_mul_of_nonneg_left habove (ten_zpow_pos _).le

/-- The residue of numbers is that of decimals, if the working precision is not too large. -/
theorem residue_finite (hmax : (working f x y).precision ≤ Format.maxPrecision) :
    residue f (.finite x) (.finite y) =
      (Decimal.residue f (working f x y) x y.magnitude).map .finite := by
  have hmax' : f.precision ≤ Format.maxPrecision := (le_working f x y).trans hmax
  show (Number.remainder (working f x y) (.finite x) (.finite y.magnitude)).bind _ = _
  rw [Number.remainder, Number.lift₂_finite hmax, Except.bind_map, Decimal.residue,
    Except.map_bind]
  congr 1
  funext z
  have hbelow : (Number.finite z).isBelow Number.zero = .ok (z.compare Decimal.zero == .lt) := rfl
  rw [hbelow]
  cases z.compare Decimal.zero == .lt with
  | true =>
      show (Number.add (working f x y) (.finite z) (.finite y.magnitude)).bind (Number.plus f) = _
      rw [Number.add, Number.lift₂_finite hmax, if_pos rfl, Except.bind_map, Except.map_bind]
      congr 1
      funext sum
      exact Number.lift₁_finite hmax' _ _ sum
  | false =>
      show Number.plus f (.finite z) = _
      rw [Number.plus, Number.lift₁_finite hmax', if_neg (by decide)]
      rfl

/-- **The residue follows the rule**, if the working precision is not too large. -/
theorem residue_ok_iff (hp : 0 < f.precision) (hy : y.isZero = false)
    (hmax : (working f x y).precision ≤ Format.maxPrecision) {v : ℚ} :
    (∃ r : Decimal, residue f (.finite x) (.finite y) = .ok (.finite r) ∧ r.value = v) ↔
      roundedResidue f (working f x y) (truncatedRest x.value y.value) |y.value| = .ok v := by
  have hmagnitude : |y.magnitude.value| = |y.value| := by rw [Decimal.value_magnitude, abs_abs]
  have hrule := Decimal.residue_value hp (working_precision_pos f x y) x y.magnitude
    (by rw [hmagnitude]; exact quotient_digits f x hy)
  have htruncated : truncatedRest x.value y.magnitude.value = truncatedRest x.value y.value := by
    unfold truncatedRest magnitudeRest
    rw [hmagnitude]
  rw [htruncated, Decimal.value_magnitude] at hrule
  rw [← hrule, residue_finite hmax, map_eq_ok]
  constructor
  · rintro ⟨r, hr, hvalue⟩
    obtain ⟨r', hr', hsame⟩ := map_eq_ok.mp hr
    obtain rfl := Number.finite.inj hsame
    exact ⟨r', hr', hvalue⟩
  · rintro ⟨r, hr, hvalue⟩
    exact ⟨r, by rw [hr]; rfl, hvalue⟩

/-- No residue is answered where the working precision is too large. -/
theorem le_of_residue {z : Number} (h : residue f (.finite x) (.finite y) = .ok z) :
    (working f x y).precision ≤ Format.maxPrecision := by
  obtain ⟨rest, hrest, -⟩ := bind_eq_ok.mp h
  obtain ⟨u, hcheck, -⟩ := bind_eq_ok.mp hrest
  exact Number.le_of_check hcheck

/-- **The modulo operation answers the residue**, as the divisor is not zero. -/
theorem moduloIn_eq_ok (hy : y.isZero = false) {z : Number} :
    moduloIn f (.finite x) (.finite y) = .ok z ↔ residue f (.finite x) (.finite y) = .ok z := by
  have hnonzero : (Number.finite y).isZero = false := hy
  rw [moduloIn, Outcome.guarded_eq_ok, hnonzero, if_neg (by decide), Outcome.ofSignal, mapError_eq_ok]

/-- **The modulo operation is refused** where the working precision is too large. -/
theorem moduloIn_refused (hy : y.isZero = false)
    (hmax : Format.maxPrecision < (working f x y).precision) :
    moduloIn f (.finite x) (.finite y) =
      .error (.fault (.refused .modulo [.finite x, .finite y])) := by
  have hnonzero : (Number.finite y).isZero = false := hy
  rw [moduloIn, hnonzero, if_neg (by decide)]
  cases hresidue : residue f (.finite x) (.finite y) with
  | error signal => rfl
  | ok z => exact absurd (le_of_residue hresidue) (not_le.mpr hmax)

/-! ## Where the answer lies -/

/-- **Where the answer of the modulo operation lies**, for all finite operands. It is not negative if
the mode does not round a negative remainder away from zero, if there is no negative remainder, or if
the working format represents the divisor. It is less than the divisor's magnitude if the mode goes
down above zero, or if rounding starts from the exact residue and some number of the format lies
between the residue and the divisor. Of operands that the format itself represents the residue is
rounded twice, and not beyond the divisor; so only the divisor itself may be answered instead of a
number below it. -/
theorem modulo_range (s : Settings) {x y : Decimal} (hy : y.isZero = false) {z : Number}
    (h : modulo s (.finite x) (.finite y) = .ok z) :
    ∃ r : Decimal, z = .finite r ∧
      (s.rounding = .down ∨ s.rounding = .ceiling ∨ 0 ≤ x.value ∨
        (working s.format x y).Represents y.value → 0 ≤ r.value) ∧
      (s.rounding = .down ∨ s.rounding = .floor → r.value < |y.value|) ∧
      (0 ≤ x.value ∨ (working s.format x y).Represents x.value ∧
          (working s.format x y).Represents y.value →
        ∀ m c : ℚ, IsResidue x.value y.value m → s.format.Represents c → m ≤ c → c < |y.value| →
          r.value < |y.value|) ∧
      (s.format.Represents x.value → s.format.Represents y.value →
        ∀ m : ℚ, IsResidue x.value y.value m → 0 ≤ r.value ∧ r.value ≤ |y.value| ∧
          ((working s.format x y).rounded m).bind s.format.rounded = .ok r.value) := by
  have hp : 0 < s.format.precision := s.precision_pos
  have hg := working_precision_pos s.format x y
  have hle := le_working s.format x y
  have hne : y.value ≠ 0 := Decimal.value_ne_zero_iff.mpr hy
  rw [modulo, moduloIn_eq_ok hy] at h
  have hmax := le_of_residue h
  obtain ⟨r, rfl, -⟩ := residue_gives hp (Number.isFinite_finite x) (Number.isFinite_finite y) z h
  have hrule := (residue_ok_iff hp hy hmax).mp ⟨r, h, rfl⟩
  have hnonneg := fun hmode => roundedResidue_nonneg hp hg hne hmode r.value hrule
  refine ⟨r, rfl, hnonneg, ?_, ?_, ?_⟩
  · intro hmode
    exact roundedResidue_lt hp hg hne rfl hmode r.value hrule
  · intro hexact m c hm hc hmc hbelow
    exact (roundedResidue_le hp hle hexact hm hc hmc r.value hrule).trans_lt hbelow
  · intro hx hyf m hm
    have hwx := hx.mono hle
    have hwy := hyf.mono hle
    have htop := Format.represents_abs.mpr hyf
    refine ⟨hnonneg (.inr (.inr (.inr hwy))), ?_, ?_⟩
    · exact roundedResidue_le hp hle (.inr ⟨hwx, hwy⟩) hm htop hm.lt.le r.value hrule
    · rw [← roundedResidue_of_represents hwx hwy hm]
      exact hrule

/-- The residue of a negative number: two is left of minus seven by three, and rounding does not change
that it is less than three. -/
theorem modulo_range_negative :
    ∃ r : Decimal, modulo Settings.initial (.finite ⟨true, 7, 0⟩) (.finite ⟨false, 3, 0⟩) =
      .ok (.finite r) ∧ 0 ≤ r.value ∧ r.value < 3 := by
  have hrun : modulo Settings.initial (.finite ⟨true, 7, 0⟩) (.finite ⟨false, 3, 0⟩) =
      .ok (.finite ⟨false, 2, 0⟩) := by decide +kernel
  have hx : (working Settings.initial.format ⟨true, 7, 0⟩ ⟨false, 3, 0⟩).Represents
      (Decimal.value ⟨true, 7, 0⟩) := ⟨_, by decide +kernel, rfl⟩
  have hy : (working Settings.initial.format ⟨true, 7, 0⟩ ⟨false, 3, 0⟩).Represents
      (Decimal.value ⟨false, 3, 0⟩) := ⟨_, by decide +kernel, rfl⟩
  have htwo : Settings.initial.format.Represents (Decimal.value ⟨false, 2, 0⟩) :=
    ⟨_, by decide +kernel, rfl⟩
  have hseven : Decimal.value ⟨true, 7, 0⟩ = -7 := by norm_num [Decimal.value, Decimal.signed]
  have hthree : Decimal.value ⟨false, 3, 0⟩ = 3 := by norm_num [Decimal.value, Decimal.signed]
  have hvalue : Decimal.value ⟨false, 2, 0⟩ = 2 := by norm_num [Decimal.value, Decimal.signed]
  have hresidue : IsResidue (-7) 3 2 := ⟨by norm_num, by norm_num, -3, by norm_num⟩
  obtain ⟨r, hr, hnonneg, -, hbelow, -⟩ :=
    modulo_range Settings.initial (x := ⟨true, 7, 0⟩) (y := ⟨false, 3, 0⟩) rfl hrun
  have hlt := hbelow (.inr ⟨hx, hy⟩) 2 2
  rw [hseven, hthree, abs_of_pos (by norm_num)] at hlt
  refine ⟨r, by rw [hrun, hr], hnonneg (.inr (.inr (.inr hy))), ?_⟩
  exact hlt hresidue (hvalue ▸ htwo) le_rfl (by norm_num)

/-- **The residue of a negative number may be rounded up to the divisor**, as that of a number close to
zero is; and in a mode that rounds away from zero, a divisor of more digits than the working precision
may leave a negative residue. -/
theorem modulo_out_of_range :
    (∃ r : Decimal, modulo Settings.initial (.finite ⟨true, 1, -60⟩) (.finite ⟨false, 7, 0⟩) =
      .ok (.finite r) ∧ r.value = 7) ∧
    ∃ r : Decimal, modulo { Settings.initial with
        precision := 1, rounding := .up, precision_pos := Nat.one_pos }
          (.finite ⟨true, 69491, -4⟩) (.finite ⟨false, 69499, -4⟩) = .ok (.finite r) ∧
      r.value < 0 := by
  constructor
  · refine ⟨⟨false, 7 * tenPow 49, -49⟩, by decide +kernel, ?_⟩
    norm_num [Decimal.value, Decimal.signed, tenPow_eq]
  · refine ⟨⟨true, 1, -4⟩, by decide +kernel, ?_⟩
    norm_num [Decimal.value, Decimal.signed]

/-! ## Exact residues -/

/-- **The modulo operation is exact whenever it can be**: of operands that the format represents it
answers the residue itself, if that has no more digits than the precision. Only where the working
precision is beyond the largest one, the operation is refused. -/
theorem modulo_exact (s : Settings) {x y d : Decimal} (hx : s.format.Represents x.value)
    (hy : s.format.Represents y.value) (hm : IsResidue x.value y.value d.value)
    (hdigits : d.digits ≤ s.precision) :
    ((working s.format x y).precision ≤ Format.maxPrecision →
      ∃ r : Decimal, modulo s (.finite x) (.finite y) = .ok (.finite r) ∧ r.value = d.value) ∧
    (Format.maxPrecision < (working s.format x y).precision →
      modulo s (.finite x) (.finite y) =
        .error (.fault (.refused .modulo [.finite x, .finite y]))) := by
  have hle := le_working s.format x y
  have hne : y.value ≠ 0 := abs_pos.mp (hm.nonneg.trans_lt hm.lt)
  have hy0 : y.isZero = false := Decimal.value_ne_zero_iff.mp hne
  have hd := hm.represents hx hy hdigits
  constructor
  · intro hmax
    -- neither the working format nor that of the settings rounds the residue
    have hrule := calc
      Decimal.roundedResidue s.format (working s.format x y)
          (truncatedRest x.value y.value) |y.value|
        = ((working s.format x y).rounded d.value).bind s.format.rounded :=
          roundedResidue_of_represents (hx.mono hle) (hy.mono hle) hm
      _ = (Except.ok d.value).bind s.format.rounded := by rw [(hd.mono hle).rounded]
      _ = .ok d.value := hd.rounded
    obtain ⟨r, hr, hvalue⟩ := (residue_ok_iff s.precision_pos hy0 hmax).mpr hrule
    exact ⟨r, (moduloIn_eq_ok hy0).mpr hr, hvalue⟩
  · intro hmax
    exact moduloIn_refused hy0 hmax

/-- Minus a power of ten of many more digits than the precision, modulo seven. -/
theorem modulo_exact_power :
    let s : Settings := { Settings.initial with precision := 3, precision_pos := by decide }
    ∃ r : Decimal, modulo s (.finite ⟨true, 1, 30⟩) (.finite ⟨false, 7, 0⟩) = .ok (.finite r) ∧
      r.value = 6 := by
  intro s
  have hx : s.format.Represents (Decimal.value ⟨true, 1, 30⟩) := ⟨_, by decide +kernel, rfl⟩
  have hy : s.format.Represents (Decimal.value ⟨false, 7, 0⟩) := ⟨_, by decide +kernel, rfl⟩
  have hvalue : Decimal.value ⟨false, 6, 0⟩ = 6 := by norm_num [Decimal.value, Decimal.signed]
  have hresidue : IsResidue (Decimal.value ⟨true, 1, 30⟩) (Decimal.value ⟨false, 7, 0⟩)
      (Decimal.value ⟨false, 6, 0⟩) := by
    refine ⟨?_, ?_, -142857142857142857142857142858, ?_⟩
    · norm_num [Decimal.value, Decimal.signed]
    · norm_num [Decimal.value, Decimal.signed]
    · norm_num [Decimal.value, Decimal.signed]
  obtain ⟨r, hr, hsame⟩ := (modulo_exact s hx hy hresidue (by decide +kernel)).1 (by decide +kernel)
  exact ⟨r, hr, hsame.trans hvalue⟩

/-- **Not every exact residue is answered**: close to the largest precision no digit is left for the
quotient, and five modulo three is refused. -/
theorem modulo_exact_refused :
    let s : Settings :=
      { Settings.initial with precision := 999999999999999998, precision_pos := by decide }
    s.format.Represents (Decimal.value ⟨false, 5, 0⟩) ∧
      s.format.Represents (Decimal.value ⟨false, 3, 0⟩) ∧
      IsResidue (Decimal.value ⟨false, 5, 0⟩) (Decimal.value ⟨false, 3, 0⟩)
        (Decimal.value ⟨false, 2, 0⟩) ∧
      Decimal.digits ⟨false, 2, 0⟩ ≤ s.precision ∧
      modulo s (.finite ⟨false, 5, 0⟩) (.finite ⟨false, 3, 0⟩) =
        .error (.fault (.refused .modulo [.finite ⟨false, 5, 0⟩, .finite ⟨false, 3, 0⟩])) := by
  intro s
  have hfive : s.format.Represents (Decimal.value ⟨false, 5, 0⟩) := ⟨_, by decide +kernel, rfl⟩
  have hthree : s.format.Represents (Decimal.value ⟨false, 3, 0⟩) := ⟨_, by decide +kernel, rfl⟩
  have hresidue : IsResidue (Decimal.value ⟨false, 5, 0⟩) (Decimal.value ⟨false, 3, 0⟩)
      (Decimal.value ⟨false, 2, 0⟩) := by
    refine ⟨?_, ?_, 1, ?_⟩
    · norm_num [Decimal.value, Decimal.signed]
    · norm_num [Decimal.value, Decimal.signed]
    · norm_num [Decimal.value, Decimal.signed]
  exact ⟨hfive, hthree, hresidue, by decide +kernel, by decide +kernel⟩

end Functions

end DecimalCalc
