import DecimalCalc.Decimal.Logarithm
import DecimalCalc.Decimal.Power
import DecimalCalc.Decimal.Root
import DecimalCalc.Enclosure.Gamma
import DecimalCalc.Proofs.Fitting
import Mathlib.Data.Nat.Cast.Field

/-!
# Arithmetic on decimals of one value

Decimals may differ in their zeros at the end and stand for one number. No operation tells them
apart: from operands of the same values it makes results of the same value, or fails on both
(`Decimal.agree_divide`, `Decimal.agree_squareRoot`, `Decimal.agree_power` and so on). What an
operation rounds is described by the values of its operands alone, and rounding a decimal rounds its
value. A quotient is cut off first, and yet it is rounded as the exact one is
(`Decimal.divide_value`). Functions that are computed by intervals see no more of an operand than its
reduced form, so they have one result.

A power of one shows how many zeros its base had, but not in its value; and a power with a fractional
exponent is computed to as many digits as its base has, if these are more than the precision. So its
base has to be within the precision.
-/

set_option autoImplicit false

namespace DecimalCalc

open Except

namespace Decimal

/-- **Decimals that stand for one number.** -/
def Same (x y : Decimal) : Prop := x.value = y.value

variable {f : Format} {x x' y y' : Decimal}

namespace Same

theorem refl (x : Decimal) : Same x x := rfl

theorem symm (h : Same x y) : Same y x := Eq.symm h

theorem trans {z : Decimal} (h : Same x y) (h' : Same y z) : Same x z := Eq.trans h h'

theorem neg (h : Same x y) : Same x.neg y.neg := by
  unfold Same
  rw [value_neg, value_neg, h]

theorem magnitude (h : Same x y) : Same x.magnitude y.magnitude := by
  unfold Same
  rw [value_magnitude, value_magnitude, h]

theorem isZero (h : Same x y) : x.isZero = y.isZero := isZero_congr h

theorem adjusted (h : Same x y) (hx : x.isZero = false) : x.adjusted = y.adjusted :=
  adjusted_congr (by rw [h]) hx

theorem compare (hx : Same x x') (hy : Same y y') : x.compare y = x'.compare y' := by
  rw [compare_eq, compare_eq, hx, hy]

theorem exactSum (mode mode' : Rounding) (hx : Same x x') (hy : Same y y') :
    Same (exactSum mode x y) (exactSum mode' x' y') := by
  unfold Same
  rw [value_exactSum, value_exactSum, hx, hy]

theorem exactProduct (hx : Same x x') (hy : Same y y') :
    Same (exactProduct x y) (exactProduct x' y') := by
  unfold Same
  rw [value_exactProduct, value_exactProduct, hx, hy]

theorem isOne (h : Same x y) : x.isOne = y.isOne := by
  unfold Decimal.isOne
  rw [h.compare (.refl one)]

theorem isOdd (h : Same x y) : x.isOdd = y.isOdd := by
  unfold Decimal.isOdd
  rw [isInteger_congr h, truncate_congr h]

/-- Decimals of one value have one interval. -/
theorem ofDecimal (h : Same x y) (bits : Nat) :
    Interval.ofDecimal bits x = Interval.ofDecimal bits y := by
  unfold Interval.ofDecimal
  rw [reduced_eq h]

end Same

/-- Products of signs and magnitudes that are the same. -/
theorem same_of_sign (hsign : x.negative = y.negative) (habs : |x.value| = |y.value|) : Same x y :=
  value_eq_of_abs hsign habs

/-! ## Rounding, sums and products -/

section Rounded

variable (hp : 0 < f.precision)

include hp

omit hp in
/-- Results agree if their values are the same. -/
theorem agree_of_value {result result' : Except Signal Decimal}
    (h : result.map value = result'.map value) : Agree Same result result' := by
  cases result with
  | error e =>
      cases result' with
      | error e' => exact .error e e'
      | ok b => cases h
  | ok a =>
      cases result' with
      | error e' => cases h
      | ok b => exact .ok (ok.inj h)

/-- **Decimals of one value are rounded alike.** -/
theorem agree_round (h : Same x y) : Agree Same (x.round f) (y.round f) := by
  have hx := round_value (K := ℚ) hp x
  have hy := round_value (K := ℚ) hp y
  rw [h, ← hy] at hx
  exact agree_of_value hx

/-- **A decimal itself is rounded by its value**, whatever becomes of the sign of a zero. -/
theorem plus_value (x : Decimal) : (plus f x).map value = f.rounded x.value := by
  have hround : ∀ y : Decimal, (y.round f).map value = f.rounded y.value := fun y =>
    round_value (K := ℚ) hp y
  unfold plus
  split
  · rename_i hzero
    have hvalue : x.value = 0 := value_eq_zero_iff.mpr (Bool.and_eq_true_iff.mp hzero).1
    rw [hround, value_magnitude, hvalue, abs_zero]
  · exact hround x

theorem agree_plus (h : Same x y) : Agree Same (plus f x) (plus f y) := by
  unfold plus
  exact agree_ite (by rw [h.isZero]) (fun _ => agree_round hp h.magnitude)
    (fun _ => agree_round hp h)

theorem agree_add (hx : Same x x') (hy : Same y y') :
    Agree Same (add f x y) (add f x' y') :=
  agree_round hp (hx.exactSum _ _ hy)

theorem agree_multiply (hx : Same x x') (hy : Same y y') :
    Agree Same (multiply f x y) (multiply f x' y') :=
  agree_round hp (hx.exactProduct hy)

end Rounded

/-- Decimals of one value agree in two formats that have room for all of their digits. -/
theorem agree_round_of_room {g : Format} (h : Same x y)
    (hx : x.isZero = false → x.digits ≤ f.precision ∧ f.tiny ≤ x.exponent)
    (hy : y.isZero = false → y.digits ≤ g.precision ∧ g.tiny ≤ y.exponent) :
    Agree Same (x.round f) (y.round g) := by
  cases hx0 : x.isZero with
  | true =>
      have hy0 : y.isZero = true := h.isZero ▸ hx0
      obtain ⟨a, ha, ha0⟩ := round_zero f hx0
      obtain ⟨b, hb, hb0⟩ := round_zero g hy0
      rw [ha, hb]
      exact .ok ((value_eq_zero_iff.mpr ha0).trans (value_eq_zero_iff.mpr hb0).symm)
  | false =>
      have hy0 : y.isZero = false := h.isZero ▸ hx0
      rw [round_of_room (hx hx0).1 (hx hx0).2 hx0, round_of_room (hy hy0).1 (hy hy0).2 hy0]
      exact agree_ite (by rw [h.adjusted hx0]) (fun _ => .error _ _) (fun _ => .ok h)

/-! ## Numbers that are cut off -/

section CutOff

variable {K : Type} [Field K] [LinearOrder K] [IsStrictOrderedRing K] [FloorSemiring K]

/-- A last digit that rounding could take for exact, raised by one. -/
def raised (q : Nat) : Nat := if q % 5 = 0 then q + 1 else q

/-- **A number between two whole ones** lies among the multiples of five where the lower one does,
raised if rounding could take it for exact. -/
theorem alike_raised {q : Nat} {v : K} (hlow : (q : K) < v) (hhigh : v < q + 1) :
    Alike 5 ((raised q : Nat) : K) v := by
  intro n
  have hfive : (n : K) * 5 = ((n * 5 : Nat) : K) := by push_cast; rfl
  have hle : n * 5 ≤ q ↔ (n : K) * 5 < v := by
    rw [hfive]
    refine ⟨fun h => (Nat.cast_le.mpr h).trans_lt hlow, fun h => ?_⟩
    have hlt : ((n * 5 : Nat) : K) < ((q + 1 : Nat) : K) := by
      push_cast at h ⊢
      exact h.trans hhigh
    exact Nat.lt_succ_iff.mp (Nat.cast_lt.mp hlt)
  have hlt : q < n * 5 ↔ v < (n : K) * 5 := by
    rw [hfive]
    refine ⟨fun h => hhigh.trans_le ?_, fun h => Nat.cast_lt.mp (hlow.trans h)⟩
    exact_mod_cast h
  rw [← hle, ← hlt, hfive, Nat.cast_lt, Nat.cast_lt]
  unfold raised
  split <;> omega

/-- **A decimal that was cut off is rounded as the number itself**, if it was cut off below the last
place that is kept. -/
theorem round_of_alike {e : Int} {v : K} {z : Decimal} (hp : 0 < f.precision)
    (hsign : v < 0 ↔ z.negative = true) (halike : Alike (5 * 10 ^ e) |v| |(z.value : K)|)
    (hlarge : (10 : K) ^ (e + f.precision) ≤ |v|) :
    (z.round f).map (fun y => (y.value : K)) = f.rounded v := by
  have hpos : 0 < |v| := (ten_zpow_pos _).trans_le hlarge
  have hz : z.isZero = false := by
    rw [← value_ne_zero_iff]
    intro hzero
    have hnone := (halike 0).1.mp (by simpa using hpos)
    simp [hzero] at hnone
  have hsame : v < 0 ↔ (z.value : K) < 0 := by
    rw [hsign, negative_iff hz]
    exact_mod_cast Iff.rfl
  rw [Format.rounded_congr hsame halike hlarge hp]
  exact round_value hp z

end CutOff

/-! ## Quotients -/

/-- A number cut off at a whole one, and whether nothing is lost. -/
def cutOff (v : ℚ) : Nat × Bool :=
  if (⌊v⌋₊ : ℚ) = v then (⌊v⌋₊, true) else (raised ⌊v⌋₊, false)

theorem cast_shifted (n d : Nat) (shift : Int) :
    (n : ℚ) / d * 10 ^ shift =
      ((n * tenPow shift.toNat : Nat) : ℚ) / ((d * tenPow (-shift).toNat : Nat) : ℚ) := by
  have hten : (10 : ℚ) ^ shift = (tenPow shift.toNat : ℚ) / tenPow (-shift).toNat := by
    rcases le_total 0 shift with h | h
    · rw [cast_tenPow_toNat h, show (-shift).toNat = 0 by omega, tenPow_zero, Nat.cast_one, div_one]
    · rw [cast_tenPow_toNat (e := -shift) (by omega), show shift.toNat = 0 by omega, tenPow_zero,
        Nat.cast_one, one_div, zpow_neg, inv_inv]
  rw [hten, Nat.cast_mul, Nat.cast_mul, div_mul_div_comm]

theorem floor_eq_iff_mod {n d : Nat} (hd : d ≠ 0) :
    ((⌊(n : ℚ) / d⌋₊ : Nat) : ℚ) = n / d ↔ n % d = 0 := by
  have hpos : (d : ℚ) ≠ 0 := by exact_mod_cast hd
  rw [Nat.floor_div_eq_div, eq_div_iff hpos, ← Nat.cast_mul, Nat.cast_inj,
    ← Nat.dvd_iff_mod_eq_zero]
  exact ⟨fun h => ⟨n / d, by rw [Nat.mul_comm, h]⟩, Nat.div_mul_cancel⟩

/-- **The quotient of two coefficients** is cut off from the quotient of two numbers. -/
theorem cutQuotient_eq {n d : Nat} (shift : Int) (hd : d ≠ 0) :
    cutQuotient shift n d = cutOff (n / d * 10 ^ shift) := by
  have hd' : d * tenPow (-shift).toNat ≠ 0 := Nat.mul_ne_zero hd (tenPow_ne_zero _)
  unfold cutQuotient cutOff
  dsimp only
  rw [cast_shifted, Nat.floor_div_eq_div]
  refine ite_congr (propext ?_) (fun _ => rfl) (fun _ => rfl)
  rw [← floor_eq_iff_mod hd', Nat.floor_div_eq_div]

/-- The unit that a quotient is cut off at. -/
def quotientUnit (f : Format) (x y : Decimal) : Int := x.adjusted - y.adjusted - f.precision - 1

/-- **What a quotient is rounded from**: the sign, and the quotient of the magnitudes cut off. -/
theorem divide_eq_round (hx : x.isZero = false) (hy : y.isZero = false) :
    ∃ z : Decimal, divide f x y = z.round f ∧ z.negative = (x.negative != y.negative) ∧
      |z.value| = (cutOff (|x.value| / |y.value| / 10 ^ quotientUnit f x y)).1 *
        10 ^ quotientUnit f x y := by
  have hunit : quotientUnit f x y =
      x.exponent - y.exponent - (y.digits - x.digits + f.precision + 1) := by
    unfold quotientUnit adjusted
    omega
  have hscaled : |x.value| / |y.value| / 10 ^ quotientUnit f x y =
      (x.coefficient : ℚ) / y.coefficient *
        10 ^ ((y.digits : Int) - x.digits + f.precision + 1) := by
    have hne : (10 : ℚ) ≠ 0 := by norm_num
    rw [hunit, abs_value, abs_value, mul_div_mul_comm, ← zpow_sub₀ hne, mul_div_assoc,
      ← zpow_sub₀ hne, sub_sub_cancel]
  unfold divide
  rw [if_neg (by rw [hx]; exact Bool.false_ne_true), hscaled]
  dsimp only
  rw [cutQuotient_eq _ (coefficient_ne_zero hy)]
  generalize cutOff _ = cut
  generalize hshift : (y.digits : Int) - x.digits + f.precision + 1 = shift at hunit ⊢
  obtain ⟨q, exact⟩ := cut
  dsimp only
  cases exact with
  | false =>
      refine ⟨_, if_neg Bool.false_ne_true, rfl, ?_⟩
      rw [abs_value, hunit]
  | true =>
      refine ⟨_, if_pos rfl, rfl, ?_⟩
      -- an exact quotient sheds zeros, which only moves its exponent
      have hstrip : ((stripZeros shift.toNat q).1 : ℚ) *
          10 ^ ((stripZeros shift.toNat q).2 : Int) = q := by
        rw [← cast_tenPow, ← Nat.cast_mul, (stripZeros_value shift.toNat q).1]
      rw [abs_value, hunit]
      dsimp only
      rw [← hstrip, ten_zpow_add]
      ring

/-- A number that is cut off lies among the multiples of five where the number itself does. -/
theorem alike_cutOff {v : ℚ} (hv : 0 ≤ v) : Alike 5 ((cutOff v).1 : ℚ) v := by
  unfold cutOff
  by_cases hwhole : (⌊v⌋₊ : ℚ) = v
  · rw [if_pos hwhole, hwhole]
    exact fun n => ⟨Iff.rfl, Iff.rfl⟩
  · rw [if_neg hwhole]
    exact alike_raised (lt_of_le_of_ne (Nat.floor_le hv) hwhole) (Nat.lt_floor_add_one v)

/-- A quotient has all the digits that are kept above the unit that it is cut off at. -/
theorem quotient_large (hx : x.isZero = false) (hy : y.isZero = false) :
    (10 : ℚ) ^ (quotientUnit f x y + f.precision) ≤ |x.value / y.value| := by
  obtain ⟨hxle, -⟩ := abs_value_bounds hx
  obtain ⟨-, hylt⟩ := abs_value_bounds hy
  have hpos : 0 < |y.value| := abs_pos.mpr (value_ne_zero_iff.mpr hy)
  rw [abs_div, le_div_iff₀ hpos]
  calc (10 : ℚ) ^ (quotientUnit f x y + f.precision) * |y.value|
      ≤ 10 ^ (quotientUnit f x y + f.precision) * 10 ^ (y.adjusted + 1) :=
        mul_le_mul_of_nonneg_left hylt.le (ten_zpow_pos _).le
    _ = 10 ^ x.adjusted := by
        rw [← ten_zpow_add, quotientUnit]
        congr 1
        omega
    _ ≤ |x.value| := hxle

/-- **Quotients are correctly rounded.** -/
theorem divide_value (hp : 0 < f.precision) (x : Decimal) (hy : y.isZero = false) :
    (divide f x y).map value = f.rounded (x.value / y.value) := by
  cases hx : x.isZero with
  | true =>
      have hzero : (⟨x.negative != y.negative, 0, x.exponent - y.exponent⟩ : Decimal).value = 0 :=
        value_eq_zero_iff.mpr rfl
      rw [value_eq_zero_iff.mpr hx, zero_div, ← hzero]
      unfold divide
      rw [if_pos hx]
      exact round_value (K := ℚ) hp _
  | false =>
      obtain ⟨z, hz, hsign, habs⟩ := divide_eq_round (f := f) hx hy
      have hunit := ten_zpow_pos (K := ℚ) (quotientUnit f x y)
      -- what was cut off lies below all places that rounding asks for
      have halike : Alike (5 * 10 ^ quotientUnit f x y) |x.value / y.value| |z.value| := by
        have hcut := (alike_cutOff (v := |x.value| / |y.value| / 10 ^ quotientUnit f x y)
          (by positivity)).mul hunit
        rw [div_mul_cancel₀ _ hunit.ne', ← habs, ← abs_div] at hcut
        exact hcut.symm
      have hnegative : x.value / y.value < 0 ↔ z.negative = true := by
        rw [div_neg_iff, pos_iff hx, pos_iff hy, ← negative_iff hx, ← negative_iff hy, hsign]
        cases x.negative <;> cases y.negative <;> simp
      rw [hz]
      exact round_of_alike (K := ℚ) hp hnegative halike (quotient_large hx hy)

/-- **Quotients of decimals of one value** are of one value. -/
theorem agree_divide (hp : 0 < f.precision) (hx : Same x x') (hy : Same y y')
    (hy0 : y.isZero = false) : Agree Same (divide f x y) (divide f x' y') := by
  refine agree_of_value ?_
  rw [divide_value hp x hy0, divide_value hp x' (hy.isZero ▸ hy0), hx, hy]

/-! ## Remainders -/

/-- **What a remainder is rounded from**, and when there is none. -/
theorem remainder_eq_round (f : Format) (x y : Decimal) :
    ∃ z : Decimal, remainder f x y =
      (if f.precision < digitCount ⌊|x.value| / |y.value|⌋₊ then .error .invalidOperation
        else z.round f) ∧ z.negative = x.negative ∧
      |z.value| = |x.value| - ⌊|x.value| / |y.value|⌋₊ * |y.value| := by
  -- on the smaller exponent of both the operands are whole numbers
  have hxe := abs_scaledTo_mul (min_le_left x.exponent y.exponent)
  have hye := abs_scaledTo_mul (min_le_right x.exponent y.exponent)
  have hpos := ten_zpow_pos (K := ℚ) (min x.exponent y.exponent)
  unfold remainder
  dsimp only
  generalize min x.exponent y.exponent = e at hxe hye hpos
  generalize (x.scaledTo e).natAbs = n at hxe
  generalize (y.scaledTo e).natAbs = d at hye
  have hquotient : |x.value| / |y.value| = (n : ℚ) / d := by
    rw [← hxe, ← hye, mul_div_mul_right _ _ hpos.ne']
  rw [hquotient, Nat.floor_div_eq_div]
  refine ⟨⟨x.negative, n % d, e⟩, rfl, rfl, ?_⟩
  have hrest : ((n % d : Nat) : ℚ) = n - (n / d : Nat) * d := by
    have hsplit : ((d * (n / d) + n % d : Nat) : ℚ) = n := by rw [Nat.div_add_mod]
    push_cast at hsplit
    linarith
  rw [abs_value, ← hxe, ← hye]
  dsimp only
  rw [hrest]
  ring

theorem agree_remainder (hp : 0 < f.precision) (hx : Same x x') (hy : Same y y') :
    Agree Same (remainder f x y) (remainder f x' y') := by
  obtain ⟨z, hz, hsign, habs⟩ := remainder_eq_round f x y
  obtain ⟨z', hz', hsign', habs'⟩ := remainder_eq_round f x' y'
  have hsame : Same z z' := by
    cases hx0 : x.isZero with
    | false =>
        refine same_of_sign ?_ ?_
        · rw [hsign, hsign', negative_congr hx hx0]
        · rw [habs, habs', hx, hy]
    | true =>
        have hvalue := value_eq_zero_iff.mpr hx0
        have hvalue' := value_eq_zero_iff.mpr (hx.isZero ▸ hx0)
        rw [hvalue] at habs
        rw [hvalue'] at habs'
        have hz0 : z.value = 0 := by simpa using habs
        have hz0' : z'.value = 0 := by simpa using habs'
        exact hz0.trans hz0'.symm
  rw [hz, hz', hx, hy]
  exact agree_ite Iff.rfl (fun _ => .error _ _) (fun _ => agree_round hp hsame)

/-! ## Square roots -/

/-- The root of a number, cut off. -/
def cutRoot (v : ℚ) : Nat :=
  if ((⌊v⌋₊.sqrt * ⌊v⌋₊.sqrt : Nat) : ℚ) = v then ⌊v⌋₊.sqrt else raised ⌊v⌋₊.sqrt

/-- The unit that a square root is cut off at. -/
def rootUnit (f : Format) (x : Decimal) : Int := (x.adjusted + 2) / 2 - f.precision - 1

/-- A number is an exact square if nothing is lost when it is cut off. -/
theorem exact_square_iff {n d r : Nat} (hd : d ≠ 0) :
    (n % d = 0 ∧ r * r = n / d) ↔ ((r * r : Nat) : ℚ) = (n : ℚ) / d := by
  constructor
  · rintro ⟨hmod, hsquare⟩
    rw [hsquare, ← (floor_eq_iff_mod hd).mpr hmod, Nat.floor_div_eq_div]
  · intro h
    have hfloor : r * r = n / d := by rw [← Nat.floor_div_eq_div (K := ℚ), ← h, Nat.floor_natCast]
    refine ⟨(floor_eq_iff_mod hd).mp ?_, hfloor⟩
    rw [Nat.floor_div_eq_div, ← hfloor, h]

/-- An exact root ends in as many zeros as were added in pairs. -/
theorem tenPow_dvd_root {c r : Nat} {shift : Int} (h : r * r = c * tenPow (2 * shift.toNat) /
    tenPow (2 * (-shift).toNat)) : tenPow shift.toNat ∣ r * tenPow (-shift).toNat := by
  rcases le_total shift 0 with hshift | hshift
  · rw [show shift.toNat = 0 by omega]
    exact one_dvd _
  · have hsquare : r ^ 2 = c * tenPow shift.toNat ^ 2 := by
      rw [pow_two, h, show (-shift).toNat = 0 by omega, tenPow_zero, Nat.div_one, tenPow_eq,
        tenPow_eq, ← pow_mul, Nat.mul_comm 2]
    exact ((Nat.pow_dvd_pow_iff (by decide)).mp (Dvd.intro_left c hsquare.symm)).mul_right _

/-- A radicand that zeros are added to in pairs, or taken from. -/
theorem shifted_radicand (c : Nat) (ideal shift : Int) :
    (c : ℚ) * 10 ^ (2 * ideal) / 10 ^ (2 * (ideal - shift)) =
      ((c * tenPow (2 * shift.toNat) : Nat) : ℚ) / (tenPow (2 * (-shift).toNat) : Nat) := by
  have hne : (10 : ℚ) ≠ 0 := by norm_num
  have h := cast_shifted c 1 (2 * shift)
  rw [show (2 * shift).toNat = 2 * shift.toNat by omega,
    show (-(2 * shift)).toNat = 2 * (-shift).toNat by omega, Nat.cast_one, div_one,
    Nat.one_mul] at h
  rw [← h, mul_div_assoc, ← zpow_sub₀ hne]
  congr 2
  omega

/-- An exact root is written without the zeros that were added. -/
theorem exact_root_value {c r : Nat} {shift : Int} (ideal : Int)
    (h : r * r = c * tenPow (2 * shift.toNat) / tenPow (2 * (-shift).toNat)) :
    ((r * tenPow (-shift).toNat / tenPow shift.toNat : Nat) : ℚ) * 10 ^ ideal =
      r * 10 ^ (ideal - shift) := by
  have hten : (tenPow (-shift).toNat : ℚ) / tenPow shift.toNat = 10 ^ (-shift) := by
    have h := cast_shifted 1 1 (-shift)
    rw [neg_neg, Nat.one_mul, Nat.one_mul, Nat.cast_one, div_one, one_mul] at h
    exact h.symm
  rw [Nat.cast_div (tenPow_dvd_root h) (by exact_mod_cast tenPow_ne_zero _), Nat.cast_mul,
    mul_div_assoc, hten, mul_assoc, ← ten_zpow_add]
  congr 2
  omega

/-- **What a square root is rounded from**: the root of the magnitude, cut off. -/
theorem squareRoot_eq_round (hx : x.isZero = false) :
    ∃ z : Decimal, squareRoot f x = z.round { f with rounding := .halfEven } ∧
      z.negative = x.negative ∧
      |z.value| = cutRoot (|x.value| / 10 ^ (2 * rootUnit f x)) * 10 ^ rootUnit f x := by
  unfold squareRoot
  dsimp only
  rw [if_neg (by rw [hx]; exact Bool.false_ne_true)]
  -- the radicand as a coefficient with an even exponent
  generalize hideal : x.exponent.fdiv 2 = ideal
  have hodd : 0 ≤ x.exponent - 2 * ideal ∧ x.exponent - 2 * ideal ≤ 1 := by
    rw [Int.fdiv_eq_ediv_of_nonneg _ (by decide)] at hideal
    omega
  generalize hc : x.coefficient * tenPow (x.exponent - 2 * ideal).toNat = c
  have hvalue : |x.value| = c * 10 ^ (2 * ideal) := by
    rw [← hc, cast_scaled _ (by omega), abs_value]
  have hdigits : (digitCount c : Int) = x.digits + (x.exponent - 2 * ideal) := by
    rw [← hc, digitCount_mul_tenPow (coefficient_ne_zero hx), digits]
    omega
  have hunit : rootUnit f x = ideal - (f.precision + 1 - ((digitCount c + 1) / 2 : Nat)) := by
    unfold rootUnit adjusted
    omega
  generalize (f.precision : Int) + 1 - ((digitCount c + 1) / 2 : Nat) = shift at hunit ⊢
  rw [hvalue, hunit, shifted_radicand]
  unfold cutRoot
  rw [Nat.floor_div_eq_div]
  generalize (c * tenPow (2 * shift.toNat) / tenPow (2 * (-shift).toNat)).sqrt = r
  have hexact := exact_square_iff (n := c * tenPow (2 * shift.toNat)) (r := r)
    (tenPow_ne_zero (2 * (-shift).toNat))
  by_cases h : c * tenPow (2 * shift.toNat) % tenPow (2 * (-shift).toNat) = 0 ∧
      r * r = c * tenPow (2 * shift.toNat) / tenPow (2 * (-shift).toNat)
  · rw [if_pos h, if_pos (hexact.mp h)]
    exact ⟨_, rfl, rfl, (abs_value _).trans (exact_root_value ideal h.2)⟩
  · rw [if_neg h, if_neg (mt hexact.mpr h)]
    exact ⟨_, rfl, rfl, abs_value _⟩

theorem agree_squareRoot (hp : 0 < f.precision) (hx : Same x x') :
    Agree Same (squareRoot f x) (squareRoot f x') := by
  cases hx0 : x.isZero with
  | true =>
      have hx0' : x'.isZero = true := hx.isZero ▸ hx0
      have hzero : ∀ {z : Decimal} (e : Int), z.isZero = true →
          Same { z with exponent := e } zero := by
        intro z e hz
        refine Eq.trans (value_eq_zero_iff.mpr ?_) value_zero.symm
        exact hz
      unfold squareRoot
      rw [if_pos hx0, if_pos hx0']
      exact agree_round hp ((hzero _ hx0).trans (hzero _ hx0').symm)
  | false =>
      obtain ⟨z, hz, hsign, habs⟩ := squareRoot_eq_round (f := f) hx0
      obtain ⟨z', hz', hsign', habs'⟩ := squareRoot_eq_round (f := f) (hx.isZero ▸ hx0)
      have hunit : rootUnit f x = rootUnit f x' := by
        unfold rootUnit
        rw [hx.adjusted hx0]
      rw [hz, hz']
      refine agree_round hp (same_of_sign ?_ ?_)
      · rw [hsign, hsign', negative_congr hx hx0]
      · rw [habs, habs', hunit, hx]

/-! ## Logarithms and roots -/

theorem root_congr (digits : Nat) (hx : Same x x') (hy : Same y y') :
    root digits x y = root digits x' y' := by
  have hreal : realRoot x y = realRoot x' y' := by
    funext bits
    unfold realRoot
    rw [hx.ofDecimal, hy.ofDecimal]
  unfold root shortRoot? exactRoot?
  rw [isInteger_congr hy, truncate_congr hy, reduced_eq hx, hreal]

/-! ## Powers -/

theorem value_paddedOne (negative : Bool) (places : Nat) :
    (paddedOne negative places).value = if negative then -1 else 1 := by
  have habs : (tenPow places : ℚ) * 10 ^ (-(places : Int)) = 1 := by
    rw [cast_tenPow, ← ten_zpow_add, add_neg_cancel, zpow_zero]
  unfold paddedOne value signed
  cases negative with
  | false => simpa using habs
  | true =>
      simp only [if_true]
      push_cast
      rw [neg_mul, habs]

theorem powerGrows_congr (hx : Same x x') (hx0 : x.isZero = false) (hy : Same y y')
    (hy0 : y.isZero = false) : powerGrows x y = powerGrows x' y' := by
  unfold powerGrows
  rw [hx.adjusted hx0, negative_congr hy hy0]

theorem logPlace_congr (hx : Same x x') (hx0 : x.isZero = false)
    (hone : x.magnitude.isOne = false) : logPlace x = logPlace x' := by
  have hdistance : Same (exactSum .halfEven x.magnitude one.neg)
      (exactSum .halfEven x'.magnitude one.neg) := hx.magnitude.exactSum _ _ (.refl _)
  -- the distance from one is not zero
  have hne : (exactSum .halfEven x.magnitude one.neg).isZero = false := by
    rw [← value_ne_zero_iff, value_exactSum, value_neg, value_one]
    intro hzero
    have hvalue : x.magnitude.value = one.value := by
      rw [value_one]
      linarith
    rw [isOne, compare_eq, hvalue, beq_eq_false_iff_ne] at hone
    exact hone (compare_eq_iff_eq.mpr rfl)
  unfold logPlace
  dsimp only
  rw [hx.adjusted hx0, hdistance.adjusted hne, negative_congr hdistance hne]

theorem powerOutOfRange_congr (f : Format) (hx : Same x x') (hx0 : x.isZero = false)
    (hone : x.magnitude.isOne = false) (hy : Same y y') (hy0 : y.isZero = false) :
    powerOutOfRange f x y = powerOutOfRange f x' y' := by
  unfold powerOutOfRange
  rw [powerGrows_congr hx hx0 hy hy0, logPlace_congr hx hx0 hone, hy.adjusted hy0]

theorem agree_powerBySquaring (hp : 0 < f.precision) (hx : Same x x') (steps : Nat) : ∀ n,
    Agree Same (powerBySquaring f x steps n) (powerBySquaring f x' steps n) := by
  induction steps with
  | zero => exact fun n => .ok hx
  | succ steps ih =>
      intro n
      refine (ih (n / 2)).bind fun root root' _ _ hroot => ?_
      refine (agree_multiply hp hroot hroot).bind fun square square' _ _ hsquare => ?_
      exact agree_ite Iff.rfl (fun _ => agree_multiply hp hsquare hx) (fun _ => .ok hsquare)

/-- A sign put on decimals of one value. -/
theorem same_withSign (negative : Bool) (h : Same x y) :
    Same { x with negative := negative } { y with negative := negative } := by
  refine same_of_sign rfl ?_
  rw [abs_value, abs_value, ← abs_value x, ← abs_value y, h]

theorem agree_integerPower (hp : 0 < f.precision) (hx : Same x x') (hx0 : x.isZero = false)
    (n : Int) : Agree Same (integerPower f x n) (integerPower f x' n) := by
  have hround : ∀ a b, Same a b →
      Agree Same (round f { a with negative := x.negative && n % 2 != 0 })
        (round f { b with negative := x'.negative && n % 2 != 0 }) := by
    intro a b hab
    rw [negative_congr hx hx0]
    exact agree_round hp (same_withSign _ hab)
  unfold integerPower
  dsimp only
  by_cases hn : n < 0
  · rw [if_pos hn, if_pos hn]
    have hdivide := agree_divide (f := ⟨f.precision + digitCount n.natAbs + 2 + 1, .halfEven⟩)
      (Nat.succ_pos _) (.refl one) hx hx0
    refine hdivide.bind fun inverse inverse' _ _ hinverse => ?_
    exact (agree_powerBySquaring (Nat.succ_pos _) hinverse _ _).bind fun a b _ _ hab =>
      hround a b hab
  · rw [if_neg hn, if_neg hn]
    exact (agree_powerBySquaring (Nat.succ_pos _) hx _ _).bind fun a b _ _ hab =>
      hround a b hab

theorem agree_realPower {digits : Nat} (hdigits : 0 < digits) (hx : Same x x') (hy : Same y y') :
    Agree Eq (realPower digits x y) (realPower digits x' y') := by
  unfold realPower
  simp only [hx.ofDecimal]
  refine (agree_refl (fun _ => rfl) _).bind fun a b _ _ hab => ?_
  refine (agree_multiply (f := ⟨digits, .halfEven⟩) hdigits (congrArg value hab) hy).bind
    fun c d _ _ hcd => ?_
  simp only [hcd.ofDecimal]
  exact agree_refl (fun _ => rfl) _

/-- **Powers of decimals of one value** are of one value, where the bases are within the precision
of the format. -/
theorem agree_power (hp : 0 < f.precision) (hx : Same x x') (hx0 : x.isZero = false)
    (hy : Same y y') (hy0 : y.isZero = false) (hdigits : x.digits ≤ f.precision)
    (hdigits' : x'.digits ≤ f.precision) : Agree Same (power f x y) (power f x' y') := by
  have hinteger := isInteger_congr hy
  have hnegative := negative_congr hx hx0
  have hone := hx.magnitude.isOne
  unfold power
  dsimp only
  rw [Nat.max_eq_right hdigits, Nat.max_eq_right hdigits', ← hinteger, ← hnegative, ← hone,
    ← hy.isOdd, ← truncate_congr hy, ← negative_congr hy hy0, ← powerGrows_congr hx hx0 hy hy0]
  refine agree_ite Iff.rfl (fun _ => .error _ _) fun _ => ?_
  refine agree_ite Iff.rfl (fun _ => ?_) fun hnotOne => ?_
  · -- a power of one or of minus one, under some zeros
    refine agree_ite Iff.rfl (fun _ => agree_refl Same.refl _) fun _ => ?_
    refine agree_ite Iff.rfl (fun _ => agree_refl Same.refl _) fun _ => ?_
    refine agree_round hp ?_
    unfold Same
    rw [value_paddedOne, value_paddedOne]
  · rw [← powerOutOfRange_congr f hx hx0 (Bool.not_eq_true _ ▸ hnotOne) hy hy0]
    refine agree_ite Iff.rfl (fun _ => agree_refl Same.refl _) fun _ => ?_
    refine agree_ite Iff.rfl (fun _ => agree_integerPower hp hx hx0 _) fun _ => ?_
    refine (agree_realPower (Nat.succ_pos _) hx hy).bind fun a b _ _ hab => ?_
    rw [hab]
    exact agree_refl Same.refl _

end Decimal

/-! ## Angles and the gamma function -/

section Enclosures

open Decimal

variable {x x' y y' : Decimal}

theorem Interval.sinCosDegrees_congr (hx : Same x x') (bits : Nat) :
    sinCosDegrees bits x = sinCosDegrees bits x' := by
  unfold sinCosDegrees
  dsimp only
  rw [truncate_congr (hx.exactProduct (.refl (Decimal.ofInt 2))),
    (hx.exactSum .halfEven .halfEven (.refl _)).ofDecimal]

end Enclosures

end DecimalCalc
