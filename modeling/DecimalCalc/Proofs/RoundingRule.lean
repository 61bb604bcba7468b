import DecimalCalc.Proofs.DecimalValue
import Mathlib.Algebra.Order.Floor.Semifield
import Mathlib.Data.Rat.Cast.Order

/-!
# The rule of rounding

Rounding is defined on coefficients and exponents. Here it is a rule on numbers: the magnitude is
measured in units of the last place that the format keeps, made a natural number, and scaled back
(`Format.rounded`). What `Decimal.round` answers has the value that the rule gives for the value of
the decimal (`Decimal.round_value`).

The rule only asks how the number compares with whole and half units. So two numbers are rounded
alike if they compare alike with all multiples of five of a place below the last one
(`Format.rounded_congr`); this is why a quotient or a root may be cut off there, if a digit
that rounding could take for exact is raised.

The rule is stated for any ordered field, since roots are real numbers.
-/

set_option autoImplicit false

namespace DecimalCalc

variable {K : Type} [Field K] [LinearOrder K]

/-! ## Numbers that compare alike -/

/-- Two numbers **lie alike** among the multiples of a step if they compare alike with each. -/
def Alike (step v w : K) : Prop :=
  ∀ n : Nat, (n * step < v ↔ n * step < w) ∧ (v < n * step ↔ w < n * step)

namespace Alike

variable {step v w : K}

theorem symm (h : Alike step v w) : Alike step w v :=
  fun n => ⟨(h n).1.symm, (h n).2.symm⟩

theorem le_iff (h : Alike step v w) (n : Nat) : n * step ≤ v ↔ n * step ≤ w := by
  rw [← not_lt, ← not_lt, (h n).2]

theorem eq_iff (h : Alike step v w) (n : Nat) : n * step = v ↔ n * step = w := by
  rw [eq_iff_le_not_lt, eq_iff_le_not_lt, h.le_iff, (h n).1]

theorem multiple (h : Alike step v w) (k : Nat) : Alike (k * step) v w := by
  intro n
  have := h (n * k)
  push_cast at this
  rwa [← mul_assoc]

variable [IsStrictOrderedRing K]

theorem mul (h : Alike step v w) {c : K} (hc : 0 < c) : Alike (step * c) (v * c) (w * c) := by
  intro n
  rw [← mul_assoc, mul_lt_mul_iff_left₀ hc, mul_lt_mul_iff_left₀ hc, mul_lt_mul_iff_left₀ hc,
    mul_lt_mul_iff_left₀ hc]
  exact h n

theorem div (h : Alike step v w) {c : K} (hc : 0 < c) : Alike (step / c) (v / c) (w / c) := by
  simpa only [div_eq_mul_inv] using h.mul (inv_pos.mpr hc)

end Alike

variable [IsStrictOrderedRing K] [FloorSemiring K]

/-! ## Whole numbers -/

namespace Rounding

/-- A magnitude rounded to a natural number. -/
def nearest (mode : Rounding) (negative : Bool) (v : K) : Nat :=
  if (⌊v⌋₊ : K) = v then ⌊v⌋₊
  else if mode.roundsUp negative ⌊v⌋₊ (compare (2 * (v - ⌊v⌋₊)) 1) then ⌊v⌋₊ + 1
  else ⌊v⌋₊

variable {v w : K} {n d : Nat}

theorem nearest_natCast (mode : Rounding) (negative : Bool) (n : Nat) :
    mode.nearest negative (n : K) = n := by
  simp [nearest]

omit [IsStrictOrderedRing K] in
/-- Rounding goes to the next whole number at the most. -/
theorem nearest_bounds (mode : Rounding) (negative : Bool) (v : K) :
    ⌊v⌋₊ ≤ mode.nearest negative v ∧ mode.nearest negative v ≤ ⌊v⌋₊ + 1 := by
  unfold nearest
  split
  · omega
  · split <;> omega

/-- **Rounding passes no whole number** on its way up. -/
theorem nearest_le (mode : Rounding) (negative : Bool) (hv : 0 ≤ v) (h : v ≤ n) :
    mode.nearest negative v ≤ n := by
  by_cases heq : v = n
  · rw [heq, nearest_natCast]
  · have hlt : ⌊v⌋₊ < n := (Nat.floor_lt hv).mpr (lt_of_le_of_ne h heq)
    have := (nearest_bounds mode negative v).2
    omega

/-- What is less than half a unit is rounded as the smallest magnitude is. -/
theorem nearest_of_small (mode : Rounding) (negative : Bool) (hpos : 0 < v) (h : 2 * v < 1) :
    mode.nearest negative v = if mode.roundsUp negative 0 .lt then 1 else 0 := by
  have hfloor : ⌊v⌋₊ = 0 := Nat.floor_eq_zero.mpr (by linarith)
  have hne : (0 : K) ≠ v := hpos.ne
  simp [nearest, hfloor, hne, compare_lt_iff_lt.mpr h]

/-- **Division with rounding** rounds the exact quotient. -/
theorem divide_eq (mode : Rounding) (negative : Bool) (n : Nat) (hd : d ≠ 0) :
    mode.divide negative n d = mode.nearest negative ((n : K) / d) := by
  have hpos : (0 : K) < d := by exact_mod_cast Nat.pos_of_ne_zero hd
  -- what is left of the division decides whether it is exact and on which side of a half it lies
  have hrest : (n : K) / d - (n / d : Nat) = (n % d : Nat) / d := by
    have hsplit : ((d * (n / d) + n % d : Nat) : K) = n := congrArg _ (Nat.div_add_mod n d)
    push_cast at hsplit ⊢
    rw [eq_div_iff hpos.ne', sub_mul, div_mul_cancel₀ _ hpos.ne', ← hsplit]
    ring
  have hexact : ((n / d : Nat) : K) = n / d ↔ n % d = 0 := by
    rw [eq_comm, ← sub_eq_zero, hrest, div_eq_zero_iff]
    simp [hpos.ne']
  have hhalf : compare (2 * ((n : K) / d - (n / d : Nat))) 1 = compare (2 * (n % d)) d := by
    rw [hrest]
    refine Decimal.compare_congr ?_ ?_
    · rw [← mul_div_assoc, div_lt_one hpos]
      exact_mod_cast Iff.rfl
    · rw [← mul_div_assoc, one_lt_div hpos]
      exact_mod_cast Iff.rfl
  unfold divide nearest
  simp only [Nat.floor_div_eq_div, hexact, hhalf]

/-- **Rounding only asks** where a magnitude lies among the halves of whole numbers. -/
theorem nearest_congr (mode : Rounding) (negative : Bool) (hv : 0 ≤ v) (hw : 0 ≤ w)
    (h : Alike (1 / 2) v w) : mode.nearest negative v = mode.nearest negative w := by
  -- whole numbers decide about the floor, and odd halves about the side
  have hwhole : Alike 1 v w := by
    have hdouble := h.multiple 2
    rwa [show ((2 : Nat) : K) * (1 / 2) = 1 by norm_num] at hdouble
  have hfloor : ⌊v⌋₊ = ⌊w⌋₊ := by
    refine le_antisymm ?_ ?_
    · have := (hwhole.le_iff ⌊v⌋₊).mp (by rw [mul_one]; exact Nat.floor_le hv)
      exact Nat.le_floor (by rwa [mul_one] at this)
    · have := (hwhole.le_iff ⌊w⌋₊).mpr (by rw [mul_one]; exact Nat.floor_le hw)
      exact Nat.le_floor (by rwa [mul_one] at this)
  have hexact : (⌊w⌋₊ : K) = v ↔ (⌊w⌋₊ : K) = w := by
    have := hwhole.eq_iff ⌊w⌋₊
    rwa [mul_one] at this
  have hhalf : compare (2 * (v - ⌊w⌋₊)) 1 = compare (2 * (w - ⌊w⌋₊)) 1 := by
    obtain ⟨hbelow, habove⟩ := h (2 * ⌊w⌋₊ + 1)
    push_cast at hbelow habove
    refine Decimal.compare_congr ?_ ?_
    · constructor
      · intro hlt
        linarith [habove.mp (by linarith)]
      · intro hlt
        linarith [habove.mpr (by linarith)]
    · constructor
      · intro hgt
        linarith [hbelow.mp (by linarith)]
      · intro hgt
        linarith [hbelow.mpr (by linarith)]
  unfold nearest
  simp only [hfloor, hexact, hhalf]

end Rounding

/-! ## Formats -/

theorem zpow_le_iff_le_log {v : K} (hv : 0 < v) {e : Int} : 10 ^ e ≤ v ↔ e ≤ Int.log 10 v := by
  have := Int.zpow_le_iff_le_log (by decide : 1 < 10) hv (x := e)
  rwa [Nat.cast_ofNat] at this

namespace Format

/-- The place of the last digit that is kept of a magnitude. -/
def unit (f : Format) (v : K) : Int := max (Int.log 10 v + 1 - f.precision) f.tiny

/-- A magnitude rounded to a format. -/
def roundedMagnitude (f : Format) (negative : Bool) (v : K) : Except Signal K :=
  let r := (f.rounding.nearest negative (v / 10 ^ f.unit v) : K) * 10 ^ f.unit v
  if 10 ^ (maxExponent + 1) ≤ r then .error .overflow else .ok r

/-- **A number rounded to a format.** -/
def rounded (f : Format) (v : K) : Except Signal K :=
  if v = 0 then .ok 0
  else if v < 0 then (f.roundedMagnitude true (-v)).map (-·)
  else f.roundedMagnitude false v

variable {f : Format} {v w : K} {e : Int}

omit [IsStrictOrderedRing K] in
theorem rounded_zero (f : Format) : f.rounded (0 : K) = .ok 0 := by simp [rounded]

omit [IsStrictOrderedRing K] in
theorem rounded_of_pos (h : 0 < v) : f.rounded v = f.roundedMagnitude false v := by
  simp [rounded, h.ne', h.not_gt]

omit [IsStrictOrderedRing K] in
theorem rounded_of_neg (h : v < 0) : f.rounded v = (f.roundedMagnitude true (-v)).map (-·) := by
  simp [rounded, h.ne, h]

theorem tiny_le (f : Format) : f.tiny ≤ minExponent + 1 := by
  unfold tiny
  omega

theorem tiny_le_maxExponent (f : Format) : f.tiny ≤ maxExponent := by
  unfold tiny minExponent maxExponent
  omega

/-- **Magnitudes are rounded alike** if they lie alike among the multiples of five units of a place
that lies below the last place that is kept. -/
theorem roundedMagnitude_congr (negative : Bool) (h : Alike (5 * 10 ^ e) v w)
    (hlarge : 10 ^ (e + f.precision) ≤ v) (hp : 0 < f.precision) :
    f.roundedMagnitude negative v = f.roundedMagnitude negative w := by
  -- halves of all higher places are among the multiples
  have htens : ∀ {d : Int}, e < d → Alike (10 ^ d / 2) v w := by
    intro d hd
    have hmul := h.multiple (tenPow (d - 1 - e).toNat)
    have hstep : ((tenPow (d - 1 - e).toNat : Nat) : K) * (5 * 10 ^ e) = 10 ^ d / 2 := by
      have hsplit : (10 : K) ^ d = 10 ^ (d - 1 - e) * 10 ^ e * 10 := by
        rw [← ten_zpow_add, ← zpow_add_one₀ (by norm_num)]
        congr 1
        omega
      rw [cast_tenPow_toNat (by omega), hsplit]
      ring
    rwa [hstep] at hmul
  have hpower : ∀ {d : Int}, e < d → (10 ^ d ≤ v ↔ 10 ^ d ≤ w) := by
    intro d hd
    have := (htens hd).le_iff 2
    rwa [Nat.cast_ofNat, mul_div_cancel₀ _ (two_ne_zero' K)] at this
  have hv : 0 < v := (ten_zpow_pos _).trans_le hlarge
  have hlarge' := (hpower (by omega)).mp hlarge
  have hw : 0 < w := (ten_zpow_pos _).trans_le hlarge'
  have hlog : Int.log 10 v = Int.log 10 w := by
    have hev := (zpow_le_iff_le_log hv).mp hlarge
    have hew := (zpow_le_iff_le_log hw).mp hlarge'
    refine le_antisymm ?_ ?_
    · exact (zpow_le_iff_le_log hw).mp ((hpower (by omega)).mp ((zpow_le_iff_le_log hv).mpr le_rfl))
    · refine (zpow_le_iff_le_log hv).mp ?_
      exact (hpower (by omega)).mpr ((zpow_le_iff_le_log hw).mpr le_rfl)
  have hunit : f.unit v = f.unit w := by rw [unit, unit, hlog]
  have hbelow : e < f.unit w := by
    have := (zpow_le_iff_le_log hw).mp hlarge'
    unfold unit
    omega
  have hpos := ten_zpow_pos (K := K) (f.unit w)
  have hhalf : Alike (1 / 2) (v / 10 ^ f.unit w) (w / 10 ^ f.unit w) := by
    have := (htens hbelow).div hpos
    rwa [div_right_comm, div_self hpos.ne'] at this
  have hnearest := f.rounding.nearest_congr negative (div_nonneg hv.le hpos.le)
    (div_nonneg hw.le hpos.le) hhalf
  unfold roundedMagnitude
  rw [hunit, hnearest]

/-- **Numbers of one sign are rounded alike** if their magnitudes lie alike in this way. -/
theorem rounded_congr (hsign : v < 0 ↔ w < 0) (h : Alike (5 * 10 ^ e) |v| |w|)
    (hlarge : 10 ^ (e + f.precision) ≤ |v|) (hp : 0 < f.precision) :
    f.rounded v = f.rounded w := by
  have hmagnitude := fun negative => roundedMagnitude_congr negative h hlarge hp
  have hv : 0 < |v| := (ten_zpow_pos _).trans_le hlarge
  have hw : 0 < |w| := by simpa using (h 0).1.mp (by simpa using hv)
  rcases lt_or_gt_of_ne (abs_pos.mp hv) with hneg | hpos
  · have hneg' := hsign.mp hneg
    rw [rounded_of_neg hneg, rounded_of_neg hneg', ← abs_of_neg hneg, ← abs_of_neg hneg',
      hmagnitude]
  · have hpos' : 0 < w :=
      lt_of_le_of_ne (not_lt.mp (hsign.not.mp hpos.not_gt)) (abs_pos.mp hw).symm
    rw [rounded_of_pos hpos, rounded_of_pos hpos', ← abs_of_pos hpos, ← abs_of_pos hpos',
      hmagnitude]

end Format

/-! ## Rounding a decimal -/

namespace Decimal

variable {f : Format} {x : Decimal}

theorem abs_cast_value (x : Decimal) : |(x.value : K)| = x.coefficient * 10 ^ x.exponent := by
  rw [← Rat.cast_abs, abs_value]
  push_cast
  rfl

/-- A decimal has the sign that its flag says. -/
theorem cast_value_eq (x : Decimal) :
    (x.value : K) = if x.negative then -|(x.value : K)| else |(x.value : K)| := by
  rw [abs_cast_value]
  unfold value signed
  split <;> push_cast <;> ring

omit [IsStrictOrderedRing K] in
theorem cast_ten_zpow (e : Int) : (((10 : ℚ) ^ e : ℚ) : K) = 10 ^ e := by push_cast; rfl

theorem cast_le_adjusted_iff (h : x.isZero = false) {e : Int} :
    e ≤ x.adjusted ↔ (10 : K) ^ e ≤ |(x.value : K)| := by
  rw [le_adjusted_iff h, ← Rat.cast_le (K := K), cast_ten_zpow, Rat.cast_abs]

omit [IsStrictOrderedRing K] in
theorem cast_value_ne_zero (h : x.isZero = false) : (x.value : K) ≠ 0 := by
  exact_mod_cast value_ne_zero_iff.mpr h

theorem log_value (h : x.isZero = false) : Int.log 10 |(x.value : K)| = x.adjusted := by
  have hpos : (0 : K) < |(x.value : K)| := abs_pos.mpr (cast_value_ne_zero h)
  refine le_antisymm ?_ ?_
  · exact (cast_le_adjusted_iff h).mpr ((zpow_le_iff_le_log hpos).mpr le_rfl)
  · exact (zpow_le_iff_le_log hpos).mp ((cast_le_adjusted_iff h).mp le_rfl)

/-- The last place that rounding keeps of a decimal. -/
theorem unit_value (h : x.isZero = false) :
    max (x.exponent + x.digits - f.precision) f.tiny = f.unit |(x.value : K)| := by
  rw [Format.unit, log_value h, adjusted]
  congr 1
  omega

/-- Less than half a unit is left, where more digits are dropped than there are. -/
theorem small_of_digits_lt (h : x.isZero = false) {k : Nat} (hk : x.digits < k) :
    0 < (x.coefficient : K) / (tenPow k : Nat) ∧
      2 * ((x.coefficient : K) / (tenPow k : Nat)) < 1 := by
  have hpos : (0 : K) < (tenPow k : Nat) := by exact_mod_cast tenPow_pos k
  have hcpos : (0 : K) < x.coefficient := by
    exact_mod_cast Nat.pos_of_ne_zero (coefficient_ne_zero h)
  have hlt : 2 * x.coefficient < tenPow k := by
    have hdigits : x.coefficient < tenPow x.digits := lt_tenPow_digitCount _
    have hmore := tenPow_le (Nat.succ_le_of_lt hk)
    rw [tenPow_succ] at hmore
    omega
  refine ⟨div_pos hcpos hpos, ?_⟩
  rw [← mul_div_assoc, div_lt_one hpos]
  exact_mod_cast hlt

/-- The divisor of a rounding need not be larger than one that drops a digit too many. -/
theorem nearest_min_digits (mode : Rounding) (h : x.isZero = false) (k : Nat) :
    mode.nearest x.negative ((x.coefficient : K) / (tenPow (min k (x.digits + 1)) : Nat)) =
      mode.nearest x.negative ((x.coefficient : K) / (tenPow k : Nat)) := by
  by_cases hfew : k ≤ x.digits + 1
  · rw [min_eq_left hfew]
  · rw [min_eq_right (by omega)]
    obtain ⟨hpos, hlt⟩ := small_of_digits_lt (K := K) h (Nat.lt_succ_self x.digits)
    obtain ⟨hpos', hlt'⟩ := small_of_digits_lt (K := K) h (show x.digits < k by omega)
    rw [Rounding.nearest_of_small _ _ hpos hlt, Rounding.nearest_of_small _ _ hpos' hlt']

/-- Cutting digits off rounds the magnitude, measured in units of the new last place. -/
theorem roundAt_eq (mode : Rounding) (h : x.isZero = false) {u : Int} (hu : x.exponent < u) :
    x.roundAt mode u = ⟨x.negative, mode.nearest x.negative (|(x.value : K)| / 10 ^ u), u⟩ := by
  have hscaled : |(x.value : K)| / 10 ^ u =
      x.coefficient / (tenPow (u - x.exponent).toNat : Nat) := by
    rw [abs_cast_value, cast_tenPow_toNat (by omega), zpow_sub₀ (by norm_num), div_div_eq_mul_div]
  unfold roundAt
  rw [if_neg (by omega), hscaled, ← nearest_min_digits mode h,
    ← Rounding.divide_eq (K := K) mode _ _ (tenPow_ne_zero _)]

/-- A decimal overflows as its magnitude reaches the first power of ten that is too large. -/
theorem overflows_iff (h : x.isZero = true → x.adjusted ≤ Format.maxExponent) :
    Format.maxExponent < x.adjusted ↔ (10 : K) ^ (Format.maxExponent + 1) ≤ |(x.value : K)| := by
  cases hx : x.isZero with
  | true =>
      have hvalue : (x.value : K) = 0 := by exact_mod_cast value_eq_zero_iff.mpr hx
      rw [hvalue, abs_zero]
      exact iff_of_false (not_lt.mpr (h hx)) (not_le.mpr (ten_zpow_pos _))
  | false => rw [← cast_le_adjusted_iff hx, Int.add_one_le_iff]

/-- What a decimal that is not zero is rounded to, before it may overflow. -/
def kept (f : Format) (x : Decimal) : Decimal :=
  let u := max (x.exponent + x.digits - f.precision) f.tiny
  if u ≤ x.exponent then x
  else
    let y := x.roundAt f.rounding u
    if f.precision < y.digits then { y with coefficient := y.coefficient / 10, exponent := u + 1 }
    else y

theorem round_of_ne_zero (h : x.isZero = false) : x.round f =
    if Format.maxExponent < (x.kept f).adjusted then .error .overflow else .ok (x.kept f) := by
  unfold round kept
  simp only [h, Bool.false_eq_true, if_false]

/-- A coefficient that is rounded to one digit too many is the next power of ten. -/
theorem nearest_le_tenPow (h : x.isZero = false) :
    f.rounding.nearest x.negative (|(x.value : K)| / 10 ^ f.unit |(x.value : K)|) ≤
      tenPow f.precision := by
  have hpos := ten_zpow_pos (K := K) (f.unit |(x.value : K)|)
  refine Rounding.nearest_le _ _ (div_nonneg (abs_nonneg _) hpos.le) ?_
  have hlt : |(x.value : K)| < 10 ^ (x.adjusted + 1) := by
    rw [← not_le, ← cast_le_adjusted_iff h]
    omega
  have hunit : x.adjusted + 1 ≤ f.precision + f.unit |(x.value : K)| := by
    rw [Format.unit, log_value h]
    omega
  rw [div_le_iff₀ hpos, cast_tenPow, ← ten_zpow_add]
  exact hlt.le.trans (zpow_le_zpow_right₀ (by norm_num) hunit)

/-- A decimal that ends at its unit or above is a whole number of units. -/
theorem nearest_of_unit_le (hu : f.unit |(x.value : K)| ≤ x.exponent) :
    f.rounding.nearest x.negative (|(x.value : K)| / 10 ^ f.unit |(x.value : K)|) *
      (10 : K) ^ f.unit |(x.value : K)| = |(x.value : K)| := by
  have hscaled : |(x.value : K)| / 10 ^ f.unit |(x.value : K)| =
      ((x.coefficient * tenPow (x.exponent - f.unit |(x.value : K)|).toNat : Nat) : K) := by
    rw [div_eq_iff (ten_zpow_pos _).ne', cast_scaled _ hu, abs_cast_value]
  rw [hscaled, Rounding.nearest_natCast, ← hscaled, div_mul_cancel₀ _ (ten_zpow_pos _).ne']

/-- Only a decimal below the lowest place is rounded to zero. -/
theorem unit_le_maxExponent (hp : 0 < f.precision) (h : x.isZero = false)
    (hzero : f.rounding.nearest x.negative
      (|(x.value : K)| / 10 ^ f.unit |(x.value : K)|) = 0) :
    f.unit |(x.value : K)| ≤ Format.maxExponent := by
  have hlow := f.tiny_le_maxExponent
  have hbelow : |(x.value : K)| < 10 ^ f.unit |(x.value : K)| := by
    have hfloor := (f.rounding.nearest_bounds x.negative
      (|(x.value : K)| / 10 ^ f.unit |(x.value : K)|)).1
    rw [hzero, Nat.le_zero] at hfloor
    have := Nat.floor_eq_zero.mp hfloor
    rwa [div_lt_one (ten_zpow_pos _)] at this
  rw [← not_le, ← cast_le_adjusted_iff h, Format.unit, log_value h] at hbelow
  rw [Format.unit, log_value h]
  omega

/-- What is kept has the sign of the decimal, its magnitude is the rounded one, and its exponent is
in range where nothing is left. -/
theorem kept_spec (hp : 0 < f.precision) (h : x.isZero = false) :
    (x.kept f).negative = x.negative ∧
      |((x.kept f).value : K)| =
        f.rounding.nearest x.negative (|(x.value : K)| / 10 ^ f.unit |(x.value : K)|) *
          10 ^ f.unit |(x.value : K)| ∧
      ((x.kept f).isZero = true → (x.kept f).adjusted ≤ Format.maxExponent) := by
  unfold kept
  dsimp only
  rw [unit_value (K := K) (f := f) h]
  by_cases hu : f.unit |(x.value : K)| ≤ x.exponent
  · -- no digit is dropped
    rw [if_pos hu, nearest_of_unit_le hu]
    exact ⟨rfl, rfl, fun hzero => absurd hzero (by simp [h])⟩
  · rw [if_neg hu, roundAt_eq (K := K) f.rounding h (by omega)]
    have hle := nearest_le_tenPow (K := K) (f := f) h
    have hrange := unit_le_maxExponent (K := K) hp h
    generalize f.rounding.nearest x.negative
      (|(x.value : K)| / 10 ^ f.unit |(x.value : K)|) = q at hle hrange ⊢
    by_cases hmore : f.precision < digits ⟨x.negative, q, f.unit |(x.value : K)|⟩
    · -- the coefficient is `10 ^ precision`, and gives a zero to the exponent
      have hge : tenPow f.precision ≤ q := (lt_digitCount_iff hp).mp hmore
      obtain rfl : q = tenPow f.precision := le_antisymm hle hge
      have hten : tenPow f.precision / 10 = tenPow (f.precision - 1) := by
        rw [← Nat.sub_add_cancel hp, tenPow_succ, Nat.mul_div_cancel _ (by decide),
          Nat.add_sub_cancel]
      rw [if_pos hmore]
      refine ⟨rfl, ?_, fun hzero => absurd hzero (by simp [isZero, hten, tenPow_ne_zero])⟩
      rw [abs_cast_value]
      dsimp only
      rw [hten, ten_zpow_add, zpow_one, ← Nat.sub_add_cancel hp, tenPow_succ, Nat.add_sub_cancel]
      push_cast
      ring
    · rw [if_neg hmore]
      refine ⟨rfl, abs_cast_value _, fun hzero => ?_⟩
      obtain rfl : q = 0 := by simpa [isZero] using hzero
      have hadjusted : adjusted ⟨x.negative, 0, f.unit |(x.value : K)|⟩ =
          f.unit |(x.value : K)| := by
        simp [adjusted, digits, digitCount_zero]
      rw [hadjusted]
      exact hrange rfl

/-- **Rounding a decimal rounds its value.** -/
theorem round_value (hp : 0 < f.precision) (x : Decimal) :
    (x.round f).map (fun y => (y.value : K)) = f.rounded (x.value : K) := by
  cases hx : x.isZero with
  | true =>
      have hvalue : (x.value : K) = 0 := by exact_mod_cast value_eq_zero_iff.mpr hx
      have hzero : x.coefficient = 0 := coefficient_eq_zero hx
      rw [hvalue, Format.rounded_zero]
      unfold round
      simp [hx, Except.map, value, signed, hzero]
  | false =>
      -- what is kept has the rounded magnitude, so that the same ones overflow
      obtain ⟨hnegative, hmagnitude, hrange⟩ := kept_spec (K := K) hp hx
      have hover := overflows_iff (K := K) hrange
      have hpos : (0 : K) < |(x.value : K)| := abs_pos.mpr (cast_value_ne_zero hx)
      have hvalue := cast_value_eq (K := K) x
      have hkept := cast_value_eq (K := K) (x.kept f)
      rw [hmagnitude] at hover
      rw [hmagnitude, hnegative] at hkept
      rw [round_of_ne_zero hx]
      cases hneg : x.negative with
      | true =>
          simp only [hneg, if_true] at hvalue hkept hover
          have hopposite : -(x.value : K) = |(x.value : K)| := by linarith
          rw [Format.rounded_of_neg (by linarith), hopposite, Format.roundedMagnitude]
          simp only [hover]
          split
          · rfl
          · rw [Except.map, Except.map, hkept]
      | false =>
          simp only [hneg, Bool.false_eq_true, if_false] at hvalue hkept hover
          rw [Format.rounded_of_pos (by linarith), hvalue, Format.roundedMagnitude]
          rw [← hvalue] at hkept hover ⊢
          simp only [hover]
          split
          · rfl
          · rw [Except.map, hkept]

end Decimal

end DecimalCalc
