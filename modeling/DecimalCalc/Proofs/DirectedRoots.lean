import DecimalCalc.Proofs.ExactRoots
import DecimalCalc.Proofs.RoundingErrors

/-!
# Roots in modes with a direction

A mode that rounds down, up or towards zero should keep a result on its side of the exact root. Roots
are rounded otherwise. The square root is rounded to the nearest neighbour in every mode. Any other root
is computed as the nearest decimal of ten digits more than the precision, and the magnitude of that is
rounded in the mode of the settings, with the sign put on it afterwards. So the rounding of a magnitude
goes to the wrong side for negative radicands in the modes that look at the sign; and where the computed
root has nothing in its last ten digits, it is not rounded again, and stays on the side that the nearest
decimal happens to be on.

`Functions.roots_directed` says for which radicands the answer is on the side of the mode all the same.
As in the case of square roots, the statements are about any ordered field that has the root.
-/

set_option autoImplicit false

namespace DecimalCalc

open Except

variable {K : Type} [Field K] [LinearOrder K] [IsStrictOrderedRing K] [FloorSemiring K]

/-! ## Distance from what is rounded -/

namespace Format

variable {f : Format} {v : ℚ}

/-- **What is rounded to a format is a number of it.** -/
theorem represents_of_rounded (hp : 0 < f.precision) {x : Decimal} (h : f.rounded x.value = .ok v) :
    f.Represents v := by
  have hround := Decimal.round_value (K := ℚ) hp x
  simp only [Rat.cast_id] at hround
  rw [h] at hround
  obtain ⟨y, hy, hvalue⟩ := map_eq_ok.mp hround
  exact ⟨y, Decimal.round_gives hp x y hy, hvalue⟩

end Format

/-- Multiples of a power of ten that differ are at least that far apart. -/
theorem add_ten_zpow_le {a b : Nat} {e : Int} (h : (a : ℚ) * 10 ^ e < b * 10 ^ e) :
    (a : ℚ) * 10 ^ e + 10 ^ e ≤ b * 10 ^ e := by
  have hpos := ten_zpow_pos (K := ℚ) e
  have hlt : a < b := by exact_mod_cast lt_of_mul_lt_mul_right h hpos.le
  have hle : (a : ℚ) + 1 ≤ b := by exact_mod_cast hlt
  calc (a : ℚ) * 10 ^ e + 10 ^ e = (a + 1) * 10 ^ e := by ring
    _ ≤ b * 10 ^ e := mul_le_mul_of_nonneg_right hle hpos.le

/-! ## Nearest decimals -/

namespace Decimal

variable {f : Format} {digits : Nat} {w : Decimal} {m : ℚ} {ρ : K}

/-- **The nearest decimal** of so many digits: it is no more than half a unit of its last place away. -/
structure Nearest (digits : Nat) (w : Decimal) (ρ : K) : Prop where
  few : w.digits ≤ digits
  near : |(w.value : K) - ρ| ≤ 10 ^ (w.adjusted + 1 - digits) / 2

namespace Nearest

/-- The nearest decimal to a positive number is not negative. -/
theorem nonneg (h : w.Nearest digits ρ) (hρ : 0 < ρ) : 0 ≤ w.value := by
  by_contra hneg
  have hw : w.isZero = false := value_ne_zero_iff.mp (not_le.mp hneg).ne
  have hdigits : 0 < digits := (digitCount_pos w.coefficient).trans_le h.few
  have hnegK : (w.value : K) < 0 := by exact_mod_cast not_le.mp hneg
  have hsmall : (10 : K) ^ (w.adjusted + 1 - digits) ≤ 10 ^ w.adjusted :=
    ten_zpow_le_iff.mpr (by omega)
  have hlarge := (cast_le_adjusted_iff (K := K) hw).mp le_rfl
  have hpos := ten_zpow_pos (K := K) w.adjusted
  have hfar := neg_abs_le ((w.value : K) - ρ)
  rw [abs_of_neg hnegK] at hlarge
  linarith [h.near]

/-- **A rounded decimal is at least a unit away** from the decimal, if it is another number. Here a unit
is the last place of as many digits as the decimal may have. -/
theorem unit_le (h : w.Nearest digits ρ) (hρ : 0 < ρ) (hle : f.precision ≤ digits)
    (hm : f.rounded w.value = .ok m) :
    (m < w.value → m + 10 ^ (w.adjusted + 1 - digits) ≤ w.value) ∧
    (w.value < m → w.value + 10 ^ (w.adjusted + 1 - digits) ≤ m) := by
  rcases (h.nonneg hρ).eq_or_lt with hzero | hpos
  · -- a zero is not rounded
    rw [← hzero, Format.rounded_zero] at hm
    obtain rfl := ok.inj hm
    rw [← hzero]
    exact ⟨fun hlt => absurd hlt (lt_irrefl 0), fun hlt => absurd hlt (lt_irrefl 0)⟩
  · have hw : w.isZero = false := value_ne_zero_iff.mp hpos.ne'
    have hvalue : w.value = w.coefficient * 10 ^ w.exponent := by
      rw [← abs_value, abs_of_pos hpos]
    have hlast : w.adjusted + 1 - digits ≤ w.exponent := by
      have hfew := h.few
      unfold adjusted
      omega
    have hunit : w.adjusted + 1 - digits ≤ f.unit w.value := by
      have hlog := log_value (K := ℚ) hw
      rw [Rat.cast_id, abs_of_pos hpos] at hlog
      unfold Format.unit
      omega
    have hn := Format.eq_units_of_rounded hpos hm
    rw [← cast_scaled w.coefficient hlast] at hvalue
    rw [← cast_scaled _ hunit] at hn
    rw [hvalue, hn]
    exact ⟨add_ten_zpow_le, add_ten_zpow_le⟩

/-- **A root that is rounded down** from the nearest decimal is not above the exact one, unless the
nearest decimal is above it and is kept as it is. -/
theorem le_iff_of_rounded_down (h : w.Nearest digits ρ) (hρ : 0 < ρ) (hp : 0 < f.precision)
    (hle : f.precision ≤ digits) (hmode : f.rounding = .down ∨ f.rounding = .floor)
    (hm : f.rounded w.value = .ok m) :
    ((m : K) ≤ ρ ↔ ¬(f.Represents w.value ∧ ρ < (w.value : K))) ∧
    (ρ ≤ (m : K) ↔ f.Represents w.value ∧ ρ ≤ (w.value : K)) := by
  by_cases hw : f.Represents w.value
  · obtain rfl : w.value = m := ok.inj (hw.rounded.symm.trans hm)
    simp [hw]
  · have hbelow : m ≤ w.value := by
      rcases hmode with hdown | hfloor
      · exact (Format.rounded_between hdown w.value m hm).1 (h.nonneg hρ)
      · exact Format.rounded_le_self hfloor w.value m hm
    have hne : m ≠ w.value := fun heq => hw (heq ▸ Format.represents_of_rounded hp hm)
    -- rounding goes down by a unit at least, and the root is less than that below the decimal
    have hunit := (h.unit_le hρ hle hm).1 (lt_of_le_of_ne hbelow hne)
    have hunitK : (m : K) + 10 ^ (w.adjusted + 1 - digits) ≤ w.value := by
      simpa using (Rat.cast_le (K := K)).mpr hunit
    have hlt : (m : K) < ρ := by
      have hpos := ten_zpow_pos (K := K) (w.adjusted + 1 - digits)
      have hnear := le_abs_self ((w.value : K) - ρ)
      linarith [h.near]
    exact ⟨iff_of_true hlt.le fun hand => hw hand.1,
      iff_of_false (not_le.mpr hlt) fun hand => hw hand.1⟩

/-- **A root that is rounded up** from the nearest decimal is not below the exact one, unless the
nearest decimal is below it and is kept as it is. -/
theorem le_iff_of_rounded_up (h : w.Nearest digits ρ) (hρ : 0 < ρ) (hp : 0 < f.precision)
    (hle : f.precision ≤ digits) (hmode : f.rounding = .ceiling)
    (hm : f.rounded w.value = .ok m) :
    (ρ ≤ (m : K) ↔ ¬(f.Represents w.value ∧ (w.value : K) < ρ)) ∧
    ((m : K) ≤ ρ ↔ f.Represents w.value ∧ (w.value : K) ≤ ρ) := by
  by_cases hw : f.Represents w.value
  · obtain rfl : w.value = m := ok.inj (hw.rounded.symm.trans hm)
    simp [hw]
  · have habove : w.value ≤ m := Format.self_le_rounded hmode w.value m hm
    have hne : w.value ≠ m := fun heq => hw (heq ▸ Format.represents_of_rounded hp hm)
    have hunit := (h.unit_le hρ hle hm).2 (lt_of_le_of_ne habove hne)
    have hunitK : (w.value : K) + 10 ^ (w.adjusted + 1 - digits) ≤ m := by
      simpa using (Rat.cast_le (K := K)).mpr hunit
    have hlt : ρ < (m : K) := by
      have hpos := ten_zpow_pos (K := K) (w.adjusted + 1 - digits)
      have hnear := neg_abs_le ((w.value : K) - ρ)
      linarith [h.near]
    exact ⟨iff_of_true hlt.le fun hand => hw hand.1,
      iff_of_false (not_le.mpr hlt) fun hand => hw hand.1⟩

end Nearest

end Decimal

/-! ## The operations -/

namespace Functions

open Decimal (Nearest)

variable {s : Settings} {x degree : Decimal} {n : Nat} {result : Outcome Number} {z : Number}

/-- **The calls that take a root of some degree**, other than as a square root. -/
inductive RootCall (s : Settings) (x : Decimal) : Nat → Outcome Number → Prop
  | cube : RootCall s x 3 (cubeRoot s (.finite x))
  | root {n : Nat} {degree : Decimal} (h : degree.value = n) :
    RootCall s x n (root s (.finite x) (.finite degree))

/-- A magnitude with the sign of the radicand. -/
def withSign (x : Decimal) (v : K) : K := if x.value < 0 then -v else v

/-- A signed root is answered only where a root of the magnitude is computed and can be rounded. -/
theorem exists_of_signedRoot (hx : x.isZero = false) (h : signedRoot s x degree = .ok z) :
    ∃ w m, Decimal.root s.computedDigits x.magnitude degree = .ok w ∧
      s.format.rounded w.value = .ok m ∧ (signedRoot s x degree).Answers (withSign x m) := by
  have hbind := h
  rw [signedRoot, if_neg (by rw [hx]; exact Bool.false_ne_true)] at hbind
  obtain ⟨r, hr, -⟩ := bind_eq_ok.mp hbind
  obtain ⟨hmax, w, hw⟩ := Settings.exists_of_settle hr
  obtain ⟨d, rfl, -⟩ := s.settle_gives (x := Decimal.root s.computedDigits x.magnitude degree) r hr
  have hsettled : (s.settle (Decimal.root s.computedDigits x.magnitude degree)).Answers d.value :=
    ⟨d, hr, rfl⟩
  refine ⟨w, d.value, hw, ?_, signedRoot_answers hx hsettled⟩
  rw [hw] at hsettled
  exact (Settings.settle_answers_iff hmax).mp hsettled

/-- **A call that answers** answers the signed root of its degree. -/
theorem RootCall.signedRoot (h : RootCall s x n result) (hn : 0 < n) (hx : x.isZero = false)
    (hz : result = .ok z) : ∃ degree : Decimal, degree.value = n ∧
      signedRoot s x degree = .ok z := by
  cases h with
  | cube => exact ⟨Decimal.ofInt 3, Decimal.value_ofInt 3, Outcome.guarded_eq_ok.mp hz⟩
  | root hdegree =>
      rename_i degree
      have hpos : 0 < degree.value := by
        rw [hdegree]
        exact_mod_cast hn
      refine ⟨degree, hdegree, ?_⟩
      rw [Functions.root, Outcome.guarded_eq_ok, Number.isAtMost_zero_of_pos hpos,
        Number.signum_finite] at hz
      by_cases hneg : x.value < 0
      · rw [if_pos hneg] at hz
        change (if degree.isOdd then Functions.signedRoot s x degree else _) = _ at hz
        split at hz
        · exact hz
        · cases hz
      · rw [if_neg hneg, if_neg (Decimal.value_ne_zero_iff.mpr hx)] at hz
        exact hz

theorem abs_withSign {v : ℚ} (hv : 0 ≤ v) : |withSign x v| = v := by
  unfold withSign
  split
  · rw [abs_neg, abs_of_nonneg hv]
  · exact abs_of_nonneg hv

/-- **On which side of the exact root the answer is.** The square root is the exact one, rounded with
halves to the even neighbour in every mode. For any other root of a radicand that is not zero, let `w` be
the computed root of the magnitude. The answer is `w`, rounded as a positive number in the mode of the
settings, and with the sign of the radicand. If `w` is the nearest decimal to the root `ρ` of the
magnitude, then the answer is on the side of the mode exactly if

* towards zero, and for a positive radicand downwards, `w` is not a number of the format above `ρ`;
* for a positive radicand upwards, `w` is not a number of the format below `ρ`;
* for a negative radicand downwards, `w` is a number of the format and not below `ρ`, and upwards, it is
  one and not above `ρ`. -/
theorem roots_directed (s : Settings) {x : Decimal} {n : Nat} {ρ : K} (hn : 0 < n) (hρ : 0 ≤ ρ)
    (hpow : ρ ^ n = |(x.value : K)|) :
    (n = 2 → 0 ≤ x.value → s.precision ≤ Format.maxPrecision → ∀ r : ℚ,
      (squareRoot s (.finite x)).Answers r ↔
        Format.rounded { s.format with rounding := .halfEven } ρ = .ok (r : K)) ∧
    ∀ result z, RootCall s x n result → result = .ok z → x.isZero = false →
      ∃ (w : Decimal) (m : ℚ),
        Decimal.root s.computedDigits x.magnitude (Decimal.ofNat n) = .ok w ∧
        s.format.rounded w.value = .ok m ∧ result.Answers (withSign x m) ∧
        (w.Nearest s.computedDigits ρ →
          (s.rounding = .down →
            ((|withSign x m| : ℚ) ≤ ρ ↔ ¬(s.format.Represents w.value ∧ ρ < (w.value : K)))) ∧
          (s.rounding = .floor →
            ((withSign x m : ℚ) ≤ withSign x ρ ↔
              if x.value < 0 then s.format.Represents w.value ∧ ρ ≤ (w.value : K)
              else ¬(s.format.Represents w.value ∧ ρ < (w.value : K)))) ∧
          (s.rounding = .ceiling →
            (withSign x ρ ≤ (withSign x m : ℚ) ↔
              if x.value < 0 then s.format.Represents w.value ∧ (w.value : K) ≤ ρ
              else ¬(s.format.Represents w.value ∧ (w.value : K) < ρ)))) := by
  constructor
  · rintro rfl hx hmax r
    refine squareRoot_answers_iff hmax hρ ?_
    rw [← pow_two, hpow]
    exact abs_of_nonneg (by exact_mod_cast hx)
  · intro result z hcall hz hx
    obtain ⟨degree, hdegree, hsigned⟩ := hcall.signedRoot hn hx hz
    obtain ⟨w, m, hw, hm, hanswers⟩ := exists_of_signedRoot hx hsigned
    have hsame : signedRoot s x degree = result := hsigned.trans hz.symm
    rw [hsame] at hanswers
    -- the root is the same for all degrees of one value
    have hdegree' : Decimal.Same degree (Decimal.ofNat n) :=
      hdegree.trans (Decimal.value_ofNat n).symm
    rw [Decimal.root_congr s.computedDigits (.refl x.magnitude) hdegree'] at hw
    refine ⟨w, m, hw, hm, hanswers, fun hnearest => ?_⟩
    have hpos : 0 < ρ := by
      refine lt_of_le_of_ne hρ fun hzero => ?_
      rw [← hzero, zero_pow hn.ne'] at hpow
      exact abs_ne_zero.mpr (Decimal.cast_value_ne_zero hx) hpow.symm
    have hp : 0 < s.format.precision := s.precision_pos
    have hle : s.format.precision ≤ s.computedDigits := Nat.le_add_right _ _
    have hnonneg : 0 ≤ m :=
      Format.le_rounded (Format.represents_zero hp) (hnearest.nonneg hpos) m hm
    refine ⟨fun hmode => ?_, fun hmode => ?_, fun hmode => ?_⟩
    · rw [abs_withSign hnonneg]
      exact (hnearest.le_iff_of_rounded_down hpos hp hle (.inl hmode) hm).1
    · obtain ⟨hbelow, habove⟩ := hnearest.le_iff_of_rounded_down hpos hp hle (.inr hmode) hm
      unfold withSign
      by_cases hneg : x.value < 0
      · simp only [if_pos hneg, Rat.cast_neg, neg_le_neg_iff]
        exact habove
      · simp only [if_neg hneg]
        exact hbelow
    · obtain ⟨habove, hbelow⟩ := hnearest.le_iff_of_rounded_up hpos hp hle hmode hm
      unfold withSign
      by_cases hneg : x.value < 0
      · simp only [if_pos hneg, Rat.cast_neg, neg_le_neg_iff]
        exact hbelow
      · simp only [if_neg hneg]
        exact habove

/-- The cube root of a number that is a little more than one: the nearest decimal is one itself, so that
nothing is left to round up. -/
theorem roots_directed_above_one :
    let s : Settings :=
      { Settings.initial with precision := 1, rounding := .ceiling, precision_pos := by decide }
    ∃ r : ℚ, (cubeRoot s (.finite ⟨false, 1000000000001 ^ 3, -36⟩)).Answers r ∧
      r < 1000000000001 / 10 ^ 12 := by
  intro s
  have hroot : (1000000000001 / 10 ^ 12 : ℚ) ^ 3 =
      |((Decimal.value ⟨false, 1000000000001 ^ 3, -36⟩ : ℚ) : ℚ)| := by
    norm_num [Decimal.value, Decimal.signed]
  have hcomputed : Decimal.root s.computedDigits (Decimal.magnitude ⟨false, 1000000000001 ^ 3, -36⟩)
      (Decimal.ofNat 3) = .ok ⟨false, 10000000000, -10⟩ := by decide +kernel
  have hrun : cubeRoot s (.finite ⟨false, 1000000000001 ^ 3, -36⟩) =
      .ok (.finite ⟨false, 1, 0⟩) := by decide +kernel
  obtain ⟨w, m, hw, -, hanswers, hdirected⟩ := (roots_directed s (n := 3) (by decide)
    (by norm_num) hroot).2 _ _ .cube hrun (by decide +kernel)
  obtain rfl := ok.inj (hcomputed.symm.trans hw)
  have hvalue : Decimal.value ⟨false, 10000000000, -10⟩ = 1 := by
    norm_num [Decimal.value, Decimal.signed]
  have hone : s.format.Represents (Decimal.value ⟨false, 10000000000, -10⟩) :=
    ⟨⟨false, 1, 0⟩, by decide +kernel, by norm_num [Decimal.value, Decimal.signed]⟩
  have hpositive : ¬Decimal.value ⟨false, 1000000000001 ^ 3, -36⟩ < 0 := by
    norm_num [Decimal.value, Decimal.signed]
  have hnearest : Decimal.Nearest s.computedDigits ⟨false, 10000000000, -10⟩
      (1000000000001 / 10 ^ 12 : ℚ) := by
    have hplace : Decimal.adjusted ⟨false, 10000000000, -10⟩ = 0 := by decide +kernel
    have hdigits : s.computedDigits = 11 := rfl
    refine ⟨by decide +kernel, ?_⟩
    rw [hplace, hdigits, Rat.cast_id, hvalue, abs_le]
    norm_num
  have hside := (hdirected hnearest).2.2 rfl
  rw [if_neg hpositive, Rat.cast_id, hvalue] at hside
  refine ⟨_, hanswers, ?_⟩
  unfold withSign at hside ⊢
  rw [if_neg hpositive] at hside ⊢
  rw [if_neg hpositive, Rat.cast_id, ← not_iff_not, not_not, not_le] at hside
  exact hside.mpr ⟨hvalue ▸ hone, by norm_num⟩

/-- **Roots are not on the side that the mode says**: the square root of three is rounded up to two in
the mode that rounds down, and so is the cube root of minus two, to minus one. -/
theorem roots_on_other_side :
    let s : Settings :=
      { Settings.initial with precision := 1, rounding := .floor, precision_pos := by decide }
    (squareRoot s (.finite ⟨false, 3, 0⟩)).Answers 2 ∧
      Decimal.value ⟨false, 3, 0⟩ < 2 ^ 2 ∧
      (cubeRoot s (.finite ⟨true, 2, 0⟩)).Answers (-1) ∧
      Decimal.value ⟨true, 2, 0⟩ < (-1) ^ 3 := by
  intro s
  refine ⟨⟨⟨false, 2, 0⟩, by decide +kernel, ?_⟩, ?_, ⟨⟨true, 1, 0⟩, by decide +kernel, ?_⟩, ?_⟩
  · norm_num [Decimal.value, Decimal.signed]
  · norm_num [Decimal.value, Decimal.signed]
  · norm_num [Decimal.value, Decimal.signed]
  · norm_num [Decimal.value, Decimal.signed]

end Functions

end DecimalCalc
