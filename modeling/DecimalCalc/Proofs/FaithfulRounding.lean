import DecimalCalc.Proofs.Fitting

/-!
# Rounding passes no number of the format

A format can represent some numbers and not others. A number that it can represent is rounded to
itself, and any other one stays between the same numbers of the format: what is below a number of the
format is not rounded beyond it (`Format.rounded_le`), and what is above it is not either
(`Format.le_rounded`). The reason is that a number of the format is a whole number of units of the last
place wherever the rounded number is smaller, and that a power of ten lies between the two wherever it
is larger by so much that its unit is.

Some modes only round in one direction, which is said here of the values as well.
-/

set_option autoImplicit false

namespace DecimalCalc

open Except

variable {K : Type} [Field K] [LinearOrder K] [IsStrictOrderedRing K] [FloorSemiring K]

/-! ## Whole numbers -/

namespace Rounding

variable {v : K} {n : Nat} {mode : Rounding} {negative : Bool}

omit [IsStrictOrderedRing K] in
/-- **Rounding passes no whole number** on its way down. -/
theorem le_nearest (mode : Rounding) (negative : Bool) (h : n ≤ v) :
    n ≤ mode.nearest negative v :=
  (Nat.le_floor h).trans (nearest_bounds mode negative v).1

omit [IsStrictOrderedRing K] in
/-- **Nothing is rounded up** in a mode that never does so for the sign. -/
theorem nearest_le_self (hmode : ∀ kept half, mode.roundsUp negative kept half = false)
    (hv : 0 ≤ v) : (mode.nearest negative v : K) ≤ v := by
  have hfloor : mode.nearest negative v = ⌊v⌋₊ := by
    unfold nearest
    rw [hmode]
    simp
  rw [hfloor]
  exact Nat.floor_le hv

/-- **Nothing is rounded down** in a mode that always rounds up for the sign. -/
theorem self_le_nearest (hmode : ∀ kept half, mode.roundsUp negative kept half = true) :
    v ≤ (mode.nearest negative v : K) := by
  by_cases hwhole : (⌊v⌋₊ : K) = v
  · rw [← hwhole, nearest_natCast]
  · have hup : mode.nearest negative v = ⌊v⌋₊ + 1 := by
      unfold nearest
      rw [if_neg hwhole, hmode, if_pos rfl]
    rw [hup]
    push_cast
    exact (Nat.lt_floor_add_one v).le

end Rounding

/-! ## The numbers of a format -/

namespace Format

variable {f g : Format} {v c : K}

/-- **A number that a format can represent**: the value of a decimal that fits it. -/
def Represents (f : Format) (v : K) : Prop := ∃ d : Decimal, d.Fits f ∧ (d.value : K) = v

omit [LinearOrder K] [IsStrictOrderedRing K] [FloorSemiring K] in
theorem represents_zero (hp : 0 < f.precision) : f.Represents (0 : K) :=
  ⟨⟨false, 0, 0⟩, Decimal.fits_small (by rw [digitCount_zero]; exact hp) le_rfl (by omega)
    (by decide), by simp [Decimal.value, Decimal.signed]⟩

omit [LinearOrder K] [IsStrictOrderedRing K] [FloorSemiring K] in
theorem Represents.neg (h : f.Represents v) : f.Represents (-v) := by
  obtain ⟨d, hfits, rfl⟩ := h
  refine ⟨d.neg, hfits.neg, ?_⟩
  rw [Decimal.value_neg]
  push_cast
  rfl

omit [IsStrictOrderedRing K] [FloorSemiring K] in
theorem represents_abs : f.Represents |v| ↔ f.Represents v := by
  rcases abs_choice v with heq | heq
  · rw [heq]
  · rw [heq]
    exact ⟨fun h => by simpa using h.neg, Represents.neg⟩

omit [LinearOrder K] [IsStrictOrderedRing K] [FloorSemiring K] in
/-- A format of a higher precision represents more. -/
theorem Represents.mono (h : f.Represents v) (hle : f.precision ≤ g.precision) :
    g.Represents v := by
  obtain ⟨d, hfits, hvalue⟩ := h
  have hdigits := hfits.digits
  have hlowest := hfits.lowest
  refine ⟨d, ⟨by omega, hfits.highest, ?_⟩, hvalue⟩
  unfold tiny at hlowest ⊢
  omega

/-- A decimal of some digits on a place is represented, whatever zeros it ends in. -/
theorem represents_of_place {n : Nat} {e : Int} (hn : n < tenPow f.precision) (he : f.tiny ≤ e)
    (htop : (n : K) * 10 ^ e < 10 ^ (maxExponent + 1)) (hp : 0 < f.precision) :
    f.Represents ((n : K) * 10 ^ e) := by
  by_cases hzero : n = 0
  · rw [hzero, Nat.cast_zero, zero_mul]
    exact represents_zero hp
  · have hvalue : ((Decimal.value ⟨false, n, e⟩ : ℚ) : K) = n * 10 ^ e := by
      simp [Decimal.value, Decimal.signed]
    have hnonzero : Decimal.isZero ⟨false, n, e⟩ = false := by simpa [Decimal.isZero] using hzero
    refine ⟨⟨false, n, e⟩, ⟨(digitCount_le_iff hp).mpr hn, ?_, he⟩, hvalue⟩
    -- the leading digit stands below the first power of ten that is too large
    by_contra hhigh
    have hle := (Decimal.cast_le_adjusted_iff (K := K) hnonzero).mp
      (show maxExponent + 1 ≤ Decimal.adjusted ⟨false, n, e⟩ by omega)
    rw [hvalue, abs_of_nonneg (mul_nonneg (Nat.cast_nonneg n) (ten_zpow_pos e).le)] at hle
    exact absurd htop (not_lt.mpr hle)

theorem represents_ten_zpow {e : Int} (hp : 0 < f.precision) (hlow : f.tiny ≤ e)
    (hhigh : e ≤ maxExponent) : f.Represents ((10 : K) ^ e) := by
  have hone : 1 < tenPow f.precision := by
    have hlt := tenPow_lt_iff.mpr hp
    rwa [tenPow_zero] at hlt
  have htop : ((1 : Nat) : K) * 10 ^ e < 10 ^ (maxExponent + 1) := by
    rw [Nat.cast_one, one_mul]
    exact ten_zpow_lt_iff.mpr (by omega)
  have hplace := represents_of_place hone hlow htop hp
  rwa [Nat.cast_one, one_mul] at hplace

/-- The powers of ten reach up to the largest exponent. -/
theorem represents_ten_maxExponent (hp : 0 < f.precision) :
    f.Represents ((10 : K) ^ maxExponent) :=
  represents_ten_zpow hp f.tiny_le_maxExponent le_rfl

/-- The first normal number is one of the format. -/
theorem represents_ten_minExponent (hp : 0 < f.precision) :
    f.Represents ((10 : K) ^ minExponent) := by
  refine represents_ten_zpow hp ?_ (by decide)
  unfold tiny
  omega

/-- What is represented is below the first power of ten that is too large. -/
theorem Represents.abs_lt (h : f.Represents c) : |c| < 10 ^ (maxExponent + 1) := by
  obtain ⟨d, hfits, rfl⟩ := h
  rw [← Rat.cast_abs, ← Decimal.cast_ten_zpow]
  exact Rat.cast_lt.mpr (Decimal.abs_value_lt (Int.lt_add_one_of_le hfits.highest))

omit [LinearOrder K] [IsStrictOrderedRing K] [FloorSemiring K] in
theorem Represents.precision_pos (h : f.Represents c) : 0 < f.precision := by
  obtain ⟨d, hfits, -⟩ := h
  have hpos : 0 < d.digits := digitCount_pos d.coefficient
  have hdigits := hfits.digits
  omega

/-- **The magnitude of a number of the format** is made of digits that the precision allows, at a place
in range. -/
theorem Represents.place (h : f.Represents c) :
    ∃ (n : Nat) (e : Int), |c| = n * 10 ^ e ∧ n < tenPow f.precision ∧ f.tiny ≤ e := by
  obtain ⟨d, hfits, rfl⟩ := h
  exact ⟨d.coefficient, d.exponent, Decimal.abs_cast_value d,
    (lt_tenPow_digitCount _).trans_le (tenPow_le hfits.digits), hfits.lowest⟩

/-- A number of the format is a whole number of units of the lowest place. -/
theorem Represents.multiple (h : f.Represents v) : ∃ n : ℤ, v = n * 10 ^ f.tiny := by
  obtain ⟨n, e, habs, -, htiny⟩ := h.place
  have hscaled : |v| = ((n * tenPow (e - f.tiny).toNat : Nat) : ℤ) * 10 ^ f.tiny := by
    rw [Int.cast_natCast, cast_scaled n htiny, habs]
  rcases abs_choice v with heq | heq
  · exact ⟨_, heq ▸ hscaled⟩
  · refine ⟨-(n * tenPow (e - f.tiny).toNat : Nat), ?_⟩
    rw [Int.cast_neg, neg_mul, ← hscaled, heq, neg_neg]

/-- **A decimal of few digits stands for a number of the format** if it is a whole number of units of
the lowest place, wherever its own last digit stands. -/
theorem represents_of_digits {d : Decimal} {n : ℤ} (hp : 0 < f.precision)
    (hdigits : d.digits ≤ f.precision) (hmultiple : (d.value : K) = n * 10 ^ f.tiny)
    (htop : |(d.value : K)| < 10 ^ (maxExponent + 1)) : f.Represents (d.value : K) := by
  have hcoefficient : d.coefficient < tenPow f.precision :=
    (lt_tenPow_digitCount _).trans_le (tenPow_le hdigits)
  rw [← represents_abs]
  by_cases hplace : f.tiny ≤ d.exponent
  · rw [Decimal.abs_cast_value] at htop ⊢
    exact represents_of_place hcoefficient hplace htop hp
  · have hunits : |(d.value : K)| = n.natAbs * 10 ^ f.tiny := by
      rw [hmultiple, abs_mul, abs_of_pos (ten_zpow_pos (K := K) f.tiny), Nat.cast_natAbs,
        Int.cast_abs]
    -- there are fewer units of a higher place
    have hfewer : (n.natAbs : K) ≤ d.coefficient := by
      have hle : (n.natAbs : K) * 10 ^ f.tiny ≤ d.coefficient * 10 ^ f.tiny := by
        rw [← hunits, Decimal.abs_cast_value]
        exact mul_le_mul_of_nonneg_left (ten_zpow_le_iff.mpr (by omega)) (Nat.cast_nonneg _)
      exact le_of_mul_le_mul_right hle (ten_zpow_pos _)
    rw [hunits] at htop ⊢
    have hle : n.natAbs ≤ d.coefficient := by exact_mod_cast hfewer
    exact represents_of_place (hle.trans_lt hcoefficient) le_rfl htop hp

/-- The place of the leading digit, as there are no more digits than the precision allows. -/
theorem log_lt_of_place {n : Nat} {e : Int} (hn : n < tenPow f.precision)
    (hpos : 0 < (n : K) * 10 ^ e) : Int.log 10 ((n : K) * 10 ^ e) < e + f.precision := by
  have hlt : (n : K) < 10 ^ (f.precision : Int) := by
    rw [← cast_tenPow]
    exact_mod_cast hn
  rw [← not_le, ← zpow_le_iff_le_log hpos, not_le, add_comm, ten_zpow_add]
  exact mul_lt_mul_of_pos_right hlt (ten_zpow_pos e)

/-- **A number of the format is a whole number of units** of the last place of any smaller one. -/
theorem Represents.units_of_le (hc : f.Represents c) (hv : 0 < v) (h : v ≤ c) :
    ∃ n : Nat, c = n * 10 ^ f.unit v := by
  obtain ⟨n, e, hplace, hn, htiny⟩ := hc.place
  have hpos : 0 < c := hv.trans_le h
  rw [abs_of_pos hpos] at hplace
  subst hplace
  have hlog : Int.log 10 v ≤ Int.log 10 ((n : K) * 10 ^ e) := Int.log_mono_right hv h
  have hlead := log_lt_of_place hn hpos
  have hunit : f.unit v ≤ e := by
    unfold unit
    omega
  exact ⟨n * tenPow (e - f.unit v).toNat, (cast_scaled n hunit).symm⟩

/-- Between a number of the format and a larger number lies a whole number of units of the last place
of the latter. -/
theorem Represents.units_between (hc : f.Represents c) (hpos : 0 < c) (h : c ≤ v) :
    ∃ n : Nat, c ≤ n * 10 ^ f.unit v ∧ n * 10 ^ f.unit v ≤ v := by
  have hv : 0 < v := hpos.trans_le h
  by_cases hunit : f.unit v ≤ f.unit c
  · obtain ⟨n, hn⟩ := hc.units_of_le hpos le_rfl
    have hwhole : ((n * tenPow (f.unit c - f.unit v).toNat : Nat) : K) * 10 ^ f.unit v = c := by
      rw [cast_scaled n hunit, ← hn]
    exact ⟨_, hwhole.ge, hwhole.le.trans h⟩
  · -- the power of ten at the leading digit of the larger one lies between
    have hp := hc.precision_pos
    have hlog : Int.log 10 c < Int.log 10 v ∧
        f.unit v = Int.log 10 v - (f.precision - 1 : Nat) := by
      unfold unit at hunit ⊢
      omega
    have hpower : ((tenPow (f.precision - 1) : Nat) : K) * 10 ^ f.unit v = 10 ^ Int.log 10 v := by
      rw [cast_tenPow, ← ten_zpow_add, hlog.2]
      congr 1
      omega
    have hbelow : c < 10 ^ Int.log 10 v := by
      rw [← not_le, zpow_le_iff_le_log hpos, not_le]
      exact hlog.1
    refine ⟨tenPow (f.precision - 1), ?_, ?_⟩
    · exact hpower ▸ hbelow.le
    · exact hpower ▸ (zpow_le_iff_le_log hv).mpr le_rfl

/-! ## Magnitudes -/

/-- **A magnitude is not rounded up beyond a number of the format**, and so it does not overflow. -/
theorem roundedMagnitude_le (negative : Bool) (hc : f.Represents c) (hv : 0 < v) (h : v ≤ c) :
    ∃ r, f.roundedMagnitude negative v = .ok r ∧ 0 ≤ r ∧ r ≤ c := by
  have hpos := ten_zpow_pos (K := K) (f.unit v)
  obtain ⟨n, hn⟩ := hc.units_of_le hv h
  have hle : f.rounding.nearest negative (v / 10 ^ f.unit v) ≤ n := by
    refine Rounding.nearest_le _ _ (div_nonneg hv.le hpos.le) ?_
    rw [div_le_iff₀ hpos, ← hn]
    exact h
  have hbelow : (f.rounding.nearest negative (v / 10 ^ f.unit v) : K) * 10 ^ f.unit v ≤ c := by
    rw [hn]
    exact mul_le_mul_of_nonneg_right (by exact_mod_cast hle) hpos.le
  have htop := hc.abs_lt
  rw [abs_of_pos (hv.trans_le h)] at htop
  refine ⟨_, ?_, mul_nonneg (Nat.cast_nonneg _) hpos.le, hbelow⟩
  unfold roundedMagnitude
  dsimp only
  rw [if_neg (not_le.mpr (hbelow.trans_lt htop))]

theorem roundedMagnitude_nonneg (negative : Bool) (v : K) :
    (f.roundedMagnitude negative v).Gives (0 ≤ ·) :=
  gives_ite (gives_error _) (gives_ok (mul_nonneg (Nat.cast_nonneg _) (ten_zpow_pos _).le))

/-- **A magnitude is not rounded down beyond a number of the format.** -/
theorem le_roundedMagnitude (negative : Bool) (hc : f.Represents c) (hpos : 0 < c) (h : c ≤ v) :
    (f.roundedMagnitude negative v).Gives (c ≤ ·) := by
  obtain ⟨n, hcn, hnv⟩ := hc.units_between hpos h
  have hunit := ten_zpow_pos (K := K) (f.unit v)
  have hle : n ≤ f.rounding.nearest negative (v / 10 ^ f.unit v) := by
    refine Rounding.le_nearest _ _ ?_
    rwa [le_div_iff₀ hunit]
  refine gives_ite (gives_error _) (gives_ok (hcn.trans ?_))
  exact mul_le_mul_of_nonneg_right (by exact_mod_cast hle) hunit.le

/-! ## Numbers -/

omit [IsStrictOrderedRing K] in
/-- What holds of a rounded number, by its sign. -/
theorem rounded_gives {P : K → Prop}
    (hneg : v < 0 → (f.roundedMagnitude true (-v)).Gives fun r => P (-r)) (hzero : v = 0 → P 0)
    (hpos : 0 < v → (f.roundedMagnitude false v).Gives P) : (f.rounded v).Gives P := by
  rcases lt_trichotomy v 0 with hv | hv | hv
  · rw [rounded_of_neg hv]
    exact Gives.map (hneg hv)
  · rw [hv, rounded_zero]
    exact gives_ok (hzero hv)
  · rw [rounded_of_pos hv]
    exact hpos hv

/-- **Nothing is rounded up beyond a number of the format.** -/
theorem rounded_le (hc : f.Represents c) (h : v ≤ c) : (f.rounded v).Gives (· ≤ c) := by
  refine rounded_gives (fun _ => ?_) (fun hv => hv ▸ h) fun hv => ?_
  · -- what bounds a negative number from above bounds its magnitude from below
    by_cases hneg : c < 0
    · exact (le_roundedMagnitude true hc.neg (neg_pos.mpr hneg) (neg_le_neg h)).mono
        fun r hr => neg_le.mp hr
    · exact (roundedMagnitude_nonneg true (-v)).mono
        fun r hr => (neg_nonpos.mpr hr).trans (not_lt.mp hneg)
  · obtain ⟨r, hr, -, hle⟩ := roundedMagnitude_le false hc hv h
    rw [hr]
    exact gives_ok hle

/-- **Nothing is rounded down beyond a number of the format.** -/
theorem le_rounded (hc : f.Represents c) (h : c ≤ v) : (f.rounded v).Gives (c ≤ ·) := by
  refine rounded_gives (fun hv => ?_) (fun hv => hv ▸ h) fun _ => ?_
  · obtain ⟨r, hr, -, hle⟩ := roundedMagnitude_le true hc.neg (neg_pos.mpr hv) (neg_le_neg h)
    rw [hr]
    exact gives_ok (le_neg.mp hle)
  · by_cases hpos : 0 < c
    · exact le_roundedMagnitude false hc hpos h
    · exact (roundedMagnitude_nonneg false v).mono fun r hr => (not_lt.mp hpos).trans hr

/-- **Nothing overflows** that is at most as large as a number of the format. -/
theorem rounded_ok (hc : f.Represents c) (h : |v| ≤ c) : ∃ r, f.rounded v = .ok r := by
  rcases lt_trichotomy v 0 with hv | hv | hv
  · rw [abs_of_neg hv] at h
    obtain ⟨r, hr, -⟩ := roundedMagnitude_le true hc (neg_pos.mpr hv) h
    exact ⟨-r, by rw [rounded_of_neg hv, hr]; rfl⟩
  · exact ⟨0, by rw [hv, rounded_zero]⟩
  · rw [abs_of_pos hv] at h
    obtain ⟨r, hr, -⟩ := roundedMagnitude_le false hc hv h
    exact ⟨r, by rw [rounded_of_pos hv, hr]⟩

/-- **A number of the format is rounded to itself.** -/
theorem Represents.rounded (h : f.Represents v) : f.rounded v = .ok v := by
  obtain ⟨r, hr⟩ := rounded_ok (represents_abs.mpr h) (le_refl |v|)
  have hle := rounded_le h (le_refl v) r hr
  have hge := le_rounded h (le_refl v) r hr
  rw [hr, le_antisymm hle hge]

/-! ## Modes with a direction -/

/-- **No magnitude becomes larger** in a mode that never rounds up for the sign. -/
theorem roundedMagnitude_le_self {negative : Bool}
    (hmode : ∀ kept half, f.rounding.roundsUp negative kept half = false) (hv : 0 < v) :
    (f.roundedMagnitude negative v).Gives (· ≤ v) := by
  have hunit := ten_zpow_pos (K := K) (f.unit v)
  have hle := Rounding.nearest_le_self hmode (div_nonneg hv.le hunit.le)
  exact gives_ite (gives_error _) (gives_ok ((le_div_iff₀ hunit).mp hle))

/-- **No magnitude becomes smaller** in a mode that always rounds up for the sign. -/
theorem self_le_roundedMagnitude {negative : Bool}
    (hmode : ∀ kept half, f.rounding.roundsUp negative kept half = true) (v : K) :
    (f.roundedMagnitude negative v).Gives (v ≤ ·) := by
  have hunit := ten_zpow_pos (K := K) (f.unit v)
  have hle := Rounding.self_le_nearest hmode (v := v / 10 ^ f.unit v)
  exact gives_ite (gives_error _) (gives_ok ((div_le_iff₀ hunit).mp hle))

/-- **Rounding down** makes no number larger. -/
theorem rounded_le_self (hmode : f.rounding = .floor) (v : K) : (f.rounded v).Gives (· ≤ v) := by
  refine rounded_gives (fun _ => ?_) Eq.ge fun hv => ?_
  · have hlarger : (f.roundedMagnitude true (-v)).Gives (-v ≤ ·) :=
      self_le_roundedMagnitude (by intro kept half; rw [hmode]; rfl) (-v)
    exact hlarger.mono fun r hr => neg_le.mp hr
  · exact roundedMagnitude_le_self (by intro kept half; rw [hmode]; rfl) hv

/-- **Rounding up** makes no number smaller. -/
theorem self_le_rounded (hmode : f.rounding = .ceiling) (v : K) :
    (f.rounded v).Gives (v ≤ ·) := by
  refine rounded_gives (fun hv => ?_) Eq.le fun _ => ?_
  · have hsmaller : (f.roundedMagnitude true (-v)).Gives (· ≤ -v) :=
      roundedMagnitude_le_self (by intro kept half; rw [hmode]; rfl) (neg_pos.mpr hv)
    exact hsmaller.mono fun r hr => le_neg.mp hr
  · exact self_le_roundedMagnitude (by intro kept half; rw [hmode]; rfl) v

/-- **Rounding towards zero** leaves a number between zero and itself. -/
theorem rounded_between (hmode : f.rounding = .down) (v : K) :
    (f.rounded v).Gives fun r => (0 ≤ v → r ≤ v) ∧ (v ≤ 0 → v ≤ r) := by
  have hsmaller : ∀ (negative : Bool) {v : K}, 0 < v →
      (f.roundedMagnitude negative v).Gives (· ≤ v) := fun negative =>
    roundedMagnitude_le_self (by intro kept half; rw [hmode]; rfl)
  refine rounded_gives (fun hv => ?_) (fun hv => ⟨fun _ => hv.ge, fun _ => hv.le⟩) fun hv => ?_
  · refine (hsmaller true (neg_pos.mpr hv)).mono fun r hr => ?_
    exact ⟨fun hle => absurd hv (not_lt.mpr hle), fun _ => le_neg.mp hr⟩
  · refine (hsmaller false hv).mono fun r hr => ?_
    exact ⟨fun _ => hr, fun hle => absurd hv (not_lt.mpr hle)⟩

/-- **Nothing is rounded up to a positive number** that it is less than, in a mode that goes down
above zero. -/
theorem rounded_lt (hmode : f.rounding = .down ∨ f.rounding = .floor) (hp : 0 < f.precision)
    (hc : 0 < c) (h : v < c) : (f.rounded v).Gives (· < c) := by
  rcases hmode with hdown | hfloor
  · rcases le_total 0 v with hv | hv
    · exact (rounded_between hdown v).mono fun r hr => (hr.1 hv).trans_lt h
    · exact (rounded_le (represents_zero hp) hv).mono fun r hr => lt_of_le_of_lt hr hc
  · exact (rounded_le_self hfloor v).mono fun r hr => lt_of_le_of_lt hr h

end Format

end DecimalCalc
