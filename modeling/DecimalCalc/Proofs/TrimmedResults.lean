import DecimalCalc.Proofs.FaithfulDisplay
import DecimalCalc.Proofs.FaithfulRounding

/-!
# Trimming a result

The format that a number is trimmed in has room for all of its digits, but not for all of their places:
its exponents are limited as in any format, and of a number whose leading digit stands below the normal
range it keeps the fewer places the fewer digits the number has. So trimming rounds
(`Number.trim_rounded`), and **a result is trimmed exactly** if it is zero, if it lies in the normal
range, or if it is a whole number of units of the lowest place of that format
(`Calculator.evaluate_trimmed`). What is at most half of such a unit is shown as a zero.
-/

set_option autoImplicit false

namespace DecimalCalc

open Except

/-! ## What is rounded to zero -/

section

variable {K : Type} [Field K] [LinearOrder K] [IsStrictOrderedRing K] [FloorSemiring K] {v : K}

theorem Rounding.nearest_halfEven_eq_zero_iff (negative : Bool) :
    Rounding.halfEven.nearest negative v = 0 ↔ 2 * v ≤ 1 := by
  by_cases hone : 1 ≤ v
  · have hle := le_nearest .halfEven negative (n := 1) (v := v) (by simpa using hone)
    constructor
    · omega
    · intro h
      linarith
  · have hfloor : ⌊v⌋₊ = 0 := Nat.floor_eq_zero.mpr (not_le.mp hone)
    unfold nearest
    rw [hfloor, Nat.cast_zero, sub_zero]
    by_cases hzero : 0 = v
    · simp [← hzero]
    · rw [if_neg hzero]
      -- half a unit goes to the even neighbour, which is zero
      rcases lt_trichotomy (2 * v) 1 with h | h | h
      · simp [compare_lt_iff_lt.mpr h, roundsUp, h.le]
      · simp [compare_eq_iff_eq.mpr h, roundsUp, h.le]
      · simp [compare_gt_iff_gt.mpr h, roundsUp, h]

namespace Format

variable {f : Format}

theorem roundedMagnitude_eq_zero_iff (hmode : f.rounding = .halfEven) (hp : 0 < f.precision)
    (negative : Bool) (hv : 0 < v) :
    f.roundedMagnitude negative v = .ok 0 ↔ 2 * v ≤ 10 ^ f.tiny := by
  have hunit := ten_zpow_pos (K := K) (f.unit v)
  have hbelow : ∀ {e : Int}, 2 * v ≤ 10 ^ e → Int.log 10 v < e := by
    intro e h
    rw [← not_le, ← zpow_le_iff_le_log hv, not_le]
    linarith
  -- only in units of the lowest place a number is less than one of them
  have hlowest : 2 * v ≤ 10 ^ f.unit v ↔ 2 * v ≤ 10 ^ f.tiny := by
    constructor
    · intro h
      have hlog := hbelow h
      have heq : f.unit v = f.tiny := by
        unfold unit at hlog ⊢
        omega
      exact heq ▸ h
    · intro h
      exact h.trans (ten_zpow_le_iff.mpr (le_max_right _ _))
  have hhalf : 2 * (v / 10 ^ f.unit v) ≤ 1 ↔ 2 * v ≤ 10 ^ f.unit v := by
    rw [← mul_div_assoc, div_le_one hunit]
  have hnearest := Rounding.nearest_halfEven_eq_zero_iff negative (v := v / 10 ^ f.unit v)
  unfold roundedMagnitude
  rw [hmode, ← hlowest, ← hhalf, ← hnearest]
  constructor
  · intro h
    dsimp only at h
    split at h
    · cases h
    · simpa [hunit.ne'] using Except.ok.inj h
  · intro h
    simp only [h, Nat.cast_zero, zero_mul]
    rw [if_neg (not_le.mpr (ten_zpow_pos _))]

/-- **Halves go to zero**: with halves to the even neighbour, nothing but what is at most half a unit of
the lowest place is rounded to zero. -/
theorem rounded_eq_zero_iff (hmode : f.rounding = .halfEven) (hp : 0 < f.precision) :
    f.rounded v = .ok 0 ↔ 2 * |v| ≤ 10 ^ f.tiny := by
  rcases lt_trichotomy v 0 with hv | hv | hv
  · rw [rounded_of_neg hv, abs_of_neg hv,
      ← roundedMagnitude_eq_zero_iff hmode hp true (neg_pos.mpr hv), map_eq_ok]
    simp
  · rw [hv, rounded_zero, abs_zero, mul_zero]
    exact iff_of_true rfl (ten_zpow_pos _).le
  · rw [rounded_of_pos hv, abs_of_pos hv, roundedMagnitude_eq_zero_iff hmode hp false hv]

end Format

end

/-! ## Trimming as rounding -/

namespace Decimal

variable {d : Decimal}

/-- **A trimmed zero** has the exponent zero. -/
theorem Trimmed.of_isZero (h : d.Trimmed) (hzero : d.isZero = true) : d = ⟨d.negative, 0, 0⟩ := by
  have hcoefficient : d.coefficient = 0 := coefficient_eq_zero hzero
  have hexponent : d.exponent = 0 := by
    by_contra hne
    have hplaces := h.places
    apply h.ended (by omega)
    rw [hcoefficient]
    exact dvd_zero 10
  rw [← hcoefficient, ← hexponent]

/-- Between zero and one there is no integer. -/
theorem isInteger_eq_false (hzero : d.isZero = false) (hlt : |d.value| < 1) :
    d.isInteger = false := by
  by_contra hinteger
  obtain ⟨n, hn⟩ := isInteger_iff.mp (Bool.not_eq_false _ ▸ hinteger)
  have hne : n ≠ 0 := by
    rintro rfl
    exact value_ne_zero_iff.mpr hzero (by simpa using hn)
  rw [hn, ← Int.cast_abs] at hlt
  have habs : |n| < 1 := by exact_mod_cast hlt
  exact hne (Int.abs_lt_one_iff.mp habs)

theorem trimmed_zero (negative : Bool) : Trimmed ⟨negative, 0, 0⟩ :=
  ⟨le_rfl, fun h => absurd h (lt_irrefl _)⟩

end Decimal

namespace Number

variable {d : Decimal}

/-- What lies below the normal range is rounded, and then it loses its zeros. -/
theorem trim_below (hmax : (written d).precision ≤ Format.maxPrecision) (hzero : d.isZero = false)
    (hbelow : d.adjusted < Format.minExponent) :
    ∃ y, (finite d).trim = .ok (.finite y) ∧ y.Trimmed ∧ y.Fits (written d) ∧
      (written d).rounded d.value = .ok y.value := by
  obtain ⟨hpos, hdigits, -⟩ := written_room d
  have hsmall : |d.value| < 10 ^ Format.minExponent := Decimal.abs_value_lt hbelow
  have hone : (10 : ℚ) ^ Format.minExponent < 1 := by
    have hlt : (10 : ℚ) ^ Format.minExponent < 10 ^ (0 : Int) := ten_zpow_lt_iff.mpr (by decide)
    rwa [zpow_zero] at hlt
  -- the bound of the normal range is a number of the format
  have hbound := Format.represents_ten_minExponent (K := ℚ) hpos
  have hhighest : d.adjusted ≤ Format.maxExponent := hbelow.le.trans (by decide)
  obtain ⟨z, hz⟩ := Decimal.round_ok hpos hdigits hhighest (le_refl |d.value|)
  have hfits : z.Fits (written d) := Decimal.round_gives hpos d z hz
  have hvalue : (written d).rounded d.value = .ok z.value := by
    have hround := Decimal.round_value (K := ℚ) hpos d
    rw [hz] at hround
    exact hround.symm
  have htrim : (finite d).trim = (Decimal.normalize (written d) d).map finite := by
    rw [trim_finite hmax, Decimal.isInteger_eq_false hzero (hsmall.trans hone),
      if_neg (by decide)]
  cases hz0 : z.isZero with
  | true =>
      have hvalue0 : z.value = 0 := Decimal.value_eq_zero_iff.mpr hz0
      have hcoefficient : z.coefficient = 0 := Decimal.coefficient_eq_zero hz0
      refine ⟨⟨z.negative, 0, 0⟩, ?_, Decimal.trimmed_zero _, Decimal.fits_zero hpos _, ?_⟩
      · rw [htrim, Decimal.normalize, hz]
        simp [Except.map, hz0, hcoefficient]
      · rw [hvalue, hvalue0]
        exact congrArg Except.ok (Decimal.value_eq_zero_iff.mpr rfl).symm
  | false =>
      have hle : |z.value| ≤ 10 ^ Format.minExponent := by
        obtain ⟨hlower, hupper⟩ := abs_lt.mp hsmall
        exact abs_le.mpr ⟨Format.le_rounded hbound.neg hlower.le z.value hvalue,
          Format.rounded_le hbound hupper.le z.value hvalue⟩
      obtain ⟨y, hy, hsame, htrimmed, hyfits⟩ :=
        Decimal.normalize_of_fits hfits (Decimal.isInteger_eq_false hz0 (hle.trans_lt hone))
      have hnormalize : Decimal.normalize (written d) d = Decimal.normalize (written d) z := by
        rw [Decimal.normalize, Decimal.normalize, hz, Decimal.round_of_fits hfits hz0]
      refine ⟨y, ?_, htrimmed, hyfits, by rw [hvalue, hsame]⟩
      rw [htrim, hnormalize, hy]
      rfl

/-- **Trimming rounds** to the format that has room for all digits, and leaves no zero at the end of a
fraction. -/
theorem trim_rounded (hmax : (written d).precision ≤ Format.maxPrecision)
    (hhighest : d.isZero = true ∨ d.adjusted ≤ Format.maxExponent) :
    ∃ y, (finite d).trim = .ok (.finite y) ∧ y.Trimmed ∧ y.Fits (written d) ∧
      (written d).rounded d.value = .ok y.value := by
  by_cases hplace : d.isZero = true ∨ Format.minExponent ≤ d.adjusted
  · obtain ⟨y, hy, hvalue, htrimmed, hfits⟩ := trim_exact hmax
      (hplace.elim .inl fun hle => hhighest.imp id fun hge => ⟨hle, hge⟩)
    refine ⟨y, hy, htrimmed, hfits, ?_⟩
    rw [← hvalue]
    exact Format.Represents.rounded ⟨y, hfits, rfl⟩
  · obtain ⟨hzero, hbelow⟩ := not_or.mp hplace
    exact trim_below hmax (Bool.not_eq_true _ ▸ hzero) (not_le.mp hbelow)

/-- **Trimming is exact** if its format represents the number: if the number is a whole number of units
of the lowest place. -/
theorem trim_value_iff {y : Decimal} (hhighest : d.isZero = true ∨ d.adjusted ≤ Format.maxExponent)
    (hfits : y.Fits (written d)) (hvalue : (written d).rounded d.value = .ok y.value) :
    y.value = d.value ↔ ∃ n : ℤ, d.value = n * 10 ^ (written d).tiny := by
  obtain ⟨hpos, hdigits, -⟩ := written_room d
  constructor
  · intro heq
    have hrepresents : (written d).Represents d.value := ⟨y, hfits, heq⟩
    exact hrepresents.multiple
  · rintro ⟨n, hn⟩
    have htop : |d.value| < 10 ^ (Format.maxExponent + 1) := by
      rcases hhighest with hzero | hhighest
      · rw [Decimal.value_eq_zero_iff.mpr hzero, abs_zero]
        exact ten_zpow_pos _
      · exact Decimal.abs_value_lt (Int.lt_add_one_of_le hhighest)
    have hrepresents := Format.represents_of_digits (K := ℚ) hpos hdigits hn htop
    exact (Except.ok.inj (hrepresents.rounded.symm.trans hvalue)).symm

/-! ## What is shown as zero -/

/-- **Only zeros are shown as zero**, with or without a sign. -/
theorem shown_zero_iff {y : Decimal} (hmax : (written d).precision ≤ Format.maxPrecision)
    (hfits : y.Fits (written d)) (h : y.Trimmed) (locale : List Char) (grouping : Bool) :
    (localized (Separators.ofLocale locale) grouping y.plain = ['0'] ∨
      localized (Separators.ofLocale locale) grouping y.plain = ['-', '0']) ↔ y.isZero = true := by
  have distinct := Separators.ofLocale_distinct locale
  constructor
  · intro hshown
    obtain ⟨l, hproper, hlocalized, hplain⟩ := h.exists_layout (Separators.ofLocale locale) grouping
    have hcharacters : ∀ c ∈ l.text (Separators.ofLocale locale), c.isDigit = true ∨ c = '-' := by
      intro c hc
      rw [← hlocalized] at hc
      rcases hshown with hshown | hshown
      · rw [hshown, List.mem_singleton] at hc
        exact .inl (hc ▸ rfl)
      · rw [hshown, List.mem_cons, List.mem_singleton] at hc
        exact hc.elim .inr fun hzero => .inl (hzero ▸ rfl)
    -- the text has no marks, and is read as a zero
    have htext : y.plain = localized (Separators.ofLocale locale) grouping y.plain := by
      rw [hlocalized, hplain, ← hproper.erased_text distinct,
        distinct.erased_of_plain hcharacters]
    obtain ⟨z, hz, hzero⟩ : ∃ z : Decimal, read? y.plain = some (.finite z) ∧ z.isZero = true := by
      rcases hshown with hshown | hshown
      · exact ⟨⟨false, 0, 0⟩, by rw [htext, hshown]; decide, rfl⟩
      · exact ⟨⟨true, 0, 0⟩, by rw [htext, hshown]; decide, rfl⟩
    have hread := Decimal.read?_plain_of_fits hmax hfits
    obtain rfl : y.rewritten = z := by simpa [hread] using hz
    rw [← Decimal.isZero_congr y.rewritten_same, hzero]
  · intro hzero
    rw [h.of_isZero hzero]
    cases y.negative
    · exact .inl (by cases grouping <;> rfl)
    · exact .inr (by cases grouping <;> rfl)

end Number

/-! ## Results -/

namespace Calculator

variable {c : Calculator} {vars : Variables} {text : List Char}

/-- A result has no more digits than can be written. -/
theorem evaluate_written (builtin : c.registry = .builtin) (hvars : Finite vars) {x : Scalar}
    (h : c.evaluate text vars = .ok x) : ∃ d : Decimal, x.number = .finite d ∧
      d.Fits c.settings.format ∧ (Number.written d).precision ≤ Format.maxPrecision := by
  obtain ⟨d, hd, hfits⟩ := evaluateWith_gives builtin (valueOf_gives builtin hvars _ _) text x
    (Drawing.yields_of_outcome h)
  refine ⟨d, hd, hfits, ?_⟩
  cases hblank : text.all Text.isBlank with
  | true =>
      -- a blank text is zero, whatever the precision
      rw [evaluate, compute, evaluateWith, hblank, if_pos rfl] at h
      obtain rfl := Except.ok.inj h
      obtain rfl : Decimal.zero = d := Number.finite.inj hd
      decide
  | false => exact Number.written_le (precision_le_of_evaluate builtin hblank h) hfits

/-- **How a result is trimmed.** The trimmed result has no zero at the end of its fraction and no
positive exponent. It is the result itself if that is zero or lies in the normal range, and in general
if and only if the result is a whole number of units of the lowest place that its digits have room at.
A result is shown as a zero if and only if it is at most half of such a unit; so no result of the
normal range is, unless it is zero. -/
theorem evaluate_trimmed (builtin : c.registry = .builtin) (hvars : Finite vars) {x : Scalar}
    (h : c.evaluate text vars = .ok x) : ∃ d y : Decimal, x.number = .finite d ∧
      (Number.finite d).trim = .ok (.finite y) ∧ y.Trimmed ∧
      (d.isZero = true ∨ Format.minExponent ≤ d.adjusted → y.value = d.value) ∧
      (y.value = d.value ↔ ∃ n : ℤ, d.value = n * 10 ^ (Number.written d).tiny) ∧
      ∀ locale grouping, ∃ shown, (Number.finite d).display locale grouping = .ok shown ∧
        (shown = ['0'] ∨ shown = ['-', '0'] ↔ 2 * |d.value| ≤ 10 ^ (Number.written d).tiny) ∧
        (d.isZero = false → Format.minExponent ≤ d.adjusted →
          shown ≠ ['0'] ∧ shown ≠ ['-', '0']) := by
  obtain ⟨d, hd, hfits, hmax⟩ := evaluate_written builtin hvars h
  obtain ⟨hpos, -⟩ := Number.written_room d
  have hhighest : d.isZero = true ∨ d.adjusted ≤ Format.maxExponent := .inr hfits.highest
  obtain ⟨y, htrim, htrimmed, hyfits, hvalue⟩ := Number.trim_rounded hmax hhighest
  have hnormal : d.isZero = true ∨ Format.minExponent ≤ d.adjusted → y.value = d.value := by
    intro hplace
    obtain ⟨z, hz, hsame, -⟩ :=
      Number.trim_exact hmax (hplace.imp id fun hle => ⟨hle, hfits.highest⟩)
    obtain rfl : z = y := Number.finite.inj (Except.ok.inj (hz.symm.trans htrim))
    exact hsame
  refine ⟨d, y, hd, htrim, htrimmed, hnormal, Number.trim_value_iff hhighest hyfits hvalue, ?_⟩
  intro locale grouping
  have hshown := Number.shown_zero_iff hmax hyfits htrimmed locale grouping
  refine ⟨_, by rw [Number.display, htrim]; rfl, ?_, ?_⟩
  · refine hshown.trans ?_
    rw [← Decimal.value_eq_zero_iff, ← Format.rounded_eq_zero_iff rfl hpos, hvalue,
      Except.ok.injEq]
  · intro hzero hle
    have hne : ¬y.isZero = true := by
      rw [← Decimal.value_eq_zero_iff, hnormal (.inr hle), Decimal.value_eq_zero_iff, hzero]
      decide
    exact not_or.mp (mt hshown.mp hne)

/-- Seven eighths lies in the normal range: no digit is lost, and it is not shown as zero. -/
theorem evaluate_trimmed_quotient :
    let c : Calculator := {}
    c.evaluate "7/8".toList = .ok ⟨.finite ⟨false, 875, -3⟩, none⟩ ∧
      ∃ y : Decimal, (Number.finite ⟨false, 875, -3⟩).trim = .ok (.finite y) ∧ y.Trimmed ∧
        y.value = Decimal.value ⟨false, 875, -3⟩ := by
  intro c
  have hvalue : c.evaluate "7/8".toList = .ok ⟨.finite ⟨false, 875, -3⟩, none⟩ := by decide +kernel
  have hvars : Finite {} := fun name x hx => by cases hx
  obtain ⟨d, y, hd, htrim, htrimmed, hnormal, -⟩ := evaluate_trimmed (c := c) rfl hvars hvalue
  obtain rfl : ⟨false, 875, -3⟩ = d := Number.finite.inj hd
  exact ⟨hvalue, y, htrim, htrimmed, hnormal (.inr (by decide))⟩

/-- **Not every result is trimmed exactly**: a tenth of the smallest normal number is a result that is
not zero, but it is trimmed to zero and shown as one. -/
theorem evaluate_trimmed_subnormal :
    let c : Calculator := {}
    c.evaluate "10^-999999/10".toList = .ok ⟨.finite ⟨false, 1, -1000000⟩, none⟩ ∧
      (Number.finite ⟨false, 1, -1000000⟩).trim = .ok (.finite ⟨false, 0, 0⟩) ∧
      c.render "10^-999999/10".toList = .ok ['0'] := by
  decide +kernel

end Calculator

end DecimalCalc
