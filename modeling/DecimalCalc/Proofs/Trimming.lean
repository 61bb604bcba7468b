import DecimalCalc.Proofs.FittingResults

/-!
# Trimming

A number is shown without zeros at the end of its fraction. `Number.trim` works in a format of its
own that has room for all digits, but whose exponents are limited like those of any other format. So
**a decimal is trimmed without rounding** unless its leading digit stands outside these limits
(`Number.trim_exact`): an integer, which any zero is, gets the exponent zero, and another number loses
all zeros at its end, which leaves its exponent negative.
-/

set_option autoImplicit false

namespace DecimalCalc

namespace Decimal

variable {f : Format} {d : Decimal}

/-- **No zero at the end of a fraction**: the exponent is not positive, and if it is negative, the
last digit is no zero. -/
structure Trimmed (d : Decimal) : Prop where
  places : d.exponent ≤ 0
  ended : d.exponent < 0 → ¬10 ∣ d.coefficient

/-- **An integer is written with the exponent zero**, if its digits have room. -/
theorem quantize_integer (hinteger : d.isInteger = true)
    (hhighest : d.isZero = true ∨ d.adjusted ≤ Format.maxExponent) (hp : 0 < f.precision)
    (hroom : d.adjusted + 1 ≤ f.precision) :
    ∃ y, quantize f d 0 = .ok y ∧ y.value = d.value ∧ y.exponent = 0 ∧ y.Fits f := by
  obtain ⟨n, hn⟩ := isInteger_iff.mp hinteger
  have hvalue : (d.roundAt f.rounding 0).value = d.value := by
    refine value_roundAt f.rounding (n := n.natAbs) ?_
    rw [hn, zpow_zero, mul_one, Nat.cast_natAbs, Int.cast_abs]
  have hexponent := exponent_roundAt f.rounding d 0
  have htiny : f.tiny ≤ 0 := by
    unfold Format.tiny Format.minExponent
    omega
  have hmax : (0 : Int) ≤ Format.maxExponent := by decide
  have hfits : (d.roundAt f.rounding 0).isZero = false → (d.roundAt f.rounding 0).Fits f := by
    intro hzero
    -- the leading digit stays, and the last one stands right before the point
    have hadjusted : (d.roundAt f.rounding 0).adjusted = d.adjusted :=
      adjusted_congr (by rw [hvalue]) hzero
    have hhighest : d.adjusted ≤ Format.maxExponent := by
      refine hhighest.resolve_left fun hd => ?_
      rw [isZero_congr hvalue, hd] at hzero
      cases hzero
    have hdigits : ((d.roundAt f.rounding 0).digits : Int) = d.adjusted + 1 := by
      rw [← hadjusted, adjusted, hexponent]
      omega
    exact ⟨by omega, hadjusted ▸ hhighest, by omega⟩
  rw [quantize_eq htiny hmax hhighest hfits]
  generalize d.roundAt f.rounding 0 = y at hvalue hexponent hfits ⊢
  cases hzero : y.isZero with
  | true =>
      have hround : y.round f = .ok y := by
        rw [round, if_pos hzero, hexponent, max_eq_left htiny, min_eq_left hmax]
        exact congrArg Except.ok (by rw [← hexponent])
      exact ⟨y, hround, hvalue, hexponent, round_gives hp y y hround⟩
  | false => exact ⟨y, round_of_fits (hfits hzero) hzero, hvalue, hexponent, hfits hzero⟩

/-- **What fits loses only zeros at its end.** If it is no integer, they come after the point, and all
of them go. -/
theorem normalize_of_fits (h : d.Fits f) (hinteger : d.isInteger = false) :
    ∃ y, normalize f d = .ok y ∧ y.value = d.value ∧ y.Trimmed ∧ y.Fits f := by
  have hzero : d.isZero = false := by
    by_contra hzero
    rw [Bool.not_eq_false] at hzero
    simp [isInteger, hzero] at hinteger
  rw [normalize, round_of_fits h hzero]
  obtain ⟨hrest, hcount⟩ := stripZeros_value (Format.maxExponent - d.exponent).toNat d.coefficient
  have hcomplete := stripZeros_complete (Format.maxExponent - d.exponent).toNat
    (coefficient_ne_zero hzero)
  generalize hstrip : stripZeros (Format.maxExponent - d.exponent).toNat d.coefficient = stripped
    at hrest hcount hcomplete
  obtain ⟨rest, count⟩ := stripped
  have hvalue : value ⟨d.negative, rest, d.exponent + count⟩ = d.value := value_of_mul hrest
  have hadjusted : adjusted ⟨d.negative, rest, d.exponent + count⟩ = d.adjusted :=
    adjusted_congr (by rw [hvalue]) ((isZero_congr hvalue).trans hzero)
  have hexponent : d.exponent + count < 0 := by
    by_contra hexponent
    have hother := (isInteger_congr hvalue).trans hinteger
    rw [isInteger, decide_eq_true (not_lt.mp hexponent)] at hother
    simp at hother
  refine ⟨⟨d.negative, rest, d.exponent + count⟩, ?_, hvalue, ⟨hexponent.le, fun _ => ?_⟩, ?_⟩
  · show Except.ok (if d.isZero then _ else _) = _
    simp only [hzero, hstrip, Bool.false_eq_true, if_false]
  · -- the limit is not reached before the point
    refine hcomplete.resolve_left fun hall => ?_
    have hmax : (0 : Int) ≤ Format.maxExponent := by decide
    dsimp only at hall
    omega
  · have hdigits := h.digits
    have hhighest := h.highest
    have hlowest := h.lowest
    refine ⟨?_, hadjusted ▸ hhighest, by dsimp only; omega⟩
    unfold adjusted at hadjusted
    dsimp only at hadjusted
    omega

end Decimal

namespace Number

variable {f : Format} {d : Decimal}

/-- The format of trimming: all digits have room in it. -/
def written (d : Decimal) : Format := ⟨(finite d).writtenDigits, .halfEven⟩

theorem written_room (d : Decimal) : 0 < (written d).precision ∧
    d.digits ≤ (written d).precision ∧ d.adjusted + 1 ≤ (written d).precision := by
  simp only [written, writtenDigits]
  omega

/-- The digits of what fits a format can be written. -/
theorem written_le (hmax : f.precision ≤ Format.maxPrecision) (h : d.Fits f) :
    (written d).precision ≤ Format.maxPrecision := by
  have hdigits := h.digits
  have hhighest := h.highest
  unfold Format.maxExponent at hhighest
  unfold Format.maxPrecision at hmax ⊢
  simp only [written, writtenDigits]
  omega

theorem trim_finite (hmax : (written d).precision ≤ Format.maxPrecision) :
    (finite d).trim = ((if d.isInteger then Decimal.quantize (written d) d 0
      else Decimal.normalize (written d) d).map finite) := by
  show (if d.isInteger then quantize (written d) (.finite d) 0
    else normalize (written d) (.finite d)) = _
  cases d.isInteger with
  | true => rw [if_pos rfl, if_pos rfl, quantize, lift₁_finite hmax]
  | false => rw [if_neg (by decide), if_neg (by decide), normalize, lift₁_finite hmax]

/-- **Trimming keeps the value** of a decimal whose digits can be written at all, if it is zero or its
leading digit stands within the limits of a format. -/
theorem trim_exact (hmax : (written d).precision ≤ Format.maxPrecision)
    (hplace : d.isZero = true ∨
      Format.minExponent ≤ d.adjusted ∧ d.adjusted ≤ Format.maxExponent) :
    ∃ y, (finite d).trim = .ok (.finite y) ∧ y.value = d.value ∧ y.Trimmed ∧
      y.Fits (written d) := by
  obtain ⟨hpos, hdigits, hroom⟩ := written_room d
  rw [trim_finite hmax]
  cases hinteger : d.isInteger with
  | true =>
      obtain ⟨y, hy, hvalue, hexponent, hfits⟩ :=
        Decimal.quantize_integer hinteger (hplace.imp id And.right) hpos hroom
      exact ⟨y, by rw [if_pos rfl, hy]; rfl, hvalue, ⟨hexponent.le, by omega⟩, hfits⟩
  | false =>
      obtain ⟨hlarge, hsmall⟩ : Format.minExponent ≤ d.adjusted ∧
          d.adjusted ≤ Format.maxExponent := by
        refine hplace.resolve_left fun hzero => ?_
        simp [Decimal.isInteger, hzero] at hinteger
      have hlowest : (written d).tiny ≤ d.exponent := by
        unfold Decimal.adjusted at hlarge
        unfold Format.tiny
        omega
      obtain ⟨y, hy, htrimmed⟩ :=
        Decimal.normalize_of_fits ⟨hdigits, hsmall, hlowest⟩ hinteger
      exact ⟨y, by rw [if_neg (by decide), hy]; rfl, htrimmed⟩

/-- **A number that fits a format is shown without a signal.** -/
theorem display_ok (hmax : f.precision ≤ Format.maxPrecision) {x : Number} (hx : x.Fits f)
    (locale : List Char) (grouping : Bool) : ∃ text, x.display locale grouping = .ok text := by
  obtain ⟨d, rfl, hfits⟩ := hx
  obtain ⟨hpos, hdigits, hroom⟩ := written_room d
  have htrim : ∃ y, (finite d).trim = .ok y := by
    rw [trim_finite (written_le hmax hfits)]
    cases hinteger : d.isInteger with
    | true =>
        obtain ⟨y, hy, -⟩ := Decimal.quantize_integer hinteger (.inr hfits.highest) hpos hroom
        exact ⟨.finite y, by rw [if_pos rfl, hy]; rfl⟩
    | false =>
        -- a number that is too close to zero is rounded, but never overflows
        obtain ⟨y, hy⟩ := Decimal.round_ok hpos hdigits hfits.highest (le_refl |d.value|)
        exact ⟨_, by rw [if_neg (by decide), Decimal.normalize, hy]; rfl⟩
  obtain ⟨y, hy⟩ := htrim
  exact ⟨_, by rw [display, hy]; rfl⟩

end Number

/-- A coordinate that fits a format can be answered, and a number always can. -/
theorem Value.Fits.toScalar_ok {f : Format} {v : Value} (h : v.Fits f)
    (hmax : f.precision ≤ Format.maxPrecision) (locale : List Char) :
    ∃ x, v.toScalar locale = .ok x := by
  cases v with
  | number x => exact ⟨_, rfl⟩
  | coordinate c =>
      obtain ⟨first, hfirst⟩ := Number.display_ok hmax h.1 locale false
      obtain ⟨second, hsecond⟩ := Number.display_ok hmax h.2 locale false
      refine ⟨⟨c.first, some ([c.kind.labels.1, '='] ++ first ++ [';', ' ', c.kind.labels.2, '='] ++
        second)⟩, ?_⟩
      simp only [Value.toScalar, Coordinate.toScalar, Coordinate.display, hfirst, hsecond]
      rfl

end DecimalCalc
