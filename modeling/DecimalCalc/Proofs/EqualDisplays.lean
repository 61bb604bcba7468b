import DecimalCalc.Proofs.TrimmedResults

/-!
# Numbers that are shown alike

A number has many decimals, which differ in their exponent, in the zeros at the end of the coefficient,
and, if it is zero, in their sign. Trimming leaves one of them for each sign: trimmed decimals of one
value and one sign are the same (`Decimal.Trimmed.unique`). So **two decimals of moderate size are shown
alike if and only if they have one value**, and one sign if they are zeros; for the sign of a zero is
kept and shown. How a result was computed does not matter beyond that (`Calculator.shown_alike`).
-/

set_option autoImplicit false

namespace DecimalCalc

open Except

/-! ## One decimal for each value -/

namespace Decimal

variable {d e : Decimal}

/-- **A trimmed decimal has the largest exponent** of all decimals of its magnitude whose exponent is
not positive. -/
theorem Trimmed.le_exponent (he : e.Trimmed) (hplaces : d.exponent ≤ 0)
    (h : |d.value| = |e.value|) : d.exponent ≤ e.exponent := by
  by_contra hlt
  rw [abs_value, abs_value] at h
  -- the digits below the last one of the other decimal are zeros
  rw [← cast_scaled d.coefficient (not_le.mp hlt).le] at h
  have hscaled := mul_right_cancel₀ (ten_zpow_pos (K := ℚ) e.exponent).ne' h
  have hnat : e.coefficient = d.coefficient * tenPow (d.exponent - e.exponent).toNat := by
    exact_mod_cast hscaled.symm
  apply he.ended (by omega)
  rw [hnat]
  have hten : tenPow 1 ∣ tenPow (d.exponent - e.exponent).toNat := tenPow_dvd (by omega)
  exact hten.mul_left d.coefficient

/-- **Trimmed decimals of one value and one sign are the same.** -/
theorem Trimmed.unique (hd : d.Trimmed) (he : e.Trimmed) (h : d.value = e.value)
    (hsign : d.negative = e.negative) : d = e := by
  have habs : |d.value| = |e.value| := by rw [h]
  have hexponent : d.exponent = e.exponent :=
    le_antisymm (he.le_exponent hd.places habs) (hd.le_exponent he.places habs.symm)
  rw [abs_value, abs_value, hexponent] at habs
  have hcoefficient : d.coefficient = e.coefficient := by
    exact_mod_cast mul_right_cancel₀ (ten_zpow_pos (K := ℚ) e.exponent).ne' habs
  obtain ⟨negative, coefficient, exponent⟩ := d
  obtain ⟨negative', coefficient', exponent'⟩ := e
  dsimp only at hsign hcoefficient hexponent
  rw [hsign, hcoefficient, hexponent]

end Decimal

/-! ## Signs -/

namespace Number

variable {d e : Decimal} {locale : List Char} {grouping : Bool}

/-- **A zero keeps its sign** when it is trimmed. -/
theorem trim_zero (hmax : (written d).precision ≤ Format.maxPrecision) (hzero : d.isZero = true) :
    (finite d).trim = .ok (.finite ⟨d.negative, 0, 0⟩) := by
  have hcoefficient : d.coefficient = 0 := Decimal.coefficient_eq_zero hzero
  have hinteger : d.isInteger = true := by simp [Decimal.isInteger, hzero]
  have hroundAt : d.roundAt (written d).rounding 0 = ⟨d.negative, 0, 0⟩ := by
    unfold Decimal.roundAt
    split <;> simp [hcoefficient, Rounding.divide]
  have htiny : (written d).tiny ≤ 0 := by
    unfold Format.tiny Format.minExponent
    omega
  have hround : Decimal.round (written d) ⟨d.negative, 0, 0⟩ = .ok ⟨d.negative, 0, 0⟩ := by
    show Except.ok _ = _
    rw [max_eq_left htiny, min_eq_left (by decide)]
  rw [trim_finite hmax, hinteger, if_pos rfl, Decimal.quantize, hroundAt, hzero,
    if_neg (not_or.mpr ⟨by decide, not_lt.mpr htiny⟩)]
  show (Decimal.round (written d) ⟨d.negative, 0, 0⟩).map finite = _
  rw [hround]
  rfl

/-- **Trimming keeps value and sign** of a decimal of moderate size. -/
theorem trim_signed (h : d.Moderate) (hhighest : d.adjusted ≠ Decimal.maxWrittenPlace) :
    ∃ y, (finite d).trim = .ok (.finite y) ∧ y.Trimmed ∧ y.value = d.value ∧
      y.negative = d.negative := by
  have hmax := h.written_le hhighest
  obtain ⟨y, htrim, hvalue, htrimmed, -⟩ := trim_exact hmax h.place
  refine ⟨y, htrim, htrimmed, hvalue, ?_⟩
  cases hzero : d.isZero with
  | true =>
      have hsigned := htrim.symm.trans (trim_zero hmax hzero)
      rw [Number.finite.inj (Except.ok.inj hsigned)]
  | false => exact (Decimal.negative_congr hvalue.symm hzero).symm

/-! ## What is shown -/

theorem exists_shown (h : d.Moderate) (hhighest : d.adjusted ≠ Decimal.maxWrittenPlace)
    (locale : List Char) (grouping : Bool) :
    ∃ shown, (finite d).display locale grouping = .ok shown := by
  obtain ⟨l, -, hshown, -⟩ := exists_layout h hhighest
  exact ⟨_, hshown⟩

/-- **The sign of a zero is shown.** -/
theorem display_zero (h : d.Moderate) (hhighest : d.adjusted ≠ Decimal.maxWrittenPlace)
    (hzero : d.isZero = true) : (finite d).display locale grouping =
      .ok (if d.negative then ['-', '0'] else ['0']) := by
  rw [display, trim_zero (h.written_le hhighest) hzero]
  cases d.negative <;> cases grouping <;> rfl

/-- **Decimals are shown alike** if and only if they have one value, and one sign if they are zeros. -/
theorem display_eq_iff (hd : d.Moderate) (hd' : d.adjusted ≠ Decimal.maxWrittenPlace)
    (he : e.Moderate) (he' : e.adjusted ≠ Decimal.maxWrittenPlace) :
    (finite d).display locale grouping = (finite e).display locale grouping ↔
      d.value = e.value ∧ (d.isZero = true → d.negative = e.negative) := by
  constructor
  · intro h
    obtain ⟨shown, hshown⟩ := exists_shown hd hd' locale grouping
    have hvalue : d.value = e.value := value_eq_of_display hd he hshown (h.symm.trans hshown)
    refine ⟨hvalue, fun hzero => ?_⟩
    have hzero' : e.isZero = true := by rw [← Decimal.isZero_congr hvalue, hzero]
    rw [display_zero hd hd' hzero, display_zero he he' hzero'] at h
    cases hsign : d.negative <;> cases hsign' : e.negative <;> simp [hsign, hsign'] at h ⊢
  · rintro ⟨hvalue, hsign⟩
    obtain ⟨y, hy, hytrimmed, hyvalue, hysign⟩ := trim_signed hd hd'
    obtain ⟨z, hz, hztrimmed, hzvalue, hzsign⟩ := trim_signed he he'
    have hsame : y.negative = z.negative := by
      rw [hysign, hzsign]
      cases hzero : d.isZero with
      | true => exact hsign hzero
      | false => exact Decimal.negative_congr hvalue hzero
    obtain rfl : y = z :=
      hytrimmed.unique hztrimmed (hyvalue.trans (hvalue.trans hzvalue.symm)) hsame
    rw [display, display, hy, hz]

end Number

/-! ## Results -/

namespace Calculator

/-- A result that is zero or of the normal range is of moderate size. -/
theorem evaluate_moderate {c : Calculator} {vars : Variables} {text : List Char}
    (builtin : c.registry = .builtin) (hvars : Finite vars) {x : Scalar}
    (h : c.evaluate text vars = .ok x) {d : Decimal} (hd : x.number = .finite d)
    (hnormal : d.isZero = true ∨ Format.minExponent ≤ d.adjusted) :
    d.Moderate ∧ d.adjusted ≠ Decimal.maxWrittenPlace := by
  obtain ⟨d', hd', hfits, hmax⟩ := evaluate_written builtin hvars h
  obtain rfl : d = d' := Number.finite.inj (hd.symm.trans hd')
  obtain ⟨-, hdigits, -⟩ := Number.written_room d
  have hhighest := hfits.highest
  have hlimit : Format.maxExponent < Decimal.maxWrittenPlace := by decide
  exact ⟨⟨hdigits.trans hmax, by omega, hnormal.imp id fun hle => ⟨hle, hhighest⟩⟩, by omega⟩

/-- **Equal numbers are shown alike**, but for the signs of zeros. In every locale, with or without
grouping, any two decimals of moderate size below the highest place are shown, and they are shown alike
if and only if they have one value and, being zeros, one sign. So two results of the normal range that
have one value, or are zeros of one sign, are shown alike, whatever expressions, variables and settings
they come from. -/
theorem shown_alike (locale : List Char) (grouping : Bool) :
    (∀ d e : Decimal, d.Moderate → d.adjusted ≠ Decimal.maxWrittenPlace →
      e.Moderate → e.adjusted ≠ Decimal.maxWrittenPlace →
        ∃ shown shown' : List Char,
          (Number.finite d).display locale grouping = .ok shown ∧
          (Number.finite e).display locale grouping = .ok shown' ∧
          (shown = shown' ↔
            d.value = e.value ∧ (d.isZero = true → d.negative = e.negative))) ∧
    ∀ (c c' : Calculator) (vars vars' : Variables) (text text' : List Char) (x x' : Scalar)
      (d e : Decimal), c.registry = .builtin → c'.registry = .builtin → Finite vars →
        Finite vars' → c.evaluate text vars = .ok x → c'.evaluate text' vars' = .ok x' →
          x.number = .finite d → x'.number = .finite e →
            d.isZero = true ∨ Format.minExponent ≤ d.adjusted → d.value = e.value →
              (d.isZero = true → d.negative = e.negative) →
                x.number.display locale grouping = x'.number.display locale grouping := by
  constructor
  · intro d e hd hd' he he'
    obtain ⟨shown, hshown⟩ := Number.exists_shown hd hd' locale grouping
    obtain ⟨shown', hshown'⟩ := Number.exists_shown he he' locale grouping
    have hiff : (Number.finite d).display locale grouping =
        (Number.finite e).display locale grouping ↔ _ := Number.display_eq_iff hd hd' he he'
    rw [hshown, hshown', Except.ok.injEq] at hiff
    exact ⟨shown, shown', hshown, hshown', hiff⟩
  · intro c c' vars vars' text text' x x' d e builtin builtin' hvars hvars' h h' hd he hnormal
      hvalue hsign
    have hnormal' : e.isZero = true ∨ Format.minExponent ≤ e.adjusted := by
      cases hzero : d.isZero with
      | true => exact .inl (by rw [← Decimal.isZero_congr hvalue, hzero])
      | false =>
          rw [← Decimal.adjusted_congr (by rw [hvalue]) hzero]
          exact .inr (hnormal.resolve_left (by rw [hzero]; decide))
    obtain ⟨hmoderate, hplace⟩ := evaluate_moderate builtin hvars h hd hnormal
    obtain ⟨hmoderate', hplace'⟩ := evaluate_moderate builtin' hvars' h' he hnormal'
    rw [hd, he]
    exact (Number.display_eq_iff hmoderate hplace hmoderate' hplace').mpr ⟨hvalue, hsign⟩

/-- A product with zeros at its end is shown as the quotient of the same value is. -/
theorem shown_alike_product :
    let c : Calculator := {}
    let d : Decimal := ⟨false, 15000, -4⟩
    let e : Decimal := ⟨false, 15, -1⟩
    c.evaluate "2.50*0.60".toList = .ok ⟨.finite d, none⟩ ∧
      c.evaluate "3/2".toList = .ok ⟨.finite e, none⟩ ∧
      (∃ shown, (Number.finite d).display "de".toList true = .ok shown ∧
        (Number.finite e).display "de".toList true = .ok shown) ∧
      (Number.finite d).display "en".toList false = (Number.finite e).display "en".toList false := by
  intro c d e
  have hd : d.Moderate := ⟨by decide +kernel, by decide +kernel, .inr (by decide +kernel)⟩
  have he : e.Moderate := ⟨by decide +kernel, by decide +kernel, .inr (by decide +kernel)⟩
  have hvalue : d.value = e.value := by norm_num [d, e, Decimal.value, Decimal.signed]
  have hvars : Finite {} := fun name x hx => by cases hx
  have hproduct : c.evaluate "2.50*0.60".toList = .ok ⟨.finite d, none⟩ := by decide +kernel
  have hquotient : c.evaluate "3/2".toList = .ok ⟨.finite e, none⟩ := by decide +kernel
  refine ⟨hproduct, hquotient, ?_, ?_⟩
  · obtain ⟨shown, shown', hshown, hshown', hiff⟩ :=
      (shown_alike "de".toList true).1 d e hd (by decide +kernel) he (by decide +kernel)
    exact ⟨shown, hshown, hiff.mpr ⟨hvalue, fun _ => rfl⟩ ▸ hshown'⟩
  · exact (shown_alike "en".toList false).2 c c {} {} _ _ _ _ d e rfl rfl hvars hvars hproduct
      hquotient rfl rfl (.inr (by decide +kernel)) hvalue fun _ => rfl

/-- **Not all equal numbers are shown alike**: a product that is zero may have a minus sign, which is
shown. -/
theorem shown_apart_zeros :
    let c : Calculator := {}
    c.evaluate "0*-1".toList = .ok ⟨.finite ⟨true, 0, 0⟩, none⟩ ∧
      c.evaluate "0".toList = .ok ⟨.finite ⟨false, 0, 0⟩, none⟩ ∧
      Decimal.value ⟨true, 0, 0⟩ = Decimal.value ⟨false, 0, 0⟩ ∧
      (Number.finite ⟨true, 0, 0⟩).display "en".toList false = .ok ['-', '0'] ∧
      (Number.finite ⟨false, 0, 0⟩).display "en".toList false = .ok ['0'] := by
  refine ⟨by decide +kernel, by decide +kernel, ?_, by decide +kernel, by decide +kernel⟩
  norm_num [Decimal.value, Decimal.signed]

end Calculator

end DecimalCalc
