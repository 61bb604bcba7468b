import DecimalCalc.Proofs.FaithfulRounding
import DecimalCalc.Proofs.FittingResults
import DecimalCalc.Proofs.ValueArithmetic

/-!
# What a computed decimal leads to

A function that is computed to more digits than the precision answers the computed decimal, rounded to
the format of the settings. In between the decimal is laid out in the notation that it would be written
in, which leaves its value as it is (`Decimal.value_laidOut`). So the value of the answer is the value
of the computed decimal, rounded once (`Settings.settle_answers_iff`), and a number that the format
represents is answered as it is (`Settings.settle_represents`).
-/

set_option autoImplicit false

namespace DecimalCalc

open Except

/-- **An operation answers a number** if its result is a decimal of that value. -/
def Outcome.Answers (result : Outcome Number) (v : ℚ) : Prop :=
  ∃ r : Decimal, result = .ok (.finite r) ∧ r.value = v

theorem Outcome.answers_neg_of_finite {r : Decimal} :
    Outcome.Answers (pure (Number.finite r).neg) (-r.value) :=
  ⟨r.neg, rfl, Decimal.value_neg r⟩

/-- A decimal operation answers the value of its result. -/
theorem Outcome.answers_ofSignal {result : Except Signal Decimal} {v : ℚ} :
    (Outcome.ofSignal (result.map Number.finite)).Answers v ↔
      result.map Decimal.value = .ok v := by
  rw [map_eq_ok]
  unfold Outcome.Answers Outcome.ofSignal
  constructor
  · rintro ⟨r, hr, hvalue⟩
    obtain ⟨r', hr', hsame⟩ := map_eq_ok.mp (mapError_eq_ok.mp hr)
    obtain rfl := Number.finite.inj hsame
    exact ⟨r', hr', hvalue⟩
  · rintro ⟨r, hr, hvalue⟩
    exact ⟨r, by rw [hr]; rfl, hvalue⟩

/-! ## Layout -/

namespace Decimal

/-- Zeros that are put at the end of the coefficient do not count. -/
theorem value_padded (negative : Bool) (n : Nat) {d e : Int} (h : d ≤ e) :
    value ⟨negative, n * tenPow (e - d).toNat, d⟩ = value ⟨negative, n, e⟩ := by
  refine value_eq_of_abs rfl ?_
  rw [abs_value, abs_value]
  exact cast_scaled n h

/-- **The layout of a decimal** does not change its value. -/
theorem value_laidOut (digits : Nat) (x : Decimal) : (x.laidOut digits).value = x.value := by
  unfold laidOut
  by_cases hx : x.isZero = true
  · rw [if_pos hx, value_eq_zero_iff.mpr hx]
    exact value_eq_zero_iff.mpr rfl
  · rw [if_neg hx, ← value_reduced x]
    generalize x.reduced = y
    dsimp only
    split
    · split
      · rfl
      · rename_i hexponent
        exact value_padded y.negative y.coefficient (d := -1) (e := y.exponent) (by omega)
    · split
      · have hpad := value_padded y.negative y.coefficient (d := y.exponent - 1) (e := y.exponent)
          (by omega)
        rw [show (y.exponent - (y.exponent - 1)).toNat = 1 by omega] at hpad
        exact hpad
      · rfl

end Decimal

/-! ## Settled results -/

namespace Settings

variable {s : Settings} {w : Decimal} {v : ℚ}

/-- **The value of a settled result** is the value of the computed decimal, rounded once. -/
theorem settle_answers_iff (hmax : s.precision ≤ Format.maxPrecision) :
    (s.settle (.ok w)).Answers v ↔ s.format.rounded w.value = .ok v := by
  have hplus : s.settle (.ok w) = Outcome.ofSignal
      ((Decimal.plus s.format (w.laidOut s.computedDigits)).map Number.finite) := by
    show Outcome.ofSignal (Number.plus s.format (.finite (w.laidOut s.computedDigits))) = _
    rw [Number.plus, Number.lift₁_finite hmax]
  have hvalue := Decimal.plus_value (f := s.format) s.precision_pos (w.laidOut s.computedDigits)
  rw [Decimal.value_laidOut] at hvalue
  rw [← hvalue, hplus, Outcome.answers_ofSignal]

/-- A result is only settled in a precision that is not too large, and where one is computed. -/
theorem exists_of_settle {computed : Except Signal Decimal} {z : Number}
    (h : s.settle computed = .ok z) :
    s.precision ≤ Format.maxPrecision ∧ ∃ w, computed = .ok w := by
  obtain ⟨w, hw, hplus⟩ := bind_eq_ok.mp (mapError_eq_ok.mp h)
  obtain ⟨u, hcheck, -⟩ := bind_eq_ok.mp hplus
  exact ⟨Number.le_of_check hcheck, w, hw⟩

end Settings

end DecimalCalc
