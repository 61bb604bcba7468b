/-!
# Tables of characters

A class of characters is given by the ranges of code points that belong to it, in ascending order.
Looking a character up stops at the first range above it, so common characters are found at once.
-/

set_option autoImplicit false

namespace DecimalCalc

namespace Text

/-- Whether a code point lies in one of the ranges, which ascend. -/
def inRanges (point : Nat) : List (Nat × Nat) → Bool
  | [] => false
  | (first, last) :: rest =>
    if point < first then false else if point ≤ last then true else inRanges point rest

end Text

end DecimalCalc
