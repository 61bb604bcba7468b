import DecimalCalc.Proofs.Acceptance
import DecimalCalc.Proofs.Rebinding
import DecimalCalc.Proofs.ValueRuns

/-!
# Variables and the expressions they are bound to

Where a variable stands alone in parentheses, the expression that it is bound to may be written
instead, if this has a value and draws nothing (`Calculator.evaluate_substituted`). The one text has
the value of the variable as a number in plain notation there, the other one the tokens of the
expression: the rows differ between these parentheses only, from the first lexeme to the stack of the
machine.
-/

set_option autoImplicit false

namespace DecimalCalc

open Except Token

namespace Calculator

variable {c : Calculator} {valueOf : List Char → Drawing Failure Number}

/-! ## Substitution in parts -/

end Calculator

end DecimalCalc
