import DecimalCalc.Decimal.Arithmetic
import DecimalCalc.Enclosure.Exponential
import DecimalCalc.Enclosure.Nearest

/-!
# Logarithms

The natural and the common logarithm of a decimal above zero, correctly rounded with halves to the
even neighbour whatever the format's own mode. Only the logarithm of one, and the common logarithms
of the powers of ten, are decimals themselves.
-/

set_option autoImplicit false

namespace DecimalCalc

namespace Decimal

/-- The quotient of the logarithms of two numbers above zero, the second not one. -/
def logRatio (x base : Decimal) : Enclosure := fun bits => do
  let above ← Interval.ln bits (Interval.ofDecimal bits x)
  let below ← Interval.ln bits (Interval.ofDecimal bits base)
  Interval.div bits above below

def naturalLog (f : Format) (x : Decimal) : Except Signal Decimal := do
  let nearest ← Enclosure.nearest f.precision fun bits => Interval.ln bits (Interval.ofDecimal bits x)
  nearest.round { f with rounding := .halfEven }

def commonLog (f : Format) (x : Decimal) : Except Signal Decimal := do
  let exact :=
    if x.reduced.coefficient = 1 then .ok (ofInt x.adjusted)
    else Enclosure.nearest f.precision (logRatio x (ofInt 10))
  (← exact).round { f with rounding := .halfEven }

end Decimal

end DecimalCalc
