import DecimalCalc.Decimal.Arithmetic
import DecimalCalc.Enclosure.Exponential
import DecimalCalc.Enclosure.Nearest

/-!
# Powers

A power with an integer exponent is made by squaring and multiplying, with more digits than the
result keeps; it is exact when the exact power fits. A power with another exponent is the rounded
real power and always has the full number of digits.
-/

set_option autoImplicit false

namespace DecimalCalc

namespace Decimal

/-- Whether the decimal is one, under any number of zeros. -/
def isOne (x : Decimal) : Bool := x.compare one == .eq

/-- Whether the decimal is an odd integer. -/
def isOdd (x : Decimal) : Bool := x.isInteger && x.truncate % 2 != 0

/-- One with `places` zeros after its point. -/
def paddedOne (negative : Bool) (places : Nat) : Decimal :=
  ⟨negative, tenPow places, -(places : Int)⟩

/-! ## The range of a power -/

/-- A place `k` with `10 ^ k ≤ |log₁₀ x|`, for a magnitude `x` that is neither zero nor one. -/
def logPlace (x : Decimal) : Int :=
  let distance := exactSum .halfEven x.magnitude one.neg
  if 0 < x.adjusted then (digitCount x.adjusted.natAbs : Int) - 1
  else if x.adjusted < -1 then (digitCount (x.adjusted + 1).natAbs : Int) - 1
  else if distance.negative then distance.adjusted - 1
  else distance.adjusted - 2

/-- Whether a power grows with the magnitude of its exponent. -/
def powerGrows (x y : Decimal) : Bool := decide (0 ≤ x.adjusted) != y.negative

/-- Whether the power lies so far outside the exponent range that it need not be computed. -/
def powerOutOfRange (f : Format) (x y : Decimal) : Bool :=
  let limit := if powerGrows x y then Format.maxExponent else f.tiny
  decide ((digitCount limit.natAbs : Int) < x.logPlace + y.adjusted)

/-! ## Integer exponents -/

/-- `x ^ n` for a positive `n` of `steps + 1` binary digits, each product rounded. -/
def powerBySquaring (f : Format) (x : Decimal) : Nat → Nat → Except Signal Decimal
  | 0, _ => .ok x
  | steps + 1, n => do
    let root ← powerBySquaring f x steps (n / 2)
    let square ← multiply f root root
    if n % 2 = 1 then multiply f square x else pure square

/-- The power with an integer exponent that is not zero. -/
def integerPower (f : Format) (x : Decimal) (n : Int) : Except Signal Decimal := do
  let work : Format := ⟨f.precision + digitCount n.natAbs + 2, .halfEven⟩
  let steps := n.natAbs.log2
  let negative := x.negative && n % 2 != 0
  let power ←
    if n < 0 then do
      let work := { work with precision := work.precision + 1 }
      let inverse ← divide work one x
      powerBySquaring work inverse steps n.natAbs
    else powerBySquaring work x steps n.natAbs
  { power with negative := negative }.round f

/-! ## Other exponents -/

/-- The power `x ^ y = exp (y · ln x)` of a number above zero. Logarithm, product and exponential are
each rounded to `digits` digits, so a power that is exact may come out a little off. -/
def realPower (digits : Nat) (x y : Decimal) : Except Signal Decimal := do
  let logarithm ← Enclosure.nearest digits fun bits => Interval.ln bits (Interval.ofDecimal bits x)
  let exponent ← multiply ⟨digits, .halfEven⟩ logarithm y
  Enclosure.nearest digits fun bits => Interval.exp bits (Interval.ofDecimal bits exponent)

/-- `x ^ y` where `x` and `y` are not zero. A power of one has as many zeros after the point as the
exact power, up to the precision. A negative number has no power with a fractional exponent. -/
def power (f : Format) (x y : Decimal) : Except Signal Decimal :=
  let negative := x.negative && y.isOdd
  if x.negative && !y.isInteger then .error .invalidOperation
  else if x.magnitude.isOne then
    if !y.isInteger then (paddedOne false (f.precision - 1)).round f
    else if y.negative then (paddedOne negative 0).round f
    else
      let places := min (x.exponent.natAbs * y.truncate.toNat) (f.precision - 1)
      (paddedOne negative places).round f
  else if powerOutOfRange f x y then
    if powerGrows x y then .error .overflow
    else (⟨negative, 1, f.tiny - 1⟩ : Decimal).round f
  else if y.isInteger then integerPower f x y.truncate
  else do
    let precise ← realPower (max x.digits f.precision + 23) x y
    if precise.isOne then (paddedOne false (f.precision - 1)).round f else precise.round f

end Decimal

end DecimalCalc
