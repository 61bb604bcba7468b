import DecimalCalc.Decimal.Basic

/-!
# Rounding to a format

A *format* is a precision, the number of digits a result may have, and a rounding mode. Exponents
are limited as well: the leading digit of a result stands at `10 ^ 999999` at the highest, and its
last digit at `10 ^ tiny` at the lowest. A result beyond the first limit is the signal `overflow`.
A result below the second one silently loses digits, down to a zero.
-/

set_option autoImplicit false

namespace DecimalCalc

/-- What goes wrong inside an arithmetic operation. -/
inductive Signal
  /-- The result is too large for the exponent range. -/
  | overflow
  /-- The operation has no meaningful result. -/
  | invalidOperation
  /-- A number that has to fit a machine word, or to be finite, does not. -/
  | wordOverflow
  /-- A format asks for a precision beyond the largest one. -/
  | precisionTooLarge
  /-- An integer has too many digits to be written out. -/
  | tooLongToWrite
  deriving DecidableEq

/-- How a number between two neighbours is rounded. `zeroFiveUp` rounds away from zero exactly when
the digit kept last would be `0` or `5`, so that a second rounding still sees that digits are
missing. -/
inductive Rounding
  | halfUp
  | halfEven
  | halfDown
  | up
  | down
  | ceiling
  | floor
  | zeroFiveUp
  deriving DecidableEq, Inhabited

namespace Rounding

/-- Whether a magnitude strictly between `kept` and `kept + 1` is rounded to the latter; `half` is
how what is left over compares with one half. -/
def roundsUp (mode : Rounding) (negative : Bool) (kept : Nat) (half : Ordering) : Bool :=
  match mode with
  | .halfUp => half != .lt
  | .halfEven => half == .gt || (half == .eq && kept % 2 == 1)
  | .halfDown => half == .gt
  | .up => true
  | .down => false
  | .ceiling => !negative
  | .floor => negative
  | .zeroFiveUp => kept % 5 == 0

/-- The magnitude `n / d` rounded to a natural number. -/
def divide (mode : Rounding) (negative : Bool) (n d : Nat) : Nat :=
  let kept := n / d
  let rest := n % d
  if rest = 0 then kept
  else if mode.roundsUp negative kept (compare (2 * rest) d) then kept + 1
  else kept

end Rounding

/-! ## Formats -/

/-- The integers that fit a machine word end here. -/
def maxWord : Nat := 9223372036854775807

/-- A precision and a rounding mode. -/
structure Format where
  precision : Nat
  rounding : Rounding
  deriving DecidableEq, Inhabited

namespace Format

/-- The format of arithmetic for which no other one is named. -/
def standard : Format := ⟨28, .halfEven⟩

/-- The highest place of a leading digit. -/
def maxExponent : Int := 999999

/-- The lowest place of the leading digit of a number that keeps its full precision. -/
def minExponent : Int := -999999

/-- The lowest place of any digit. -/
def tiny (f : Format) : Int := minExponent - f.precision + 1

/-- The largest precision. -/
def maxPrecision : Nat := 999999999999999999

/-- Refuses a format whose precision is beyond the largest one, or does not even fit a machine
word. -/
def check (f : Format) : Except Signal Unit :=
  if maxPrecision < f.precision then
    .error (if f.precision ≤ maxWord then .precisionTooLarge else .wordOverflow)
  else .ok ()

end Format

namespace Decimal

/-- The decimal with its last digit at the place `unit`, rounded when digits are lost. No digits are
put after a zero, which may have any exponent. No more digits are dropped than there are and one,
which rounds the same. -/
def roundAt (mode : Rounding) (x : Decimal) (unit : Int) : Decimal :=
  if unit ≤ x.exponent then
    let more := if x.isZero then 0 else (x.exponent - unit).toNat
    ⟨x.negative, x.coefficient * tenPow more, unit⟩
  else
    let dropped := min (unit - x.exponent).toNat (x.digits + 1)
    ⟨x.negative, mode.divide x.negative x.coefficient (tenPow dropped), unit⟩

/-- Fits a decimal into a format. A decimal that fits is left as it is. -/
def round (f : Format) (x : Decimal) : Except Signal Decimal :=
  if x.isZero then
    .ok { x with exponent := min (max x.exponent f.tiny) Format.maxExponent }
  else
    let unit := max (x.exponent + x.digits - f.precision) f.tiny
    let y :=
      if unit ≤ x.exponent then x
      else
        let y := x.roundAt f.rounding unit
        if f.precision < y.digits then { y with coefficient := y.coefficient / 10, exponent := unit + 1 }
        else y
    if Format.maxExponent < y.adjusted then .error .overflow else .ok y

/-- The decimal with its point moved by some places, but by no more than twice the range of
exponents. -/
def shiftPoint (f : Format) (x : Decimal) (places : Int) : Except Signal Decimal :=
  if 2 * (Format.maxExponent + f.precision) < places.natAbs then .error .invalidOperation
  else { x with exponent := x.exponent + places }.round f

/-- The decimal with its last digit at the place `unit`. The result has to fit the format as it
is. -/
def quantize (f : Format) (x : Decimal) (unit : Int) : Except Signal Decimal :=
  if Format.maxExponent < unit ∨ unit < f.tiny then .error .invalidOperation
  else if !x.isZero && decide (Format.maxExponent < x.adjusted) then .error .invalidOperation
  else
    let y := x.roundAt f.rounding unit
    if y.isZero then y.round f
    else if f.precision < y.digits ∨ Format.maxExponent < y.adjusted then
      .error .invalidOperation
    else y.round f

/-- The rounded decimal without zeros at the end of its coefficient. -/
def normalize (f : Format) (x : Decimal) : Except Signal Decimal :=
  (x.round f).map fun y =>
    if y.isZero then { y with exponent := 0 }
    else
      let limit := (Format.maxExponent - y.exponent).toNat
      let (rest, count) := stripZeros limit y.coefficient
      { y with coefficient := rest, exponent := y.exponent + count }

end Decimal

end DecimalCalc
