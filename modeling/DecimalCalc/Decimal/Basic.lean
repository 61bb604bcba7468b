import DecimalCalc.Digits

/-!
# Finite decimals

A decimal is a sign, a coefficient and an exponent, and stands for
`± coefficient · 10 ^ exponent`. Trailing zeros of the coefficient and the sign of a zero are part
of a decimal although they do not change the number it stands for: `1.50` and `1.5` are two
decimals with one value.
-/

set_option autoImplicit false

namespace DecimalCalc

/-- The decimal `± coefficient · 10 ^ exponent`, negative when the flag is set. -/
structure Decimal where
  negative : Bool
  coefficient : Nat
  exponent : Int
  deriving DecidableEq, Inhabited

namespace Decimal

/-- An integer as a decimal with exponent zero. -/
def ofInt (n : Int) : Decimal := ⟨decide (n < 0), n.natAbs, 0⟩

/-- A natural number as a decimal with exponent zero. -/
def ofNat (n : Nat) : Decimal := ⟨false, n, 0⟩

def zero : Decimal := ofNat 0

def one : Decimal := ofNat 1

/-! ## Parts -/

def isZero (x : Decimal) : Bool := x.coefficient == 0

/-- The number of digits of the coefficient. -/
def digits (x : Decimal) : Nat := digitCount x.coefficient

/-- The exponent of the leading digit. -/
def adjusted (x : Decimal) : Int := x.exponent + x.digits - 1

/-- The coefficient with its sign. -/
def signed (x : Decimal) : Int :=
  if x.negative then -(x.coefficient : Int) else x.coefficient

/-- The same magnitude with the other sign. -/
def neg (x : Decimal) : Decimal := { x with negative := !x.negative }

/-- The same magnitude without a minus sign. -/
def magnitude (x : Decimal) : Decimal := { x with negative := false }

/-! ## Changing the exponent -/

/-- The signed coefficient of the same number when it is written with the exponent `e`, which is at
most its own. -/
def scaledTo (x : Decimal) (e : Int) : Int := x.signed * tenPow (x.exponent - e).toNat

/-- The same number without zeros at the end of the coefficient. A zero gets exponent zero and no
sign, so numbers that are equal have one reduced form. -/
def reduced (x : Decimal) : Decimal :=
  if x.isZero then zero
  else
    let (rest, count) := stripZeros x.digits x.coefficient
    ⟨x.negative, rest, x.exponent + count⟩

/-! ## Comparing -/

/-- Compares the magnitudes of two decimals: first by the places of their leading digits, and digit
by digit only where these agree. -/
def compareMagnitude (x y : Decimal) : Ordering :=
  if x.isZero || y.isZero then compare x.coefficient y.coefficient
  else if x.adjusted = y.adjusted then
    let e := min x.exponent y.exponent
    compare (x.scaledTo e).natAbs (y.scaledTo e).natAbs
  else compare x.adjusted y.adjusted

/-- Compares the numbers that two decimals stand for; both zeros are equal. -/
def compare (x y : Decimal) : Ordering :=
  if x.isZero && y.isZero then .eq
  else if x.isZero then if y.negative then .gt else .lt
  else if y.isZero then if x.negative then .lt else .gt
  else if x.negative && !y.negative then .lt
  else if !x.negative && y.negative then .gt
  else if x.negative then y.compareMagnitude x
  else x.compareMagnitude y

/-! ## Integers -/

/-- Whether the decimal stands for an integer. -/
def isInteger (x : Decimal) : Bool :=
  x.isZero || decide (0 ≤ x.exponent) ||
    (decide (0 ≤ x.adjusted) && x.coefficient % tenPow x.exponent.natAbs == 0)

/-- The integer part, towards zero. -/
def truncate (x : Decimal) : Int :=
  let n : Nat :=
    if 0 ≤ x.exponent then x.coefficient * tenPow x.exponent.toNat
    else if x.adjusted < 0 then 0
    else x.coefficient / tenPow x.exponent.natAbs
  if x.negative then -(n : Int) else n

end Decimal

end DecimalCalc
