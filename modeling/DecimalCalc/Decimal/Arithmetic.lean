import DecimalCalc.Decimal.Rounding

/-!
# Arithmetic on finite decimals

Each operation is the exact result, rounded once into the format. Among the decimals that stand for
one number the exact result takes the one whose exponent the operation calls for: the smaller of
the two for a sum, their sum for a product, and for a quotient that comes out even the difference,
or the nearest exponent below it that can hold the quotient.
-/

set_option autoImplicit false

namespace DecimalCalc

namespace Decimal

/-! ## Signs

A zero keeps no sign, except that under `floor` the operation's own sign stands. -/

/-- The decimal itself, rounded. -/
def plus (f : Format) (x : Decimal) : Except Signal Decimal :=
  if x.isZero && f.rounding != .floor then x.magnitude.round f else x.round f

/-- The decimal with the other sign, rounded. -/
def minus (f : Format) (x : Decimal) : Except Signal Decimal :=
  if x.isZero && f.rounding != .floor then x.magnitude.round f else x.neg.round f

/-- The magnitude of the decimal, rounded. -/
def abs (f : Format) (x : Decimal) : Except Signal Decimal :=
  if x.negative then x.minus f else x.plus f

/-! ## Sums and products -/

/-- The exact sum. A zero sum of opposite numbers is negative only under `floor`. -/
def exactSum (mode : Rounding) (x y : Decimal) : Decimal :=
  let e := min x.exponent y.exponent
  let total := x.scaledTo e + y.scaledTo e
  if total = 0 then
    ⟨if x.negative = y.negative then x.negative else mode == .floor, 0, e⟩
  else ⟨decide (total < 0), total.natAbs, e⟩

def add (f : Format) (x y : Decimal) : Except Signal Decimal :=
  (exactSum f.rounding x y).round f

def subtract (f : Format) (x y : Decimal) : Except Signal Decimal := add f x y.neg

/-- The exact product. -/
def exactProduct (x y : Decimal) : Decimal :=
  ⟨x.negative != y.negative, x.coefficient * y.coefficient, x.exponent + y.exponent⟩

def multiply (f : Format) (x y : Decimal) : Except Signal Decimal := (exactProduct x y).round f

/-! ## Quotients -/

/-- The quotient of two coefficients, scaled by `10 ^ shift` and cut off. Where a remainder is lost
a digit that rounding could take for exact is raised by one, so that cut-off and exact quotients
round alike. The flag tells whether the quotient is exact. -/
def cutQuotient (shift : Int) (n d : Nat) : Nat × Bool :=
  let n := n * tenPow shift.toNat
  let d := d * tenPow (-shift).toNat
  let q := n / d
  if n % d = 0 then (q, true) else (if q % 5 = 0 then q + 1 else q, false)

/-- The quotient by a decimal that is not zero. -/
def divide (f : Format) (x y : Decimal) : Except Signal Decimal :=
  let negative := x.negative != y.negative
  let ideal := x.exponent - y.exponent
  if x.isZero then (⟨negative, 0, ideal⟩ : Decimal).round f
  else
    let shift : Int := y.digits - x.digits + f.precision + 1
    let (q, exact) := cutQuotient shift x.coefficient y.coefficient
    if exact then
      let (rest, count) := stripZeros shift.toNat q
      (⟨negative, rest, ideal - shift + count⟩ : Decimal).round f
    else (⟨negative, q, ideal - shift⟩ : Decimal).round f

/-- What is left of `x` when the largest multiple of `y` towards zero is taken away; `y` is not
zero. The multiple's factor has to fit the precision. -/
def remainder (f : Format) (x y : Decimal) : Except Signal Decimal :=
  let e := min x.exponent y.exponent
  let n := (x.scaledTo e).natAbs
  let d := (y.scaledTo e).natAbs
  if f.precision < digitCount (n / d) then .error .invalidOperation
  else (⟨x.negative, n % d, e⟩ : Decimal).round f

/-! ## Square root -/

/-- The square root of a decimal that is not negative, correctly rounded with halves to the even
neighbour. An exact root has the exponent that is half the radicand's, rounded down, where the
precision allows. -/
def squareRoot (f : Format) (x : Decimal) : Except Signal Decimal :=
  let f := { f with rounding := .halfEven }
  let ideal := x.exponent.fdiv 2
  if x.isZero then { x with exponent := ideal }.round f
  else
    let odd := x.exponent - 2 * ideal
    let c := x.coefficient * tenPow odd.toNat
    let places := (digitCount c + 1) / 2
    let shift : Int := (f.precision : Int) + 1 - places
    let scaled := c * tenPow (2 * shift.toNat)
    let unit := tenPow (2 * (-shift).toNat)
    let root := (scaled / unit).sqrt
    if scaled % unit = 0 ∧ root * root = scaled / unit then
      let root := root * tenPow (-shift).toNat / tenPow shift.toNat
      (⟨x.negative, root, ideal⟩ : Decimal).round f
    else
      let root := if root % 5 = 0 then root + 1 else root
      (⟨x.negative, root, ideal - shift⟩ : Decimal).round f

end Decimal

end DecimalCalc
