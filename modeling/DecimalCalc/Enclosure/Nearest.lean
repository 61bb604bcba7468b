import DecimalCalc.Decimal.Rounding
import DecimalCalc.Enclosure.Interval

/-!
# The nearest decimal

Turns an enclosed real number into the nearest decimal of a given number of digits. The number of
bits is doubled until both ends of the interval round to the same decimal. A number halfway between
two decimals keeps its ends apart however many bits are spent; after a few rounds it is rounded away
from zero.
-/

set_option autoImplicit false

namespace DecimalCalc

/-- Looks for the place of the leading decimal digit of `n / d`, from `place` upwards. -/
def leadingPlace (n d : Nat) : Nat → Int → Int
  | 0, place => place
  | fuel + 1, place =>
    let next := place + 1
    if d * tenPow next.toNat ≤ n * tenPow (-next).toNat then leadingPlace n d fuel next else place

/-- The positive number `m · 2 ^ scale` with `digits` digits: a coefficient and an exponent. -/
def nearestDigits (digits m : Nat) (scale : Int) : Nat × Int :=
  let n := m <<< scale.toNat
  let d := 1 <<< (-scale).toNat
  let guess := ((m.log2 : Int) + scale) * 8651 / 28738 - 1
  let unit := leadingPlace n d 3 guess + 1 - digits
  let q := Rounding.halfUp.divide false (n * tenPow (-unit).toNat) (d * tenPow unit.toNat)
  if tenPow digits ≤ q then (q / 10, unit + 1) else (q, unit)

namespace Interval

/-- Exponents of two beyond which every number is too large for any format. -/
def beyond : Int := 4000000

/-- The decimal of `digits` digits that a number of the given sign and size rounds to. A number too
small to show in any format stays small, but not immeasurably so. -/
def decimalOf (digits : Nat) (negative : Bool) (m : Nat) (scale : Int) : Except Signal Decimal :=
  let top := scale + bitLength m
  if beyond < top then .error .overflow
  else if top < -beyond * 1600000000000 then .error .invalidOperation
  else if top < -beyond - 8 * digits then .ok ⟨negative, 1, -1200000 - 2 * (digits : Int)⟩
  else
    let (coefficient, exponent) := nearestDigits digits m scale
    .ok ⟨negative, coefficient, exponent⟩

/-- The decimal that every number of the interval rounds to, if there is one. -/
def settled (digits : Nat) (x : Interval) : Option (Except Signal Decimal) :=
  if x.isZero then some (.ok Decimal.zero)
  else if 0 < x.lo ∨ x.hi < 0 then
    let near := decimalOf digits (x.hi < 0) x.lo.natAbs x.scale
    let far := decimalOf digits (x.hi < 0) x.hi.natAbs x.scale
    match near, far with
    | .ok a, .ok b => if a = b then some (.ok a) else none
    | .error a, .error b => if a = b then some (.error a) else none
    | _, _ => none
  else none

/-- The end of the interval that is further from zero, rounded. -/
def settledOutwards (digits : Nat) (x : Interval) : Except Signal Decimal :=
  if 0 < x.lo then decimalOf digits false x.hi.natAbs x.scale
  else if x.hi < 0 then decimalOf digits true x.lo.natAbs x.scale
  else .error .invalidOperation

end Interval

namespace Enclosure

/-- Asks for more and more bits until the decimal is settled. -/
def refine (digits : Nat) (x : Enclosure) : Nat → Nat → Except Signal Decimal
  | 0, bits =>
    match x bits with
    | some interval => interval.settledOutwards digits
    | none => .error .invalidOperation
  | rounds + 1, bits =>
    match (x bits).bind (Interval.settled digits) with
    | some result => result
    | none => refine digits x rounds (2 * bits)

/-- The nearest decimal with exactly `digits` digits, or zero. -/
def nearest (digits : Nat) (x : Enclosure) : Except Signal Decimal :=
  refine digits x 5 (4 * digits + 64)

end Enclosure

/-! ## Layout -/

namespace Decimal

/-- The decimal that the notation of a computed number leads to. Zeros at the end are not written,
but one digit always follows the point; and numbers whose leading digit is close to the point, on a
scale set by the number of digits that were computed, are written without an exponent. -/
def laidOut (digits : Nat) (x : Decimal) : Decimal :=
  if x.isZero then ⟨false, 0, -1⟩
  else
    let x := x.reduced
    let place := x.adjusted
    if min (-((digits / 3 : Nat) : Int)) (-5) < place ∧ place < digits then
      if x.exponent < 0 then x else ⟨x.negative, x.coefficient * tenPow (x.exponent + 1).toNat, -1⟩
    else if x.digits = 1 then ⟨x.negative, x.coefficient * 10, x.exponent - 1⟩
    else x

end Decimal

end DecimalCalc
