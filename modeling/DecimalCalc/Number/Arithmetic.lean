import DecimalCalc.Decimal.Power
import DecimalCalc.Decimal.Logarithm
import DecimalCalc.Number.Basic

/-!
# Arithmetic on numbers

The operations on finite decimals, extended to infinities and NaNs. A NaN among the operands is the
result, with as much of its payload as the precision allows; a signaling NaN, and a combination of
infinities without a meaning, is an invalid operation.
-/

set_option autoImplicit false

namespace DecimalCalc

namespace Number

/-! ## NaN operands -/

/-- A NaN as a result: its payload keeps its lowest digits. -/
def asResult (f : Format) (negative signaling : Bool) (payload : Nat) : Except Signal Number :=
  if signaling then .error .invalidOperation
  else .ok (.nan negative false (payload % tenPow f.precision))

/-- An operation on one number: finite decimals and infinities are left to the arguments. -/
def lift₁ (f : Format) (onFinite : Decimal → Except Signal Decimal)
    (onInfinite : Bool → Except Signal Number) (x : Number) : Except Signal Number := do
  f.check
  match x with
  | .finite x => (onFinite x).map .finite
  | .infinite negative => onInfinite negative
  | .nan negative signaling payload => asResult f negative signaling payload

/-- An operation on two numbers. A signaling NaN counts before a quiet one, and the first before the
second; what is left is a pair with an infinity in it. -/
def lift₂ (f : Format) (onFinite : Decimal → Decimal → Except Signal Decimal)
    (onInfinite : Number → Number → Except Signal Number) (x y : Number) :
    Except Signal Number := do
  f.check
  match x, y with
  | .finite x, .finite y => (onFinite x y).map .finite
  | .nan _ true _, _ => .error .invalidOperation
  | _, .nan _ true _ => .error .invalidOperation
  | .nan negative _ payload, _ => asResult f negative false payload
  | _, .nan negative _ payload => asResult f negative false payload
  | x, y => onInfinite x y

/-- Whether the sign of a number is set. -/
def isNegative : Number → Bool
  | .finite x => x.negative
  | .infinite negative => negative
  | .nan negative .. => negative

def isInfinite : Number → Bool
  | .infinite _ => true
  | _ => false

/-! ## Operations -/

def plus (f : Format) : Number → Except Signal Number :=
  lift₁ f (Decimal.plus f) fun negative => .ok (.infinite negative)

def minus (f : Format) : Number → Except Signal Number :=
  lift₁ f (Decimal.minus f) fun negative => .ok (.infinite !negative)

def abs (f : Format) : Number → Except Signal Number :=
  lift₁ f (Decimal.abs f) fun _ => .ok (.infinite false)

def add (f : Format) : Number → Number → Except Signal Number :=
  lift₂ f (Decimal.add f) fun
    | .infinite x, .infinite y => if x = y then .ok (.infinite x) else .error .invalidOperation
    | .infinite x, _ => .ok (.infinite x)
    | _, y => .ok (.infinite y.isNegative)

def subtract (f : Format) (x : Number) : Number → Except Signal Number
  | .nan negative signaling payload =>
    lift₂ f (Decimal.subtract f) (fun _ _ => .error .invalidOperation) x
      (.nan negative signaling payload)
  | y => add f x y.neg

def multiply (f : Format) : Number → Number → Except Signal Number :=
  lift₂ f (Decimal.multiply f) fun x y =>
    if x.isZero || y.isZero then .error .invalidOperation
    else .ok (.infinite (x.isNegative != y.isNegative))

/-- The quotient; the divisor is not zero. A quotient by an infinity is the smallest zero. -/
def divide (f : Format) : Number → Number → Except Signal Number :=
  lift₂ f (Decimal.divide f) fun x y =>
    let negative := x.isNegative != y.isNegative
    if x.isInfinite && y.isInfinite then .error .invalidOperation
    else if x.isInfinite then .ok (.infinite negative)
    else .ok (.finite ⟨negative, 0, f.tiny⟩)

/-- The remainder; the divisor is not zero. -/
def remainder (f : Format) : Number → Number → Except Signal Number :=
  lift₂ f (Decimal.remainder f) fun
    | .finite x, _ => (x.round f).map .finite
    | _, _ => .error .invalidOperation

/-- The power; the exponent is not zero, and is positive if the base is zero. -/
def power (f : Format) : Number → Number → Except Signal Number :=
  lift₂ f
    (fun x y =>
      if x.isZero then .ok ⟨x.negative && y.isOdd, 0, 0⟩ else Decimal.power f x y)
    fun
    | x, .infinite down =>
      if x.isZero then .ok zero
      else if x.isNegative then .error .invalidOperation
      else
        match x with
        | .finite x =>
          if x.isOne then .ok (.finite (Decimal.paddedOne false (f.precision - 1)))
          else if (x.compare Decimal.one == .lt) == down then .ok (.infinite false)
          else .ok zero
        | _ => if down then .ok zero else .ok (.infinite false)
    | x, .finite y =>
      if x.isNegative && !y.isInteger then .error .invalidOperation
      else
        let negative := x.isNegative && y.isOdd
        if y.negative then .ok (.finite ⟨negative, 0, 0⟩) else .ok (.infinite negative)
    | _, _ => .error .invalidOperation

/-- The square root of a number that is not below zero. -/
def squareRoot (f : Format) : Number → Except Signal Number :=
  lift₁ f (Decimal.squareRoot f) fun _ => .ok (.infinite false)

/-- The natural logarithm of a number above zero. -/
def naturalLog (f : Format) : Number → Except Signal Number :=
  lift₁ f (Decimal.naturalLog f) fun _ => .ok (.infinite false)

/-- The common logarithm of a number above zero. -/
def commonLog (f : Format) : Number → Except Signal Number :=
  lift₁ f (Decimal.commonLog f) fun _ => .ok (.infinite false)

/-- The number with its last digit at the place `unit`. -/
def quantize (f : Format) (x : Number) (unit : Int) : Except Signal Number :=
  lift₁ f (Decimal.quantize f · unit) (fun _ => .error .invalidOperation) x

/-- The number without zeros at its end. -/
def normalize (f : Format) : Number → Except Signal Number :=
  lift₁ f (Decimal.normalize f) fun negative => .ok (.infinite negative)

end Number

end DecimalCalc
