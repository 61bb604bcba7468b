import DecimalCalc.Decimal.Rounding
import DecimalCalc.Decimal.Text

/-!
# Numbers

A number is a finite decimal, an infinity, or not a number at all. The last two come into a
calculation only as literals; no operation makes one of them out of finite operands. A NaN carries a
payload, which is zero when none was given, and a signaling one is refused by every operation.
-/

set_option autoImplicit false

namespace DecimalCalc

inductive Number
  | finite (value : Decimal)
  | infinite (negative : Bool)
  | nan (negative signaling : Bool) (payload : Nat)
  deriving DecidableEq, Inhabited

namespace Number

def zero : Number := .finite Decimal.zero

def one : Number := .finite Decimal.one

/-- An integer as a number. -/
def ofInt (n : Int) : Number := .finite (Decimal.ofInt n)

/-- A natural number as a number. -/
def ofNat (n : Nat) : Number := .finite (Decimal.ofNat n)

def isZero : Number → Bool
  | .finite x => x.isZero
  | _ => false

/-- The number with the other sign, not rounded. -/
def neg : Number → Number
  | .finite x => .finite x.neg
  | .infinite negative => .infinite !negative
  | .nan negative signaling payload => .nan (!negative) signaling payload

/-- The number without a minus sign, not rounded. -/
def magnitude : Number → Number
  | .finite x => .finite x.magnitude
  | .infinite _ => .infinite false
  | .nan _ signaling payload => .nan false signaling payload

/-- The exponent of the leading digit; zero for what has no digits. -/
def adjusted : Number → Int
  | .finite x => x.adjusted
  | _ => 0

/-! ## Text -/

/-- How infinities and NaNs are written, whatever the notation. -/
def specialText (negative : Bool) (name : List Char) (payload : Nat) : List Char :=
  (if negative then ['-'] else []) ++ name ++ if payload = 0 then [] else numeral payload

/-- The text that keeps every part of a number. -/
def scientific : Number → List Char
  | .finite x => x.scientific
  | .infinite negative => specialText negative "Infinity".toList 0
  | .nan negative signaling payload =>
    specialText negative (if signaling then "sNaN".toList else "NaN".toList) payload

/-- The text without exponents. -/
def plain : Number → List Char
  | .finite x => x.plain
  | special => special.scientific

/-! ## Comparing -/

/-- Compares two numbers for order; a NaN has no place in any order. -/
def compare : Number → Number → Except Signal Ordering
  | .finite x, .finite y => .ok (x.compare y)
  | .nan .., _ => .error .invalidOperation
  | _, .nan .. => .error .invalidOperation
  | .infinite x, .infinite y => .ok (if x = y then .eq else if x then .lt else .gt)
  | .infinite x, .finite _ => .ok (if x then .lt else .gt)
  | .finite _, .infinite y => .ok (if y then .gt else .lt)

/-- Whether the first number is below the second. -/
def isBelow (x y : Number) : Except Signal Bool := (x.compare y).map (· == .lt)

/-- Whether the first number is at most the second. -/
def isAtMost (x y : Number) : Except Signal Bool := (x.compare y).map (· != .gt)

/-- Whether two numbers are equal. A NaN equals nothing, and a signaling one may not be asked. -/
def isEqual : Number → Number → Except Signal Bool
  | .nan _ true _, _ => .error .invalidOperation
  | _, .nan _ true _ => .error .invalidOperation
  | .nan .., _ => .ok false
  | _, .nan .. => .ok false
  | x, y => (x.compare y).map (· == .eq)

/-- The sign of a number as an integer: `1`, `0` or `-1`. -/
def signum (x : Number) : Except Signal Int :=
  (x.compare zero).map fun
    | .gt => 1
    | .eq => 0
    | .lt => -1

/-- Whether a number equals its integer part. An infinity does; a NaN does not. -/
def isInteger : Number → Except Signal Bool
  | .finite x => .ok x.isInteger
  | .infinite _ => .ok true
  | .nan _ signaling _ => if signaling then .error .invalidOperation else .ok false

end Number

end DecimalCalc
