import DecimalCalc.Decimal.Arithmetic
import DecimalCalc.Enclosure.Interval

/-!
# Trigonometric functions

π, sine and cosine, the arcus functions and the direction of a point, on intervals. Arguments are in
radians here; the exact reduction of an angle in degrees is a matter of decimals and is done before.
-/

set_option autoImplicit false

namespace DecimalCalc

namespace Interval

/-- `arctan (1/q) = 1/q - 1/(3q³) + 1/(5q⁵) - …`, for a natural number `q` from two on. -/
def arctanInverse (bits q : Nat) : Interval :=
  series bits (fun _ t => (divNat bits t (q * q)).neg) (fun n t => divNat bits t (2 * n + 1))
    (bits + 20) 0 (divNat bits (ofInt 1) q) (ofInt 0)

/-- `π = 16 arctan (1/5) - 4 arctan (1/239)`. -/
def pi (bits : Nat) : Interval :=
  sub bits ((arctanInverse bits 5).shift 4) ((arctanInverse bits 239).shift 2)

/-! ## Sine and cosine -/

/-- `x - x³/3! + x⁵/5! - …`, for `x` of at most one. -/
def sinSeries (bits : Nat) (x : Interval) : Interval :=
  let square := (mul bits x x).neg
  series bits (fun n t => divNat bits (mul bits t square) ((2 * n + 2) * (2 * n + 3)))
    (fun _ t => t) (bits + 20) 0 x (ofInt 0)

/-- `1 - x²/2! + x⁴/4! - …`, for `x` of at most one. -/
def cosSeries (bits : Nat) (x : Interval) : Interval :=
  let square := (mul bits x x).neg
  series bits (fun n t => divNat bits (mul bits t square) ((2 * n + 1) * (2 * n + 2)))
    (fun _ t => t) (bits + 20) 0 (ofInt 1) (ofInt 0)

/-- Sine and cosine of `x` turned by `k` quarter turns. -/
def turned (bits : Nat) (k : Int) (x : Interval) : Interval × Interval :=
  let s := sinSeries bits x
  let c := cosSeries bits x
  match k % 4 with
  | 0 => (s, c)
  | 1 => (c, s.neg)
  | 2 => (s.neg, c.neg)
  | _ => (c.neg, s)

/-- Sine and cosine of an angle in radians: it is brought below one eighth of a turn by taking away
the nearest multiple of `π / 2`. -/
def sinCos (bits : Nat) (x : Interval) : Option (Interval × Interval) :=
  if x.top ≤ 0 then some (turned bits 0 x)
  else
    let work := bits + x.top.toNat + 4
    let quarter := (pi work).shift (-1)
    let ratio := divPositive work x quarter
    let k := ratio.nearestInt
    let rest := sub work x (mulInt work quarter k)
    if rest.top ≤ 0 then some (turned bits k rest) else none

/-- Sine and cosine of an angle of `degrees`, a decimal between zero and a full turn. It is reduced
exactly to the nearest quarter turn, so the zeros come out as zeros. -/
def sinCosDegrees (bits : Nat) (degrees : Decimal) : Interval × Interval :=
  let doubled := Decimal.exactProduct degrees (Decimal.ofInt 2)
  let k := (doubled.truncate / 90 + 1) / 2
  let rest := ofDecimal bits (Decimal.exactSum .halfEven degrees (Decimal.ofInt (-90 * k)))
  let work := mul bits rest (pi bits)
  turned bits k (divNat bits work 180)

/-! ## Arcus functions -/

/-- `z - z³/3 + z⁵/5 - …`, for `z` of at most one half. -/
def arctanSeries (bits : Nat) (z : Interval) : Interval :=
  let square := (mul bits z z).neg
  series bits (fun _ t => mul bits t square) (fun n t => divNat bits t (2 * n + 1))
    (bits + 20) 0 z (ofInt 0)

/-- `tan (a / 2)` from `tan a`, for an angle below a quarter turn. -/
def halfTangent (bits : Nat) (z : Interval) : Option Interval := do
  let root ← sqrt bits (add bits (mul bits z z) (ofInt 1))
  div bits z (add bits root (ofInt 1))

/-- The arctangent of a tangent that is not much above one: the angle is halved three times before
the series is summed. -/
def arctanSmall (bits : Nat) (z : Interval) : Option Interval := do
  let z ← halfTangent bits z
  let z ← halfTangent bits z
  let z ← halfTangent bits z
  some ((arctanSeries bits z).shift 3)

def arctan (bits : Nat) (z : Interval) : Option Interval :=
  if z.top ≤ 1 then arctanSmall bits z
  else do
    let quarter := (pi bits).shift (-1)
    let rest ← arctanSmall bits (← div bits (ofInt 1) z)
    if 0 < z.lo then some (sub bits quarter rest)
    else some (sub bits quarter.neg rest)

def arccot (bits : Nat) (z : Interval) : Option Interval :=
  if z.isZero then some ((pi bits).shift (-1))
  else do arctan bits (← div bits (ofInt 1) z)

/-- `arcsin z = 2 arctan (z / (1 + √(1 - z²)))`. -/
def arcsin (bits : Nat) (z : Interval) : Option Interval := do
  let root ← sqrt bits (sub bits (ofInt 1) (mul bits z z))
  let half ← arctan bits (← div bits z (add bits root (ofInt 1)))
  some (half.shift 1)

/-- `arccos z` is a quarter turn less `arcsin z`, and `2 arcsin √((1 - z) / 2)` where that is
small. -/
def arccos (bits : Nat) (z : Interval) : Option Interval := do
  if 1 ≤ shiftDown z.lo (z.scale + 1) then
    let root ← sqrt bits ((sub bits (ofInt 1) z).shift (-1))
    some ((← arcsin bits root).shift 1)
  else
    some (sub bits ((pi bits).shift (-1)) (← arcsin bits z))

/-- The angle from the positive `x` axis to the point `(x, y)`, which is not the origin. -/
def direction (bits : Nat) (y x : Interval) : Option Interval :=
  if 0 < x.lo then do arctan bits (← div bits y x)
  else if x.hi < 0 then do
    let rest ← arctan bits (← div bits y x)
    if 0 ≤ y.lo then some (add bits rest (pi bits))
    else if y.hi < 0 then some (sub bits rest (pi bits))
    else none
  else if x.isZero then
    if 0 < y.lo then some ((pi bits).shift (-1))
    else if y.hi < 0 then some ((pi bits).shift (-1)).neg
    else none
  else none

end Interval

end DecimalCalc
