import DecimalCalc.Enclosure.Interval

/-!
# Exponential and logarithm

`exp` and `ln` on intervals, and the hyperbolic functions and their inverses made of them. Near zero
the odd functions are summed as a series that starts with the argument itself, so that small
arguments keep all their digits.
-/

set_option autoImplicit false

namespace DecimalCalc

namespace Interval

/-- A bound on the number of terms that a series needs. -/
def termBound (bits : Nat) : Nat := bits + 20

/-! ## The logarithm -/

/-- `artanh z = z + z³/3 + z⁵/5 + …`, for `z` of at most one half. -/
def artanhSeries (bits : Nat) (z : Interval) : Interval :=
  let square := mul bits z z
  series bits (fun _ t => mul bits t square) (fun n t => divNat bits t (2 * n + 1))
    (termBound bits) 0 z (ofInt 0)

/-- `ln 2 = 2 · artanh (1/3)`. -/
def ln2 (bits : Nat) : Interval :=
  (artanhSeries bits (divNat bits (ofInt 1) 3)).shift 1

/-- The natural logarithm of an interval above zero: `x = y · 2 ^ k` with `y` close to one, and
`ln y = 2 · artanh ((y - 1) / (y + 1))`. -/
def ln (bits : Nat) (x : Interval) : Option Interval :=
  if x.lo ≤ 0 then none
  else do
    let k := if x.hi * 10 < 7 <<< bitLength x.hi then x.top - 1 else x.top
    let y := x.shift (-k)
    let z ← div bits (sub bits y (ofInt 1)) (add bits y (ofInt 1))
    if !z.isZero && decide (-1 < z.top) then none
    else
      let near := (artanhSeries bits z).shift 1
      if k = 0 then some near
      else some (add bits near (mulInt bits (ln2 (bits + bitLength k)) k))

/-! ## The exponential -/

/-- `1 + x + x²/2! + …`, for `x` of at most one. -/
def expSeries (bits : Nat) (x : Interval) : Interval :=
  series bits (fun n t => divNat bits (mul bits t x) (n + 1)) (fun _ t => t)
    (termBound bits) 0 (ofInt 1) (ofInt 0)

/-- `exp x = 2 ^ k · exp (x - k ln 2)` with the `k` that brings the argument close to zero.
Arguments beyond `2 ^ 100` are out of reach. -/
def exp (bits : Nat) (x : Interval) : Option Interval :=
  if 100 < x.top then none
  else do
    let work := bits + x.top.toNat + 4
    let unit := ln2 work
    let ratio := divPositive work x unit
    let k := ratio.nearestInt
    let rest := sub work x (mulInt work unit k)
    if rest.top ≤ 0 then some ((expSeries bits rest).shift k) else none

/-! ## Hyperbolic functions -/

/-- `x + x³/3! + x⁵/5! + …`, for `x` of at most one. -/
def sinhSeries (bits : Nat) (x : Interval) : Interval :=
  let square := mul bits x x
  series bits (fun n t => divNat bits (mul bits t square) ((2 * n + 2) * (2 * n + 3)))
    (fun _ t => t) (termBound bits) 0 x (ofInt 0)

def sinh (bits : Nat) (x : Interval) : Option Interval :=
  if x.top ≤ 0 then some (sinhSeries bits x)
  else do
    let up ← exp bits x
    let down ← exp bits x.neg
    some ((sub bits up down).shift (-1))

def cosh (bits : Nat) (x : Interval) : Option Interval := do
  let up ← exp bits x
  let down ← exp bits x.neg
  some ((add bits up down).shift (-1))

/-- The hyperbolic tangent. Beyond `bits` it differs from its limit by less than the last bit. -/
def tanh (bits : Nat) (x : Interval) : Option Interval :=
  if x.isZero then some x
  else if bitLength bits < x.top then
    let near : Interval := ⟨1 <<< bits - 1, 1 <<< bits, -(bits : Int)⟩
    if (bits : Int) < shiftDown x.lo x.scale then some near
    else if shiftUp x.hi x.scale < -(bits : Int) then some near.neg
    else none
  else do div bits (← sinh bits x) (← cosh bits x)

def coth (bits : Nat) (x : Interval) : Option Interval := do
  div bits (ofInt 1) (← tanh bits x)

/-! ## Inverse hyperbolic functions -/

/-- `artanh x` is half the logarithm of `(1 + x) / (1 - x)`. -/
def artanh (bits : Nat) (x : Interval) : Option Interval :=
  if x.top ≤ -1 then some (artanhSeries bits x)
  else do
    let ratio ← div bits (add bits (ofInt 1) x) (sub bits (ofInt 1) x)
    some ((← ln bits ratio).shift (-1))

def arcoth (bits : Nat) (x : Interval) : Option Interval := do
  artanh bits (← div bits (ofInt 1) x)

/-- `arsinh x` is `artanh (x / √(1 + x²))` near zero, and `ln (x + √(x² + 1))` for large `x`. -/
def arsinh (bits : Nat) (x : Interval) : Option Interval := do
  let root ← sqrt bits (add bits (mul bits x x) (ofInt 1))
  if x.top ≤ 0 then artanh bits (← div bits x root)
  else if 0 < x.lo then ln bits (add bits x root)
  else if x.hi < 0 then (ln bits (add bits x.neg root)).map neg
  else none

def arcosh (bits : Nat) (x : Interval) : Option Interval := do
  let root ← sqrt bits (sub bits (mul bits x x) (ofInt 1))
  ln bits (add bits x root)

end Interval

end DecimalCalc
