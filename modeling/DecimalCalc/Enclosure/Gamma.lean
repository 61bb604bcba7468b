import DecimalCalc.Decimal.Arithmetic
import DecimalCalc.Enclosure.Exponential
import DecimalCalc.Enclosure.Trigonometric

/-!
# The gamma function

`ln Γ` by Stirling's series, whose coefficients are Bernoulli numbers and are written here with the
tangent numbers, the coefficients of the tangent's power series. The argument is first raised by
whole steps, with `Γ (x + 1) = x · Γ x`, until the series is precise enough; a negative argument is
reflected, with `Γ x · Γ (1 - x) = π / sin (π x)`.
-/

set_option autoImplicit false

namespace DecimalCalc

/-! ## Tangent numbers -/

/-- One pass over a row: the `i`-th new entry is `i` times the new entry before it and `i + 2` times
the old one. -/
def tangentPass : Nat → Nat → List Nat → List Nat
  | _, _, [] => []
  | i, before, old :: rest =>
    let new := i * before + (i + 2) * old
    new :: tangentPass (i + 1) new rest

/-- The tangent numbers that a row of factorials `0!, 1!, 2!, …` leads to, one pass for each. -/
def tangentRow : Nat → List Nat → List Nat
  | fuel + 1, first :: rest => first :: tangentRow fuel (tangentPass 0 0 rest)
  | _, row => row

/-- The factorials from `n !` on, `count` of them. -/
def factorialsFrom (n factorial : Nat) : Nat → List Nat
  | 0 => []
  | count + 1 => factorial :: factorialsFrom (n + 1) (factorial * (n + 1)) count

/-- The first `count` tangent numbers `1, 2, 16, 272, …`. -/
def tangentNumbers (count : Nat) : List Nat := tangentRow count (factorialsFrom 0 1 count)

namespace Interval

/-! ## Stirling's series -/

/-- Adds up the terms of Stirling's series from the `k`-th on; `power` is `z ^ (1 - 2 k)` up to its
sign, and `factor` is `- z ^ (-2)`. The terms bound what is left out. -/
def stirlingSum (bits : Nat) (factor : Interval) :
    Nat → Interval → Interval → List Nat → Interval
  | _, _, sum, [] => sum
  | k, power, sum, tangent :: rest =>
    let four := 1 <<< (2 * k)
    let term := divNat bits (mulInt bits power tangent) ((2 * k - 1) * four * (four - 1))
    if rest.isEmpty || decide (term.top + bits < sum.top) then add bits sum (spread term)
    else stirlingSum bits factor (k + 1) (mul bits power factor) (add bits sum term) rest

/-- `ln Γ z` for an interval well above zero. -/
def stirling (bits : Nat) (z : Interval) : Option Interval := do
  let inverse ← div bits (ofInt 1) z
  let half := (ofInt 1).shift (-1)
  let main := sub bits (mul bits (sub bits z half) (← ln bits z)) z
  let constant := (← ln bits ((pi bits).shift 1)).shift (-1)
  let start := add bits main constant
  some (stirlingSum bits (mul bits inverse inverse).neg 1 inverse start
    (tangentNumbers (bits / 8 + 8)))

/-- The product `x (x + 1) (x + 2) …` of `count` factors. -/
def risingProduct (bits : Nat) (x : Interval) : Nat → Interval
  | 0 => ofInt 1
  | count + 1 => mul bits (risingProduct bits x count) (add bits x (ofInt count))

/-- `ln Γ x` for a decimal above zero. -/
def lnGamma (bits : Nat) (x : Decimal) : Option Interval := do
  let bits := bits + x.adjusted.toNat * 4 + 20
  let steps := if 9 < x.adjusted then 0 else bits / 3 - x.truncate.toNat
  let y := ofDecimal bits x
  let raised ← stirling bits (add bits y (ofInt steps))
  if steps = 0 then some raised
  else some (sub bits raised (← ln bits (risingProduct bits y steps)))

/-- The sign of `Γ x`, set when negative, and `ln |Γ x|`; `x` is no integer below one. -/
def lnGammaSigned (bits : Nat) (x : Decimal) : Option (Bool × Interval) :=
  if !x.negative then (lnGamma bits x).map (false, ·)
  else do
    let below := x.truncate - 1
    let part := Decimal.exactSum .halfEven x (Decimal.ofInt (-below))
    let other := Decimal.exactSum .halfEven Decimal.one part.neg
    let near := if part.compare other = .gt then other else part
    let (sine, _) ← sinCos bits (mul bits (pi bits) (ofDecimal bits near))
    let circle := sub bits (← ln bits (pi bits)) (← ln bits sine)
    let reflected ← lnGamma bits (Decimal.exactSum .halfEven Decimal.one x.neg)
    some (below % 2 != 0, sub bits circle reflected)

end Interval

namespace Enclosure

/-- The number with a given sign and logarithm. -/
def signedExp (negative : Bool) (bits : Nat) (logarithm : Interval) : Option Interval :=
  let result := Interval.exp bits logarithm
  if negative then result.map Interval.neg else result

/-- `Γ x`; `x` is no integer below one. -/
def gamma (x : Decimal) : Enclosure := fun bits => do
  let (negative, logarithm) ← Interval.lnGammaSigned bits x
  signedExp negative bits logarithm

/-- `B (x, y) = Γ x · Γ y / Γ (x + y)`, where neither `x` nor `y` is an integer below one. It is zero
where `Γ (x + y)` has a pole. -/
def beta (x y : Decimal) : Enclosure := fun bits => do
  let total := Decimal.exactSum .halfEven x y
  if total.isInteger && (total.negative || total.isZero) then some (Interval.ofInt 0)
  else
    let (s, a) ← Interval.lnGammaSigned bits x
    let (t, b) ← Interval.lnGammaSigned bits y
    let (u, c) ← Interval.lnGammaSigned bits total
    signedExp ((s != t) != u) bits (Interval.sub bits (Interval.add bits a b) c)

end Enclosure

end DecimalCalc
