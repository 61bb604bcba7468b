import DecimalCalc.Drawing
import DecimalCalc.Functions.Computed

/-!
# Operations on integers

Factorials, selections, divisors and random integers. The exact integer is rounded to the precision
like any other result, so it has to be computed only as far as the exponent range reaches.
-/

set_option autoImplicit false

namespace DecimalCalc

/-- The product of `count` successive numbers from `first` on, halved `levels` times; there are at
most `2 ^ levels` of them. -/
def productByHalves : Nat → Nat → Nat → Nat
  | 0, first, count => if count = 0 then 1 else first
  | levels + 1, first, count =>
    let half := count / 2
    productByHalves levels first half * productByHalves levels (first + half) (count - half)

/-- The product `first (first + 1) (first + 2) …` of `count` numbers. -/
def successiveProduct (first count : Nat) : Nat := productByHalves (count.log2 + 1) first count

/-- Products of more successive numbers than this exceed the exponent range. -/
def maxFactors : Nat := 400000

/-- Selections from the middle of more than this many exceed the exponent range. -/
def maxSelection : Nat := 3321929

/-- The longest integer that a message writes out. -/
def maxWrittenDigits : Nat := 4300

namespace Number

/-- The integer that a number is. -/
def integer (task : IntegerTask) (x : Number) : Outcome Int := do
  if ← Outcome.ofSignal x.isInteger then
    match x with
    | .finite x => pure x.truncate
    | _ => .error (.signal .wordOverflow)
  else Outcome.fail (.notInteger task x)

end Number

namespace Functions

/-- An integer as a result. -/
def ofInteger (s : Settings) (n : Int) : Outcome Number :=
  Outcome.ofSignal (Number.plus s.format (Number.ofInt n))

def factorial (s : Settings) (x : Number) : Outcome Number :=
  Outcome.guarded .factorial [x] do
    let n ← x.integer .factorial
    if n < 0 then Outcome.fail .factorialOfNegative
    else if maxFactors < n then .error (.signal .overflow)
    else ofInteger s (successiveProduct 1 n.toNat)

/-- The two operands of a selection, neither negative and the second at most the first. -/
def selection (task : IntegerTask) (n k : Number) : Outcome (Nat × Nat) := do
  let n ← n.integer task
  let k ← k.integer task
  if n < 0 ∨ k < 0 then Outcome.fail (.negativeCount task)
  else if n < k then Outcome.fail (.selectionTooLarge task)
  else pure (n.toNat, k.toNat)

/-- The number of rows of `k` different things out of `n`. -/
def permutation (s : Settings) (n k : Number) : Outcome Number := do
  let (n, k) ← selection .permutations n k
  if maxWord < k then .error (.signal .wordOverflow)
  else if maxFactors < k then .error (.signal .overflow)
  else ofInteger s (successiveProduct (n - k + 1) k)

/-- The number of sets of `k` things out of `n`. -/
def combination (s : Settings) (n k : Number) : Outcome Number := do
  let (n, k) ← selection .combinations n k
  let k := min k (n - k)
  if maxWord < k then .error (.signal .wordOverflow)
  else if maxSelection < k then .error (.signal .overflow)
  else ofInteger s (successiveProduct (n - k + 1) k / successiveProduct 1 k : Nat)

def gcd (s : Settings) (x y : Number) : Outcome Number := do
  let x ← x.integer .gcd
  let y ← y.integer .gcd
  ofInteger s (x.natAbs.gcd y.natAbs)

def lcm (s : Settings) (x y : Number) : Outcome Number := do
  let x ← x.integer .lcm
  let y ← y.integer .lcm
  ofInteger s (x.natAbs.lcm y.natAbs)

/-- The bounds of a random integer: two integers, of which the first is not the larger one. -/
def range (low high : Number) : Outcome (Int × Int) := do
  let low ← low.integer .randomInteger
  let high ← high.integer .randomInteger
  if high < low then
    if maxWrittenDigits < max (digitCount low.natAbs) (digitCount high.natAbs) then
      .error (.signal .tooLongToWrite)
    else Outcome.fail (.emptyRange low high)
  else pure (low, high)

/-- A random integer between two bounds, which is drawn only if there is one. -/
def randomInteger (s : Settings) (low high : Number) : Drawing OperationError Number :=
  (Drawing.still (range low high)).bind fun (low, high) =>
    (Drawing.between low high).bind fun n => Drawing.still (ofInteger s n)

end Functions

end DecimalCalc
