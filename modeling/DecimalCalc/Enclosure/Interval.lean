import DecimalCalc.Decimal.Basic

/-!
# Intervals around real numbers

An interval `[lo, hi] · 2 ^ scale` stands for some real number that lies in it. Every operation
below rounds outwards: whatever numbers the operands stand for, the result contains the outcome. The
working precision `bits` only decides how tight the result is, never whether it is right. Where an
operation is not defined on the whole interval there is no result, and the caller may ask again with
tighter operands.
-/

set_option autoImplicit false

namespace DecimalCalc

/-- The real numbers from `lo · 2 ^ scale` to `hi · 2 ^ scale`. -/
structure Interval where
  lo : Int
  hi : Int
  scale : Int
  deriving DecidableEq, Inhabited

/-- The number of binary digits of a magnitude; zero has none. -/
def bitLength (n : Int) : Nat := if n = 0 then 0 else n.natAbs.log2 + 1

/-- The integer just below `n · 2 ^ s`, or that number itself. -/
def shiftDown (n s : Int) : Int := if 0 ≤ s then n <<< s.toNat else n >>> (-s).toNat

/-- The integer just above `n · 2 ^ s`, or that number itself. -/
def shiftUp (n s : Int) : Int := -shiftDown (-n) s

namespace Interval

/-! ## Scales -/

/-- The interval of one integer. -/
def ofInt (n : Int) : Interval := ⟨n, n, 0⟩

def isZero (x : Interval) : Bool := x.lo == 0 && x.hi == 0

/-- The number of bits of the larger end. -/
def width (x : Interval) : Nat := max (bitLength x.lo) (bitLength x.hi)

/-- The place just above the leading bit of the larger end. -/
def top (x : Interval) : Int := x.width + x.scale

/-- The interval on another scale. -/
def rescale (x : Interval) (scale : Int) : Interval :=
  ⟨shiftDown x.lo (x.scale - scale), shiftUp x.hi (x.scale - scale), scale⟩

/-- The interval with ends of at most about `bits` bits. Zero has no scale. -/
def trim (bits : Nat) (x : Interval) : Interval :=
  if x.isZero then ofInt 0
  else if x.width ≤ bits then x
  else x.rescale (x.scale + (x.width - bits : Nat))

/-- The interval times `2 ^ k`. -/
def shift (x : Interval) (k : Int) : Interval := { x with scale := x.scale + k }

/-- The integer nearest to the middle of the interval. -/
def nearestInt (x : Interval) : Int := shiftDown (shiftDown (x.lo + x.hi) x.scale + 1) (-1)

/-! ## Sums and products -/

def neg (x : Interval) : Interval := ⟨-x.hi, -x.lo, x.scale⟩

def add (bits : Nat) (x y : Interval) : Interval :=
  if x.isZero then y
  else if y.isZero then x
  else
    let scale := max (min x.scale y.scale) (max x.top y.top - bits)
    let x := x.rescale scale
    let y := y.rescale scale
    ⟨x.lo + y.lo, x.hi + y.hi, scale⟩

def sub (bits : Nat) (x y : Interval) : Interval := add bits x y.neg

def mul (bits : Nat) (x y : Interval) : Interval :=
  let a := x.lo * y.lo
  let b := x.lo * y.hi
  let c := x.hi * y.lo
  let d := x.hi * y.hi
  trim bits ⟨min (min a b) (min c d), max (max a b) (max c d), x.scale + y.scale⟩

/-- The product with an integer. -/
def mulInt (bits : Nat) (x : Interval) (n : Int) : Interval := mul bits x (ofInt n)

/-! ## Quotients and roots -/

/-- The quotient by an interval above zero. -/
def divPositive (bits : Nat) (x y : Interval) : Interval :=
  let k : Nat := bits + y.width - x.width
  let lo := x.lo <<< k
  let hi := x.hi <<< k
  let lower := lo.fdiv (if 0 ≤ lo then y.hi else y.lo)
  let upper := -(-hi).fdiv (if 0 ≤ hi then y.lo else y.hi)
  trim bits ⟨lower, upper, x.scale - y.scale - k⟩

/-- The quotient by an interval without zero. -/
def div (bits : Nat) (x y : Interval) : Option Interval :=
  if 0 < y.lo then some (divPositive bits x y)
  else if y.hi < 0 then some (divPositive bits x.neg y.neg)
  else none

/-- The quotient by a positive natural number. -/
def divNat (bits : Nat) (x : Interval) (n : Nat) : Interval := divPositive bits x (ofInt n)

/-- The square root. An end below zero is read as zero, since the number itself has a root. -/
def sqrt (bits : Nat) (x : Interval) : Option Interval :=
  if x.hi < 0 then none
  else
    let k : Nat := 2 * bits - x.width
    let k := if (x.scale - k) % 2 = 0 then k else k + 1
    let lo := x.lo.toNat <<< k
    let hi := x.hi.toNat <<< k
    let above := hi.sqrt
    let above := if above * above = hi then above else above + 1
    some (trim bits ⟨lo.sqrt, above, (x.scale - k) / 2⟩)

/-! ## Decimals -/

/-- The interval around a decimal. Decimals that are equal as numbers have one interval. -/
def ofDecimal (bits : Nat) (x : Decimal) : Interval :=
  let x := x.reduced
  if 0 ≤ x.exponent then trim bits (ofInt (x.signed * tenPow x.exponent.toNat))
  else divPositive bits (ofInt x.signed) (ofInt (tenPow x.exponent.natAbs))

/-! ## Series -/

/-- Every number of at most twice the size of `x`. -/
def spread (x : Interval) : Interval :=
  let bound := 2 * max x.lo.natAbs x.hi.natAbs
  ⟨-(bound : Int), bound, x.scale⟩

/-- Adds up `part n t`, where `t` is the `n`-th of a row of terms and `step n t` the next one. From
some point on each term is at most half as large as the one before, and no part is larger than its
term; so where the sum is broken off, twice the first term left out bounds all that is missing. -/
def series (bits : Nat) (step part : Nat → Interval → Interval) :
    Nat → Nat → Interval → Interval → Interval
  | 0, _, term, sum => add bits sum (spread term)
  | fuel + 1, n, term, sum =>
    if term.isZero || (!sum.isZero && decide (term.top + bits < sum.top)) then
      add bits sum (spread term)
    else series bits step part fuel (n + 1) (step n term) (add bits sum (part n term))

end Interval

/-- A real number, given by an interval around it for each number of bits that may be spent; there
is none where that many bits tell nothing. -/
abbrev Enclosure := Nat → Option Interval

end DecimalCalc
