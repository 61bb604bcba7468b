import DecimalCalc.Decimal.Arithmetic
import DecimalCalc.Enclosure.Exponential
import DecimalCalc.Enclosure.Nearest

/-!
# Roots of any degree

The root of a positive decimal, to the nearest decimal of a given number of digits. When the degree
is an integer and the radicand is a power of that degree, the root is found by integer arithmetic
and is exact.
-/

set_option autoImplicit false

namespace DecimalCalc

/-- Raises `root` bit by bit, from the bit `bits - 1` downwards, as long as its `n`-th power stays
at most `x`. -/
def floorRootFrom (n x : Nat) : Nat → Nat → Nat
  | 0, root => root
  | bits + 1, root =>
    let raised := root + (1 <<< bits)
    floorRootFrom n x bits (if raised.pow n ≤ x then raised else root)

/-- The largest number whose `n`-th power is at most `x`. -/
def floorRoot (n x : Nat) : Nat := floorRootFrom n x (x.log2 / n + 1) 0

/-- The number whose `n`-th power is `x`, if there is one. -/
def perfectRoot? (n x : Nat) : Option Nat :=
  if x = 1 then some 1
  else if x.log2 < n then none
  else
    let root := floorRoot n x
    if root.pow n = x then some root else none

namespace Decimal

/-- The exact root of an integer degree, if it is a decimal. A reduced decimal is a power only if its
coefficient and its exponent both are. -/
def exactRoot? (x : Decimal) (n : Nat) : Option Decimal :=
  let x := x.reduced
  if n = 0 then none
  else if x.exponent % n ≠ 0 then none
  else (perfectRoot? n x.coefficient).map fun root => ⟨false, root, x.exponent / n⟩

/-- The real root of a number above zero; the degree is above zero. -/
def realRoot (x degree : Decimal) : Enclosure := fun bits => do
  let logarithm ← Interval.ln bits (Interval.ofDecimal bits x)
  let exponent ← Interval.div bits logarithm (Interval.ofDecimal bits degree)
  Interval.exp bits exponent

/-- The exact root where it is a decimal of at most `digits` digits. -/
def shortRoot? (digits : Nat) (x degree : Decimal) : Option Decimal :=
  if degree.isInteger then
    (exactRoot? x degree.truncate.toNat).filter fun root => root.digits ≤ digits
  else none

/-- The root of a number above zero, of `digits` digits. -/
def root (digits : Nat) (x degree : Decimal) : Except Signal Decimal :=
  match shortRoot? digits x degree with
  | some root => .ok root
  | none => Enclosure.nearest digits (realRoot x degree)

end Decimal

end DecimalCalc
