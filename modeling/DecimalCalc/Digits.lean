/-!
# Decimal digits

The decimal digits of a natural number: how many there are, how they are written, what a row of
digits is worth, and how many zeros stand at its end. Every definition works by halving, so that a
number of a million digits is written, read and stripped as readily as one of ten.
-/

set_option autoImplicit false

namespace DecimalCalc

/-! ## Powers of ten -/

/-- The power `10 ^ n`. -/
def tenPow (n : Nat) : Nat := Nat.pow 10 n

theorem tenPow_zero : tenPow 0 = 1 := rfl

theorem tenPow_succ (n : Nat) : tenPow (n + 1) = tenPow n * 10 := Nat.pow_succ 10 n

theorem tenPow_pos (n : Nat) : 0 < tenPow n := Nat.pow_pos (show 0 < 10 by decide)

theorem tenPow_add (m n : Nat) : tenPow (m + n) = tenPow m * tenPow n :=
  Nat.pow_add 10 m n

/-! ## How many digits -/

/-- The first `k' ≥ k` with `n < 10 ^ k'`, looked for over `fuel` steps; `power` is `10 ^ k`. -/
def digitCountFrom (n : Nat) : Nat → Nat → Nat → Nat
  | 0, k, _ => k
  | fuel + 1, k, power =>
    if n < power then k else digitCountFrom n fuel (k + 1) (power * 10)

/-- The number of decimal digits of `n`; zero has one. The search starts just below the answer,
since `10 ^ 8651 ≤ 2 ^ 28738`. -/
def digitCount (n : Nat) : Nat :=
  let start := n.log2 * 8651 / 28738 + 1
  digitCountFrom n (n.log2 + 1) start (tenPow start)

/-! ## Writing -/

/-- The `2 ^ k` lowest digits of `n`, the highest of them first. -/
def lowDigits : Nat → Nat → List Nat
  | 0, n => [n % 10]
  | k + 1, n =>
    let base := tenPow (1 <<< k)
    lowDigits k (n / base % base) ++ lowDigits k (n % base)

/-- The digits of `n`, the highest first; zero has the one digit `0`. -/
def digitsOf (n : Nat) : List Nat :=
  let count := digitCount n
  let digits := lowDigits (count.log2 + 1) n
  digits.drop (digits.length - count)

/-- The character that writes a digit below ten. -/
def digitChar (d : Nat) : Char := Char.ofNat ('0'.toNat + d)

/-- A natural number in decimal notation. -/
def numeral (n : Nat) : List Char := (digitsOf n).map digitChar

/-- An integer in decimal notation, with a minus sign when it is negative. -/
def signedNumeral (n : Int) : List Char :=
  if n < 0 then '-' :: numeral n.natAbs else numeral n.natAbs

/-! ## Reading -/

/-- Joins neighbours of a row of `base` digits, lowest first, into digits of base `base * base`. -/
def pairDigits (base : Nat) : List Nat → List Nat
  | low :: high :: rest => (low + base * high) :: pairDigits base rest
  | short => short

/-- The worth of a row of `base` digits, lowest first: after each of `rounds` pairings the row is
half as long, and what is left is summed digit by digit. -/
def rowValue : Nat → Nat → List Nat → Nat
  | 0, base, row => row.foldr (fun digit rest => digit + base * rest) 0
  | rounds + 1, base, row => rowValue rounds (base * base) (pairDigits base row)

/-- The number that a row of decimal digits writes, the highest digit first; the empty row is
zero. -/
def digitsValue (digits : List Nat) : Nat :=
  rowValue (digits.length.log2) 10 digits.reverse

/-! ## Zeros at the end -/

/-- Removes `2 ^ k`, then `2 ^ (k - 1)`, and so on down to one zero from the end of `n` wherever
that many stand there, but never more than `limit` in all. Answers the rest and how many went. -/
def stripZerosFrom : Nat → Nat → Nat → Nat × Nat
  | 0, limit, n => if 1 ≤ limit ∧ n % 10 = 0 then (n / 10, 1) else (n, 0)
  | k + 1, limit, n =>
    let step := 1 <<< (k + 1)
    if step ≤ limit ∧ n % tenPow step = 0 then
      let (rest, count) := stripZerosFrom k (limit - step) (n / tenPow step)
      (rest, count + step)
    else stripZerosFrom k limit n

/-- Removes as many zeros from the end of `n` as stand there, but at most `limit`. Answers the rest
and how many went. Zero itself keeps its digit. -/
def stripZeros (limit n : Nat) : Nat × Nat :=
  if n = 0 then (0, 0) else stripZerosFrom (digitCount n).log2 limit n

end DecimalCalc
