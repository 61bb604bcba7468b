import DecimalCalc.Decimal.Basic

/-!
# Decimal notation

Two ways to write a decimal. The *scientific* text keeps every part of it: as many digits as the
coefficient has, and an exponent where the plain form would need zeros that the coefficient does not
hold. The *plain* text never has an exponent: zeros fill the places between the digits and the
point.
-/

set_option autoImplicit false

namespace DecimalCalc

namespace Decimal

/-- A row of digits with `places` of them after the point; zeros are put in front when the row is
too short to leave a digit before the point. -/
def withPoint (row : List Char) (places : Nat) : List Char :=
  let row := List.replicate (places + 1 - row.length) '0' ++ row
  if places = 0 then row
  else row.take (row.length - places) ++ '.' :: row.drop (row.length - places)

/-- The minus sign of a negative decimal. -/
def signText (x : Decimal) : List Char := if x.negative then ['-'] else []

/-- The scientific text. It has no exponent when the decimal's own exponent is not positive and its
leading digit stands at most six places after the point. -/
def scientific (x : Decimal) : List Char :=
  let row := numeral x.coefficient
  if x.exponent ≤ 0 ∧ -6 ≤ x.adjusted then
    x.signText ++ withPoint row x.exponent.natAbs
  else
    let mark := if x.adjusted < 0 then ['E'] else ['E', '+']
    x.signText ++ withPoint row (row.length - 1) ++ mark ++ signedNumeral x.adjusted

/-- The plain text. Zeros after the point are kept; a zero with a positive exponent is `0`. -/
def plain (x : Decimal) : List Char :=
  let row := numeral x.coefficient
  if x.exponent ≤ 0 then x.signText ++ withPoint row x.exponent.natAbs
  else if x.isZero then x.signText ++ row
  else x.signText ++ row ++ List.replicate x.exponent.toNat '0'

end Decimal

end DecimalCalc
