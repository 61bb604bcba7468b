import DecimalCalc.Text.DecimalDigit

/-!
# Number literals

How numbers are written in an expression: digits, with an underscore before each group of three of
them where groups are marked, then perhaps a point and more digits, in which underscores may stand
anywhere between two digits. Either part may be missing, but not both. A sign is no part of a
literal.
-/

set_option autoImplicit false

namespace DecimalCalc

namespace NumberLiteral

/-- How far the integral part goes on after a digit: over further digits, and over underscores that
three digits follow. -/
def integralRest : List Char → Nat
  | '_' :: a :: b :: c :: rest =>
    if Text.isDigit a && Text.isDigit b && Text.isDigit c then 4 + integralRest rest else 0
  | c :: rest => if Text.isDigit c then 1 + integralRest rest else 0
  | [] => 0

/-- How far the fraction goes on after a digit: over further digits, and over underscores that a
digit follows. -/
def fractionRest : List Char → Nat
  | '_' :: c :: rest => if Text.isDigit c then 2 + fractionRest rest else 0
  | c :: rest => if Text.isDigit c then 1 + fractionRest rest else 0
  | [] => 0

/-- The length of the fraction at the start of a text. -/
def fractionLength : List Char → Nat
  | c :: rest => if Text.isDigit c then 1 + fractionRest rest else 0
  | [] => 0

/-- The length of what follows the integral part: a point, with or without a fraction. -/
def pointLength : List Char → Nat
  | '.' :: rest => 1 + fractionLength rest
  | _ => 0

/-- The length of the longest number literal at the start of a text; zero if there is none. -/
def length : List Char → Nat
  | '.' :: rest => if fractionLength rest = 0 then 0 else 1 + fractionLength rest
  | c :: rest =>
    if Text.isDigit c then
      let integral := 1 + integralRest rest
      integral + pointLength ((c :: rest).drop integral)
    else 0
  | [] => 0

/-- Puts a zero before a leading point. -/
def withLeadingZero : List Char → List Char
  | '.' :: rest => '0' :: '.' :: rest
  | text => text

/-- The canonical text of a literal: without underscores, with a digit before the point, and without
a point at the end. -/
def canonical (text : List Char) : List Char :=
  let text := withLeadingZero (text.filter (· ≠ '_'))
  (text.reverse.dropWhile (· = '.')).reverse

end NumberLiteral

end DecimalCalc
