import DecimalCalc.Number.Basic
import DecimalCalc.Text.Blank
import DecimalCalc.Text.DecimalDigit

/-!
# Reading numbers

The notation in which numbers are read: an optional sign, then digits of any script with at most one
point among or around them and an optional exponent; or the name of an infinity or a NaN, in any case
of letters. Blanks at both ends do not count.
-/

set_option autoImplicit false

namespace DecimalCalc

/-- The digits at the start of a text, and what follows them. -/
def spanDigits (text : List Char) : List Nat × List Char :=
  ((text.takeWhile Text.isDigit).filterMap Text.digitValue?, text.dropWhile Text.isDigit)

/-- The sign at the start of a text, set for a minus, and what follows it. -/
def spanSign : List Char → Bool × List Char
  | '-' :: rest => (true, rest)
  | '+' :: rest => (false, rest)
  | rest => (false, rest)

/-- An integer: blanks, a sign, digits with single underscores between them, blanks. -/
def readInt? (text : List Char) : Option Int :=
  let (negative, body) := spanSign (Text.strip text)
  (digitGroups body).map fun digits =>
    if negative then -(digitsValue digits : Int) else digitsValue digits
where
  /-- Digits with single underscores between them. -/
  digitGroups : List Char → Option (List Nat)
    | [] => none
    | [c] => (Text.digitValue? c).map ([·])
    | c :: '_' :: rest => do return (← Text.digitValue? c) :: (← digitGroups rest)
    | c :: rest => do return (← Text.digitValue? c) :: (← digitGroups rest)

namespace Decimal

/-- The largest place of a leading digit that can be written. -/
def maxWrittenPlace : Int := 999999999999999999

/-- The lowest exponent that can be written. -/
def minWrittenExponent : Int := -1999999999999999997

/-- The exponent of a literal; no text stands for zero. -/
def readExponent? : List Char → Option Int
  | [] => some 0
  | mark :: rest =>
    if mark = 'e' || mark = 'E' then
      let (negative, body) := spanSign rest
      let (digits, rest) := spanDigits body
      if digits.isEmpty || !rest.isEmpty then none
      else if negative then some (-(digitsValue digits : Int))
      else some (digitsValue digits)
    else none

/-- An unsigned literal of digits, point and exponent, given a sign. -/
def readUnsigned? (negative : Bool) (text : List Char) : Option Decimal := do
  let (whole, rest) := spanDigits text
  let (fraction, rest) :=
    match rest with
    | '.' :: rest => spanDigits rest
    | rest => ([], rest)
  if whole.isEmpty && fraction.isEmpty then none
  else
    let shift ← readExponent? rest
    let x : Decimal := ⟨negative, digitsValue (whole ++ fraction), shift - fraction.length⟩
    if maxWrittenPlace < x.adjusted ∨ x.exponent < minWrittenExponent then none else some x

end Decimal

namespace Number

/-- The payload of a NaN: nothing but digits. -/
def readPayload? (text : List Char) : Option Nat :=
  let (digits, rest) := spanDigits text
  if rest.isEmpty then some (digitsValue digits) else none

/-- The rest of a text that starts with a lower-case name, in any case of letters. -/
def afterName? : List Char → List Char → Option (List Char)
  | [], rest => some rest
  | letter :: name, c :: rest => if c.toLower = letter then afterName? name rest else none
  | _, [] => none

/-- The name of an infinity or a NaN, given a sign. -/
def readSpecial? (negative : Bool) (text : List Char) : Option Number :=
  match afterName? "nan".toList text, afterName? "snan".toList text, afterName? "inf".toList text with
  | some payload, _, _ => (readPayload? payload).map (.nan negative false)
  | _, some payload, _ => (readPayload? payload).map (.nan negative true)
  | _, _, some rest =>
    if rest.isEmpty || afterName? "inity".toList rest = some [] then some (.infinite negative)
    else none
  | none, none, none => none

/-- The number that a text writes. -/
def read? (text : List Char) : Option Number :=
  let (negative, body) := spanSign (Text.strip text)
  match readSpecial? negative body with
  | some special => some special
  | none => (Decimal.readUnsigned? negative body).map .finite

end Number

end DecimalCalc
