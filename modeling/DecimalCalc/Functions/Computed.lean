import DecimalCalc.Enclosure.Nearest
import DecimalCalc.Functions.DomainFault
import DecimalCalc.Number.Arithmetic
import DecimalCalc.Settings

/-!
# Computed results

How the value of a transcendental function becomes a result. The nearest decimal with ten digits more
than the precision is laid out as it would be written, rounded to a fixed number of places where the
function asks for it, and then rounded to the precision.

Arguments are taken exactly, however long they are. Handed over as a text, one of more than
`maxWrittenDigits` digits would be refused, and this is left out here. Arguments have no more digits
than the precision, so it concerns precisions of thousands of digits only.
-/

set_option autoImplicit false

namespace DecimalCalc

/-- How many digits more than the precision a function is computed to. -/
def guardDigits : Nat := 10

namespace Settings

/-- The number of digits that functions are computed to. -/
def computedDigits (s : Settings) : Nat := s.precision + guardDigits

/-- The result that a computed decimal leads to. -/
def settle (s : Settings) (computed : Except Signal Decimal) : Outcome Number :=
  Outcome.ofSignal do
    let x := (← computed).laidOut s.computedDigits
    Number.plus s.format (.finite x)

/-- The result that a computed decimal leads to when it may have no more places after the point than
the precision, so that what is left of a zero comes out as zero. The last place is looked for in the
standard format, in which there is none below `10 ^ -1000026`. -/
def settleAtPlaces (s : Settings) (computed : Except Signal Decimal) : Outcome Number :=
  Outcome.ofSignal do
    let x := (← computed).laidOut s.computedDigits
    let exact : Format := ⟨(max x.adjusted 0).toNat + s.precision + 2, s.rounding⟩
    let last ← Decimal.shiftPoint Format.standard Decimal.one (-s.precision)
    let x ← Number.quantize exact (.finite x) last.exponent
    Number.plus s.format x

/-- The result for an enclosed number. -/
def computed (s : Settings) (x : Enclosure) : Outcome Number :=
  s.settle (Enclosure.nearest s.computedDigits x)

/-- The result for an enclosed number, with limited places after the point. -/
def computedAtPlaces (s : Settings) (x : Enclosure) : Outcome Number :=
  s.settleAtPlaces (Enclosure.nearest s.computedDigits x)

end Settings

namespace Number

/-- The finite decimal that a number is; transcendental functions have no other arguments. -/
def finite? : Number → Outcome Decimal
  | .finite x => .ok x
  | _ => .error (.signal .invalidOperation)

end Number

end DecimalCalc
