import DecimalCalc.Decimal.Root
import DecimalCalc.Functions.Computed

/-!
# Arithmetic, roots and logarithms
-/

set_option autoImplicit false

namespace DecimalCalc

namespace Functions

/-! ## Arithmetic -/

def add (s : Settings) (x y : Number) : Outcome Number :=
  Outcome.guarded .add [x, y] (Outcome.ofSignal (Number.add s.format x y))

def subtract (s : Settings) (x y : Number) : Outcome Number :=
  Outcome.guarded .subtract [x, y] (Outcome.ofSignal (Number.subtract s.format x y))

def multiply (s : Settings) (x y : Number) : Outcome Number :=
  Outcome.guarded .multiply [x, y] (Outcome.ofSignal (Number.multiply s.format x y))

def divide (s : Settings) (x y : Number) : Outcome Number :=
  Outcome.guarded .divide [x, y] <|
    if y.isZero then Outcome.fail .divisionByZero
    else Outcome.ofSignal (Number.divide s.format x y)

/-- The remainder as a number from zero up to the magnitude of the divisor, whatever the signs. The
division is carried out with enough digits for any quotient. -/
def residue (f : Format) (x y : Number) : Except Signal Number := do
  let y := y.magnitude
  let exact : Format := ⟨(max (x.adjusted - y.adjusted) 0).toNat + f.precision + 2, f.rounding⟩
  let rest ← Number.remainder exact x y
  let rest ← if ← rest.isBelow Number.zero then Number.add exact rest y else pure rest
  Number.plus f rest

/-- The modulo operation in a given format. -/
def moduloIn (f : Format) (x y : Number) : Outcome Number :=
  Outcome.guarded .modulo [x, y] <|
    if y.isZero then Outcome.fail .moduloZero else Outcome.ofSignal (residue f x y)

def modulo (s : Settings) (x y : Number) : Outcome Number := moduloIn s.format x y

def power (s : Settings) (x y : Number) : Outcome Number :=
  Outcome.guarded .power [x, y] <|
    if y.isZero then pure Number.one
    else do
      if x.isZero then
        if ← Outcome.ofSignal (y.isBelow Number.zero) then Outcome.fail .zeroToNegativePower
      Outcome.ofSignal (Number.power s.format x y)

def absolute (s : Settings) (x : Number) : Outcome Number :=
  Outcome.ofSignal (Number.abs s.format x)

def negate (s : Settings) (x : Number) : Outcome Number :=
  Outcome.ofSignal (Number.minus s.format x)

/-! ## Roots -/

def squareRoot (s : Settings) (x : Number) : Outcome Number :=
  Outcome.guarded .squareRoot [x] do
    if ← Outcome.ofSignal (x.isBelow Number.zero) then Outcome.fail .rootOfNegative
    else Outcome.ofSignal (Number.squareRoot s.format x)

/-- The root of the magnitude of a decimal, with the decimal's sign. -/
def signedRoot (s : Settings) (x degree : Decimal) : Outcome Number := do
  if x.isZero then s.settle (.ok Decimal.zero)
  else
    let root ← s.settle (Decimal.root s.computedDigits x.magnitude degree)
    pure (if x.negative then root.neg else root)

def cubeRoot (s : Settings) (x : Number) : Outcome Number :=
  Outcome.guarded .cubeRoot [x] do signedRoot s (← x.finite?) (Decimal.ofInt 3)

/-- The root of a degree above zero; a negative number has roots of odd degrees only. -/
def root (s : Settings) (x degree : Number) : Outcome Number :=
  Outcome.guarded .root [x, degree] do
    if ← Outcome.ofSignal (degree.isAtMost Number.zero) then Outcome.fail .degreeNotPositive
    else
      let sign ← Outcome.ofSignal x.signum
      if sign = 0 then pure Number.zero
      else if sign < 0 then
        match degree with
        | .finite n =>
          if n.isOdd then signedRoot s (← x.finite?) n else Outcome.fail .evenRootOfNegative
        | _ => .error (.signal .wordOverflow)
      else signedRoot s (← x.finite?) (← degree.finite?)

/-! ## Logarithms -/

/-- Refuses an operand of a logarithm that is not above zero. -/
def checkPositive (operand : LogOperand) (x : Number) : Outcome Unit := do
  if ← Outcome.ofSignal (x.isAtMost Number.zero) then
    Outcome.fail (.logOfNonPositive operand x)

def naturalLog (s : Settings) (x : Number) : Outcome Number :=
  Outcome.guarded .naturalLog [x] do
    checkPositive .number x
    Outcome.ofSignal (Number.naturalLog s.format x)

def commonLog (s : Settings) (x : Number) : Outcome Number :=
  Outcome.guarded .commonLog [x] do
    checkPositive .number x
    Outcome.ofSignal (Number.commonLog s.format x)

/-- The logarithm of `x` to a base that is above zero and not one. -/
def logarithm (s : Settings) (x base : Number) : Outcome Number :=
  Outcome.guarded .logarithm [x, base] do
    checkPositive .number x
    checkPositive .base base
    if ← Outcome.ofSignal (base.isEqual Number.one) then Outcome.fail .logBaseOne
    else s.computed (Decimal.logRatio (← x.finite?) (← base.finite?))

def binaryLog (s : Settings) (x : Number) : Outcome Number := logarithm s x (Number.ofInt 2)

end Functions

end DecimalCalc
