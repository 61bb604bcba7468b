import DecimalCalc.Enclosure.Gamma
import DecimalCalc.Functions.Computed

/-!
# Hyperbolic and special functions
-/

set_option autoImplicit false

namespace DecimalCalc

namespace Functions

/-- The circle number. -/
def pi (s : Settings) : Outcome Number := s.computed fun bits => some (Interval.pi bits)

/-- The base of the natural logarithm. -/
def euler (s : Settings) : Outcome Number :=
  s.computed fun bits => Interval.exp bits (Interval.ofInt 1)

/-! ## Hyperbolic functions -/

/-- The result of an interval function at a number. -/
def elementary (s : Settings) (function : Nat → Interval → Option Interval) (x : Number) :
    Outcome Number := do
  let x ← x.finite?
  s.computed fun bits => function bits (Interval.ofDecimal bits x)

/-- From here on the exponential is beyond every format. -/
def hugeArgument : Int := 7

/-- A function that grows like the exponential. -/
def growing (s : Settings) (function : Nat → Interval → Option Interval) (x : Number) :
    Outcome Number :=
  if !x.isZero && hugeArgument ≤ x.adjusted then .error (.signal .overflow) else elementary s function x

/-- Whether a number lies strictly between minus one and one. -/
def insideUnit (x : Number) : Outcome Bool := do
  if ← Outcome.ofSignal ((Number.ofInt (-1)).isBelow x) then
    Outcome.ofSignal (x.isBelow Number.one)
  else pure false

/-- Whether a number lies between minus one and one, or is one of them. -/
def withinUnit (x : Number) : Outcome Bool := do
  if ← Outcome.ofSignal ((Number.ofInt (-1)).isAtMost x) then
    Outcome.ofSignal (x.isAtMost Number.one)
  else pure false

def sinh (s : Settings) (x : Number) : Outcome Number :=
  Outcome.guarded .sinh [x] (growing s Interval.sinh x)

def cosh (s : Settings) (x : Number) : Outcome Number :=
  Outcome.guarded .cosh [x] (growing s Interval.cosh x)

def tanh (s : Settings) (x : Number) : Outcome Number :=
  Outcome.guarded .tanh [x] (elementary s Interval.tanh x)

def coth (s : Settings) (x : Number) : Outcome Number :=
  Outcome.guarded .coth [x] <|
    if x.isZero then Outcome.fail .cothOfZero else elementary s Interval.coth x

def arsinh (s : Settings) (x : Number) : Outcome Number :=
  Outcome.guarded .arsinh [x] (elementary s Interval.arsinh x)

def arcosh (s : Settings) (x : Number) : Outcome Number :=
  Outcome.guarded .arcosh [x] do
    if ← Outcome.ofSignal (x.isBelow Number.one) then Outcome.fail .arcoshBelowOne
    else elementary s Interval.arcosh x

def artanh (s : Settings) (x : Number) : Outcome Number :=
  Outcome.guarded .artanh [x] do
    if ← insideUnit x then elementary s Interval.artanh x
    else Outcome.fail .artanhOutsideUnit

def arcoth (s : Settings) (x : Number) : Outcome Number :=
  Outcome.guarded .arcoth [x] do
    if ← withinUnit x then Outcome.fail .arcothInsideUnit
    else elementary s Interval.arcoth x

/-! ## Gamma and beta -/

/-- Refuses the integers below one, where the gamma function has its poles. -/
def checkPole (function : PoleFunction) (x : Number) : Outcome Unit := do
  if ← Outcome.ofSignal (x.isAtMost Number.zero) then
    if ← Outcome.ofSignal x.isInteger then Outcome.fail (.pole function x)

def gamma (s : Settings) (x : Number) : Outcome Number :=
  Outcome.guarded .gamma [x] do
    checkPole .gamma x
    s.computed (Enclosure.gamma (← x.finite?))

def beta (s : Settings) (x y : Number) : Outcome Number :=
  Outcome.guarded .beta [x, y] do
    checkPole .beta x
    checkPole .beta y
    s.computed (Enclosure.beta (← x.finite?) (← y.finite?))

end Functions

end DecimalCalc
