import DecimalCalc.Enclosure.Trigonometric
import DecimalCalc.Functions.Algebra

/-!
# Angles

The trigonometric functions and their inverses, in the unit of angles that the settings name. An
angle in degrees is reduced by whole turns exactly before anything is computed, and the poles of
tangent and cotangent are found exactly as well.
-/

set_option autoImplicit false

namespace DecimalCalc

namespace Functions

def fullTurn : Number := Number.ofInt 360

def halfTurn : Number := Number.ofInt 180

/-! ## Sine and cosine of an angle -/

/-- Sine and cosine of an angle, enclosed. -/
def sinCos (s : Settings) (angle : Number) : Outcome (Nat → Option (Interval × Interval)) :=
  match s.angleUnit with
  | .degrees => do
    let reduced ← moduloIn (s.widened guardDigits) angle fullTurn
    let reduced ← reduced.finite?
    pure fun bits => some (Interval.sinCosDegrees bits reduced)
  | .radians => do
    let radians ← angle.finite?
    pure fun bits => Interval.sinCos bits (Interval.ofDecimal bits radians)

def sin (s : Settings) (angle : Number) : Outcome Number :=
  Outcome.guarded .sin [angle] do
    let both ← sinCos s angle
    s.computedAtPlaces fun bits => (both bits).map Prod.fst

def cos (s : Settings) (angle : Number) : Outcome Number :=
  Outcome.guarded .cos [angle] do
    let both ← sinCos s angle
    s.computedAtPlaces fun bits => (both bits).map Prod.snd

/-! ## Tangent and cotangent -/

/-- Whether an angle in degrees is `offset` plus a multiple of a half turn. The difference is taken
with all digits from the highest place down to the lowest. -/
def onHalfTurns (s : Settings) (angle : Number) (offset : Decimal) : Outcome Bool :=
  match s.angleUnit with
  | .radians => pure false
  | .degrees => do
    let x ← angle.finite?
    let highest := max (max x.adjusted offset.adjusted) 0
    let lowest := min (min x.exponent offset.exponent) 0
    let exact : Format := ⟨(highest + 2 - lowest).toNat, .halfEven⟩
    let difference ← Outcome.ofSignal (Number.subtract exact (.finite x) (.finite offset))
    return (← moduloIn s.format difference halfTurn).isZero

def tan (s : Settings) (angle : Number) : Outcome Number :=
  Outcome.guarded .tan [angle] do
    if ← onHalfTurns s angle (Decimal.ofInt 90) then Outcome.fail (.tangentPole angle)
    else
      let both ← sinCos s angle
      s.computedAtPlaces fun bits => do
        let (sine, cosine) ← both bits
        Interval.div bits sine cosine

def cot (s : Settings) (angle : Number) : Outcome Number :=
  Outcome.guarded .cot [angle] do
    if (← onHalfTurns s angle Decimal.zero) || angle.isZero then
      Outcome.fail (.cotangentPole angle)
    else
      let both ← sinCos s angle
      s.computedAtPlaces fun bits => do
        let (sine, cosine) ← both bits
        Interval.div bits cosine sine

/-! ## Inverses -/

/-- An angle in radians, enclosed, as a result in the unit of the settings. -/
def angleResult (s : Settings) (radians : Enclosure) : Outcome Number :=
  match s.angleUnit with
  | .radians => s.computed radians
  | .degrees => s.computed fun bits => do
      Interval.div bits (Interval.mulInt bits (← radians bits) 180) (Interval.pi bits)

/-- Refuses an argument that does not lie between minus one and one. -/
def checkUnit (function : UnitFunction) (x : Number) : Outcome Unit := do
  let inside ←
    if ← Outcome.ofSignal ((Number.ofInt (-1)).isAtMost x) then
      Outcome.ofSignal (x.isAtMost Number.one)
    else pure false
  if !inside then Outcome.fail (.outsideUnit function x)

def arcsin (s : Settings) (x : Number) : Outcome Number :=
  Outcome.guarded .arcsin [x] do
    checkUnit .arcsine x
    let x ← x.finite?
    angleResult s fun bits => Interval.arcsin bits (Interval.ofDecimal bits x)

def arccos (s : Settings) (x : Number) : Outcome Number :=
  Outcome.guarded .arccos [x] do
    checkUnit .arccosine x
    let x ← x.finite?
    angleResult s fun bits => Interval.arccos bits (Interval.ofDecimal bits x)

def arctan (s : Settings) (x : Number) : Outcome Number :=
  Outcome.guarded .arctan [x] do
    let x ← x.finite?
    angleResult s fun bits => Interval.arctan bits (Interval.ofDecimal bits x)

def arccot (s : Settings) (x : Number) : Outcome Number :=
  Outcome.guarded .arccot [x] do
    let x ← x.finite?
    angleResult s fun bits => Interval.arccot bits (Interval.ofDecimal bits x)

/-- The angle from the positive `x` axis to the point `(x, y)`. -/
def direction (s : Settings) (y x : Number) : Outcome Number :=
  Outcome.guarded .direction [y, x] do
    if x.isZero && y.isZero then Outcome.fail .directionOfOrigin
    else
      let y ← y.finite?
      let x ← x.finite?
      angleResult s fun bits =>
        Interval.direction bits (Interval.ofDecimal bits y) (Interval.ofDecimal bits x)

end Functions

end DecimalCalc
