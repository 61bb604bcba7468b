import DecimalCalc.Functions.Angle
import DecimalCalc.Value

/-!
# Coordinates

The conversions between cartesian and polar coordinates. Angles are in the unit of the settings.
-/

set_option autoImplicit false

namespace DecimalCalc

namespace Functions

/-- The cartesian coordinates `(x, y)` of the point at distance `radius` in the direction `angle`. -/
def toCartesian (s : Settings) (radius angle : Number) : Outcome Coordinate := do
  if ← Outcome.ofSignal (radius.isBelow Number.zero) then Outcome.fail .negativeRadius
  else
    let x ← multiply s radius (← cos s angle)
    let y ← multiply s radius (← sin s angle)
    pure ⟨x, y, .cartesian⟩

/-- The distance of a point from the origin. Squares, sum and root are rounded with guard digits
first. -/
def distance (s : Settings) (x y : Number) : Except Signal Number := do
  let wide := s.widened guardDigits
  let total ← Number.add wide (← Number.multiply wide x x) (← Number.multiply wide y y)
  Number.plus s.format (← Number.squareRoot wide total)

/-- The polar coordinates `(r, θ)` of the point `(x, y)`. -/
def toPolar (s : Settings) (x y : Number) : Outcome Coordinate := do
  if x.isZero && y.isZero then Outcome.fail .polarOrigin
  else
    let radius ← Outcome.ofSignal (distance s x y)
    let angle ← direction s y x
    pure ⟨radius, angle, .polar⟩

end Functions

end DecimalCalc
