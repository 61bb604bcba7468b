import DecimalCalc.Display
import DecimalCalc.Settings

/-!
# Values

What lies on the operand stack: numbers, and the coordinates that the conversions between cartesian
and polar coordinates make. A coordinate counts as its first component wherever a number is asked
for.
-/

set_option autoImplicit false

namespace DecimalCalc

/-- What the two components of a coordinate are. -/
inductive CoordinateKind
  | cartesian
  | polar
  deriving DecidableEq, Inhabited

namespace CoordinateKind

def ofName? (name : List Char) : Option CoordinateKind :=
  if name = "cartesian".toList then some .cartesian
  else if name = "polar".toList then some .polar
  else none

/-- The names of the two components. -/
def labels : CoordinateKind → Char × Char
  | .cartesian => ('x', 'y')
  | .polar => ('r', 'θ')

end CoordinateKind

/-- A point of the plane in one of the two kinds of coordinates. -/
structure Coordinate where
  first : Number
  second : Number
  kind : CoordinateKind
  deriving DecidableEq, Inhabited

/-- A number as an answer. Its text, if it has one, is shown in place of the number. -/
structure Scalar where
  number : Number
  text : Option (List Char) := none
  deriving DecidableEq, Inhabited

/-- An operand, or the result of an operation. -/
inductive Value
  | number (number : Number)
  | coordinate (coordinate : Coordinate)
  deriving DecidableEq, Inhabited

namespace Scalar

/-- The text that a scalar is shown as. -/
def display (locale : List Char) (grouping : Bool) (x : Scalar) : Except Signal (List Char) :=
  match x.text with
  | some text => .ok text
  | none => x.number.display locale grouping

end Scalar

namespace Coordinate

/-- The text that a coordinate is shown as: both components with their names. -/
def display (locale : List Char) (grouping : Bool) (c : Coordinate) :
    Except Signal (List Char) := do
  let (first, second) := c.kind.labels
  return [first, '='] ++ (← c.first.display locale grouping) ++ [';', ' ', second, '='] ++
    (← c.second.display locale grouping)

/-- The scalar that stands for a coordinate: its first component, shown as the whole coordinate. -/
def toScalar (locale : List Char) (c : Coordinate) : Except Signal Scalar := do
  return ⟨c.first, some (← c.display locale false)⟩

end Coordinate

namespace Value

/-- The number that an operand stands for. -/
def operand : Value → Number
  | .number x => x
  | .coordinate c => c.first

/-- The scalar that a value is answered as. -/
def toScalar (locale : List Char) : Value → Except Signal Scalar
  | .number x => .ok ⟨x, none⟩
  | .coordinate c => c.toScalar locale

end Value

end DecimalCalc
