import DecimalCalc.Functions.Coordinates
import DecimalCalc.Functions.Integer
import DecimalCalc.Functions.Special
import DecimalCalc.Number.Literal

/-!
# The catalogue of operations

What each operation takes and does. The two constants are functions of the settings alone. Of all
operations only the random integer draws anything.
-/

set_option autoImplicit false

namespace DecimalCalc

/-- What a symbol does: it takes its operands, the leftmost first, and the settings. -/
abbrev Action := List Number → Settings → Drawing OperationError Value

namespace Functions

/-- A constant as a function of no numbers. Of too many operands it makes nothing. -/
def nullary (f : Settings → Outcome Number) : Action
  | [], s => .still ((f s).map .number)
  | _, _ => .error (.signal .invalidOperation)

/-- A function of one number. Of too many or too few operands it makes nothing. -/
def unary (f : Settings → Number → Outcome Number) : Action
  | [x], s => .still ((f s x).map .number)
  | _, _ => .error (.signal .invalidOperation)

/-- A function of two numbers whose results are made into values. -/
def pair {α : Type} (make : α → Value)
    (f : Settings → Number → Number → Drawing OperationError α) : Action
  | [x, y], s => (f s x y).map make
  | _, _ => .error (.signal .invalidOperation)

/-- A function of two numbers that draws its result. -/
def drawn (f : Settings → Number → Number → Drawing OperationError Number) : Action :=
  pair .number f

/-- A function of two numbers. -/
def binary (f : Settings → Number → Number → Outcome Number) : Action :=
  pair .number fun s x y => .still (f s x y)

/-- A function of two numbers that makes a coordinate. -/
def planar (f : Settings → Number → Number → Outcome Coordinate) : Action :=
  pair .coordinate fun s x y => .still (f s x y)

end Functions

namespace Operation

/-- What an operation does. -/
def action : Operation → Action
  | .add => Functions.binary Functions.add
  | .subtract => Functions.binary Functions.subtract
  | .multiply => Functions.binary Functions.multiply
  | .divide => Functions.binary Functions.divide
  | .modulo => Functions.binary Functions.modulo
  | .power => Functions.binary Functions.power
  | .absolute => Functions.unary Functions.absolute
  | .negate => Functions.unary Functions.negate
  | .factorial => Functions.unary Functions.factorial
  | .permutation => Functions.binary Functions.permutation
  | .combination => Functions.binary Functions.combination
  | .gcd => Functions.binary Functions.gcd
  | .lcm => Functions.binary Functions.lcm
  | .randomInteger => Functions.drawn Functions.randomInteger
  | .squareRoot => Functions.unary Functions.squareRoot
  | .cubeRoot => Functions.unary Functions.cubeRoot
  | .root => Functions.binary Functions.root
  | .naturalLog => Functions.unary Functions.naturalLog
  | .commonLog => Functions.unary Functions.commonLog
  | .binaryLog => Functions.unary Functions.binaryLog
  | .logarithm => Functions.binary Functions.logarithm
  | .sin => Functions.unary Functions.sin
  | .cos => Functions.unary Functions.cos
  | .tan => Functions.unary Functions.tan
  | .cot => Functions.unary Functions.cot
  | .arcsin => Functions.unary Functions.arcsin
  | .arccos => Functions.unary Functions.arccos
  | .arctan => Functions.unary Functions.arctan
  | .arccot => Functions.unary Functions.arccot
  | .direction => Functions.binary Functions.direction
  | .sinh => Functions.unary Functions.sinh
  | .cosh => Functions.unary Functions.cosh
  | .tanh => Functions.unary Functions.tanh
  | .coth => Functions.unary Functions.coth
  | .arsinh => Functions.unary Functions.arsinh
  | .arcosh => Functions.unary Functions.arcosh
  | .artanh => Functions.unary Functions.artanh
  | .arcoth => Functions.unary Functions.arcoth
  | .gamma => Functions.unary Functions.gamma
  | .beta => Functions.binary Functions.beta
  | .toCartesian => Functions.planar Functions.toCartesian
  | .toPolar => Functions.planar Functions.toPolar

end Operation

/-- A constant that an expression may name. -/
inductive Constant
  | pi
  | euler
  deriving DecidableEq

namespace Constant

/-- The names of the constants. -/
def names : List (List Char × Constant) :=
  [("pi".toList, .pi), ("π".toList, .pi), ("e".toList, .euler)]

/-- The value of a constant. -/
def value (constant : Constant) (s : Settings) : Outcome Number :=
  match constant with
  | .pi => Functions.pi s
  | .euler => Functions.euler s

/-- A constant as what a symbol does. -/
def action (constant : Constant) : Action := Functions.nullary constant.value

end Constant

/-- A number literal as a number, rounded to the precision. Underscores do not count. -/
def readLiteral (s : Settings) (text : List Char) : Outcome Number :=
  match Number.read? (text.filter (· ≠ '_')) with
  | none => Outcome.fail (.notANumber text)
  | some x =>
    match Number.plus s.format x with
    | .ok x => .ok x
    | .error _ => Outcome.fail (.notANumber text)

end DecimalCalc
