import DecimalCalc.Functions.Operation
import DecimalCalc.Text.Quoted

/-!
# Domain faults

Why an operation has no result for its operands, and the words in which that is reported. An
operation ends with such a fault or with a bare arithmetic signal.
-/

set_option autoImplicit false

namespace DecimalCalc

/-- What is asked to be made of integers. -/
inductive IntegerTask
  | factorial
  | permutations
  | combinations
  | gcd
  | lcm
  | randomInteger
  deriving DecidableEq

/-- A function with poles at the integers below one. -/
inductive PoleFunction
  | gamma
  | beta
  deriving DecidableEq

/-- An operand of a logarithm. -/
inductive LogOperand
  | number
  | base
  deriving DecidableEq

/-- A function whose argument lies between minus one and one. -/
inductive UnitFunction
  | arcsine
  | arccosine
  deriving DecidableEq

/-- Why an operation has no result. -/
inductive DomainFault
  | notANumber (text : List Char)
  | refused (operation : Operation) (operands : List Number)
  | divisionByZero
  | moduloZero
  | zeroToNegativePower
  | notInteger (task : IntegerTask) (operand : Number)
  | factorialOfNegative
  | negativeCount (task : IntegerTask)
  | selectionTooLarge (task : IntegerTask)
  | emptyRange (low high : Int)
  | rootOfNegative
  | degreeNotPositive
  | evenRootOfNegative
  | logOfNonPositive (operand : LogOperand) (number : Number)
  | logBaseOne
  | tangentPole (angle : Number)
  | cotangentPole (angle : Number)
  | outsideUnit (function : UnitFunction) (number : Number)
  | directionOfOrigin
  | cothOfZero
  | arcoshBelowOne
  | artanhOutsideUnit
  | arcothInsideUnit
  | pole (function : PoleFunction) (number : Number)
  | negativeRadius
  | polarOrigin
  deriving DecidableEq

/-- How an operation fails. -/
inductive OperationError
  | fault (fault : DomainFault)
  | signal (signal : Signal)
  deriving DecidableEq

namespace IntegerTask

def name : IntegerTask → String
  | .factorial => "Factorial"
  | .permutations => "Permutations"
  | .combinations => "Combinations"
  | .gcd => "GCD"
  | .lcm => "LCM"
  | .randomInteger => "RandInt"

end IntegerTask

namespace DomainFault

/-- The words of a fault. -/
def message : DomainFault → List Char
  | .notANumber text => "Cannot convert ".toList ++ Text.quoted text
  | .refused operation operands => (operation.refusal? operands).getD []
  | .divisionByZero => "Division by zero".toList
  | .moduloZero => "Cannot perform modulo operation with divisor zero".toList
  | .zeroToNegativePower => "Cannot raise zero to a negative power".toList
  | .notInteger task operand =>
    task.name.toList ++ " requires integer values, not ".toList ++ operand.scientific
  | .factorialOfNegative => "Factorial is undefined for negative numbers".toList
  | .negativeCount task => task.name.toList ++ " requires non-negative values".toList
  | .selectionTooLarge task =>
    "Cannot calculate ".toList ++ task.name.toList.map Char.toLower ++
      ": k cannot be greater than n".toList
  | .emptyRange low high =>
    "RandInt needs min <= max, got ".toList ++ signedNumeral low ++ " and ".toList ++
      signedNumeral high
  | .rootOfNegative => "Cannot take the square root of a negative number".toList
  | .degreeNotPositive => "Cannot calculate nth root with n <= 0".toList
  | .evenRootOfNegative => "Even or fractional root of a negative number".toList
  | .logOfNonPositive operand number =>
    (match operand with
      | .number => "Logarithm"
      | .base => "Logarithm base").toList ++
      " is only defined for positive numbers, not ".toList ++ number.scientific
  | .logBaseOne => "Logarithm base cannot be 1".toList
  | .tangentPole angle => "Tangent is undefined at ".toList ++ angle.scientific
  | .cotangentPole angle => "Cotangent is undefined at ".toList ++ angle.scientific
  | .outsideUnit function number =>
    (match function with
      | .arcsine => "Arcsine"
      | .arccosine => "Arccosine").toList ++
      " is only defined on [-1, 1], not ".toList ++ number.scientific
  | .directionOfOrigin => "atan2 is undefined at the origin".toList
  | .cothOfZero => "Hyperbolic cotangent is undefined at 0".toList
  | .arcoshBelowOne => "acosh is only defined for numbers >= 1".toList
  | .artanhOutsideUnit => "atanh is only defined on (-1, 1)".toList
  | .arcothInsideUnit => "acoth is only defined outside [-1, 1]".toList
  | .pole function number =>
    (match function with
      | .gamma => "Gamma"
      | .beta => "Beta").toList ++ " has a pole at ".toList ++ number.scientific
  | .negativeRadius => "r cannot be less than zero".toList
  | .polarOrigin => "The origin has no polar angle".toList

end DomainFault

/-- What an operation answers. -/
abbrev Outcome (α : Type) := Except OperationError α

namespace Outcome

/-- Ends an operation with a fault. -/
def fail {α : Type} (fault : DomainFault) : Outcome α := .error (.fault fault)

/-- Takes over an arithmetic result. -/
def ofSignal {α : Type} (result : Except Signal α) : Outcome α := result.mapError .signal

/-- Reports a bare signal as the refusal of an operation, if the operation has words for it. -/
def guarded {α : Type} (operation : Operation) (operands : List Number) : Outcome α → Outcome α
  | .error (.signal signal) =>
    if operation.refusalWords?.isSome then .error (.fault (.refused operation operands))
    else .error (.signal signal)
  | result => result

end Outcome

end DecimalCalc
