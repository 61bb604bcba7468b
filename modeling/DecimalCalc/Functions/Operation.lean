import DecimalCalc.Number.Basic

/-!
# The operations

The names of all operations that a symbol may stand for, and what may go wrong with them. Most
operations report an arithmetic signal as a refusal that names the operation and its operands; a few
have no such words, and let the signal through.
-/

set_option autoImplicit false

namespace DecimalCalc

/-- An operation on numbers. -/
inductive Operation
  | add | subtract | multiply | divide | modulo | power | absolute | negate
  | factorial | permutation | combination | gcd | lcm | randomInteger
  | squareRoot | cubeRoot | root
  | naturalLog | commonLog | binaryLog | logarithm
  | sin | cos | tan | cot
  | arcsin | arccos | arctan | arccot | direction
  | sinh | cosh | tanh | coth
  | arsinh | arcosh | artanh | arcoth
  | gamma | beta
  | toCartesian | toPolar
  deriving DecidableEq

namespace Operation

/-- The words of a refusal in front of the first operand, between the operands, and whether the
second operand is named first. -/
def refusalWords? : Operation → Option (String × String × Bool)
  | .add => some ("Cannot add ", " and ", false)
  | .subtract => some ("Cannot subtract ", " from ", true)
  | .multiply => some ("Cannot multiply ", " by ", false)
  | .divide => some ("Cannot divide ", " by ", false)
  | .modulo => some ("Cannot take ", " modulo ", false)
  | .power => some ("Cannot raise ", " to the power ", false)
  | .factorial => some ("Cannot take the factorial of ", "", false)
  | .squareRoot => some ("Cannot take the square root of ", "", false)
  | .cubeRoot => some ("Cannot take the cube root of ", "", false)
  | .root => some ("Cannot take root ", " of ", true)
  | .naturalLog => some ("Cannot take the natural logarithm of ", "", false)
  | .commonLog => some ("Cannot take the common logarithm of ", "", false)
  | .logarithm => some ("Cannot take the logarithm of ", " to base ", false)
  | .sin => some ("Cannot take the sine of ", "", false)
  | .cos => some ("Cannot take the cosine of ", "", false)
  | .tan => some ("Cannot take the tangent of ", "", false)
  | .cot => some ("Cannot take the cotangent of ", "", false)
  | .arcsin => some ("Cannot take the arcsine of ", "", false)
  | .arccos => some ("Cannot take the arccosine of ", "", false)
  | .arctan => some ("Cannot take the arctangent of ", "", false)
  | .arccot => some ("Cannot take the arccotangent of ", "", false)
  | .direction => some ("Cannot take atan2 of ", " and ", false)
  | .sinh => some ("Cannot take sinh of ", "", false)
  | .cosh => some ("Cannot take cosh of ", "", false)
  | .tanh => some ("Cannot take tanh of ", "", false)
  | .coth => some ("Cannot take coth of ", "", false)
  | .arsinh => some ("Cannot take asinh of ", "", false)
  | .arcosh => some ("Cannot take acosh of ", "", false)
  | .artanh => some ("Cannot take atanh of ", "", false)
  | .arcoth => some ("Cannot take acoth of ", "", false)
  | .gamma => some ("Cannot take the gamma function of ", "", false)
  | .beta => some ("Cannot take the beta function of ", " and ", false)
  | _ => none

/-- The refusal of an operation with some operands, if it has words for one. -/
def refusal? (operation : Operation) (operands : List Number) : Option (List Char) :=
  operation.refusalWords?.map fun (before, between, reversed) =>
    let texts := (if reversed then operands.reverse else operands).map Number.scientific
    before.toList ++ between.toList.intercalate texts

end Operation

end DecimalCalc
