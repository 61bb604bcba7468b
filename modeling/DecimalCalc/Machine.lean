import DecimalCalc.Expression.Registry

/-!
# The stack machine

Runs tokens in reverse Polish order on a stack of values: a number is laid on the stack, and an
operator or function replaces its operands by its result. Operations that draw do so in the order of
the tokens.
-/

set_option autoImplicit false

namespace DecimalCalc

namespace Machine

/-- Applies an entry to the topmost values, of which the last laid down is the rightmost operand. -/
def apply (s : Settings) (entry : Entry) (stack : List Value) : Drawing Failure (List Value) :=
  if stack.length < entry.arity then
    .error (.fault (.tooFewOperands stack.length entry.arity))
  else
    ((entry.action ((stack.take entry.arity).reverse.map Value.operand) s).mapError
      Failure.ofOperation).map (· :: stack.drop entry.arity)

/-- The stack after a token. -/
def step (registry : Registry) (s : Settings) (stack : List Value) (token : Token) :
    Drawing Failure (List Value) :=
  match token.kind with
  | .number =>
    match readLiteral s token.text with
    | .ok x => .ok (.number x :: stack)
    | .error cause => .error (.ofOperation cause)
  | .operator | .function =>
    match registry.lookup token.text with
    | .ok entry => apply s entry stack
    | .error cause => .error (.fault cause)
  | _ => .error (.fault (.unexpectedToken token))

/-- The stack after some tokens. -/
def run (registry : Registry) (s : Settings) (stack : List Value) (tokens : List Token) :
    Drawing Failure (List Value) :=
  tokens.foldlM (step registry s) stack

/-- The answer that a stack holds: its value, if there is only one. A coordinate is answered as its
first component, which is shown as the whole coordinate. -/
def answer (s : Settings) : List Value → Except Failure Scalar
  | [value] => (value.toScalar s.locale).mapError .signal
  | stack => .error (.fault (.notOneResult stack.length))

/-- The single value that tokens compute. -/
def evaluate (registry : Registry) (s : Settings) (tokens : List Token) : Drawing Failure Scalar :=
  (run registry s [] tokens).bind fun stack => .still (answer s stack)

end Machine

end DecimalCalc
