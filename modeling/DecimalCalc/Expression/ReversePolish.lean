import DecimalCalc.Expression.Registry

/-!
# Reverse Polish order

Reorders the tokens of an expression so that each operator and function comes after its operands.
Numbers are written out at once; functions, operators between operands and opening parentheses wait
on a stack, the innermost on top. The order is settled by parentheses, precedence and associativity
alone: nothing is computed, and operands are not counted.
-/

set_option autoImplicit false

namespace DecimalCalc

namespace ReversePolish

/-- Whether an operator that waits is written out before a later one may wait above it. -/
def outranks (waiting later : Entry) : Bool :=
  later.precedence < waiting.precedence ||
    (waiting.precedence == later.precedence && !later.isRightAssociative)

/-- Whether a waiting token is written out before an operator may wait above it. Functions always
are. -/
def yieldsTo (registry : Registry) (later : Entry) (waiting : Token) : Bool :=
  match waiting.kind with
  | .function => true
  | .operator => (registry.find? waiting.text).any (outranks · later)
  | _ => false

/-- The tokens that wait above the innermost open parenthesis. -/
def aboveParen (stack : List Token) : List Token := stack.takeWhile (·.kind != .leftParen)

/-- The stack from the innermost open parenthesis on. -/
def fromParen (stack : List Token) : List Token := stack.dropWhile (·.kind != .leftParen)

/-- What a token writes out, and the stack it leaves. A closing parenthesis also ends the function
that its partner opened the arguments of. -/
def step (registry : Registry) (stack : List Token) (token : Token) :
    Except Fault (List Token × List Token) :=
  match token.kind with
  | .number => .ok ([token], stack)
  | .function | .leftParen => .ok ([], token :: stack)
  | .operator => do
    let entry ← registry.lookup token.text
    if entry.isAfter then
      return ([token], stack)
    else
      return (stack.takeWhile (yieldsTo registry entry),
        token :: stack.dropWhile (yieldsTo registry entry))
  | .rightParen =>
    match fromParen stack with
    | [] => .error (.mismatchedParentheses token)
    | [_] => .ok (aboveParen stack, [])
    | _ :: below :: rest =>
      if below.kind = .function then .ok (aboveParen stack ++ [below], rest)
      else .ok (aboveParen stack, below :: rest)
  | .separator =>
    match fromParen stack with
    | [] => .error (.misplacedSeparator token)
    | stack' => .ok (aboveParen stack, stack')
  | _ => .error (.unexpectedToken token)

/-- Writes out what still waits at the end, where no parenthesis may be open. -/
def finish (stack : List Token) : Except Fault (List Token) :=
  match stack.find? (·.kind == .leftParen) with
  | some token => .error (.mismatchedParentheses token)
  | none => .ok stack

/-- Reorders the tokens that are left, while some others wait. -/
def reorderFrom (registry : Registry) : List Token → List Token → Except Fault (List Token)
  | stack, [] => finish stack
  | stack, token :: rest => do
    let (written, stack) ← step registry stack token
    return written ++ (← reorderFrom registry stack rest)

/-- Reorders the tokens of an expression. -/
def reorder (registry : Registry) (tokens : List Token) : Except Fault (List Token) :=
  reorderFrom registry [] tokens

end ReversePolish

end DecimalCalc
