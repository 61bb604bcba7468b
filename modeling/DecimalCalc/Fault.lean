import DecimalCalc.Expression.Token
import DecimalCalc.Functions.DomainFault

/-!
# Faults and failures

What can be wrong with an expression, and the words in which it is reported. An evaluation may also
fail in two ways that are no report to the user: with a bare arithmetic signal, or because reading the
expression makes no progress.
-/

set_option autoImplicit false

namespace DecimalCalc

/-- What is wrong with an expression, its variables, or the use of a registry. -/
inductive Fault
  | unreadable (rest : List Char) (position : Nat)
  | misplacedFactorial (position : Nat)
  | mismatchedParentheses (token : Token)
  | misplacedSeparator (token : Token)
  | unexpectedToken (token : Token)
  | unknownSymbol (symbol : List Char)
  | tooFewOperands (present needed : Nat)
  | notOneResult (count : Nat)
  | domain (fault : DomainFault)
  | undefinedVariable (name : List Char)
  | cyclicReference (chain : List (List Char))
  | frozenRegistry (symbol : List Char)
  deriving DecidableEq

/-- How an evaluation ends without a result. -/
inductive Failure
  | fault (fault : Fault)
  | signal (signal : Signal)
  /-- At this position the empty text is a lexeme, over and over. -/
  | stalled (position : Nat)
  deriving DecidableEq

namespace Fault

/-- The words of a fault. -/
def message : Fault → List Char
  | .unreadable rest position =>
    "Couldn't lex ".toList ++ Text.quoted rest ++ " at position ".toList ++ numeral position
  | .misplacedFactorial position =>
    "Factorial '!' must follow a number, constant, variable, or closing parenthesis (position ".toList
      ++ numeral position ++ [')']
  | .mismatchedParentheses _ => "Mismatched parentheses".toList
  | .misplacedSeparator _ => "Misplaced separator or mismatched parentheses".toList
  | .unexpectedToken token => "Unexpected token ".toList ++ Text.quoted token.text
  | .unknownSymbol symbol => "Unknown operator or function ".toList ++ Text.quoted symbol
  | .tooFewOperands _ needed =>
    "Less than ".toList ++ numeral needed ++ " element(s) on stack".toList
  | .notOneResult count =>
    "Invalid expression: expected a single result, but found ".toList ++ numeral count
  | .domain fault => fault.message
  | .undefinedVariable name => "Undefined variable ".toList ++ Text.quoted name
  | .cyclicReference chain =>
    "Cyclic variable reference: ".toList ++ " -> ".toList.intercalate chain
  | .frozenRegistry symbol =>
    "Cannot register ".toList ++ Text.quoted symbol ++ " on a frozen registry".toList

end Fault

namespace Failure

/-- The failure that an operation's error leads to. -/
def ofOperation : OperationError → Failure
  | .fault cause => .fault (.domain cause)
  | .signal cause => .signal cause

end Failure

end DecimalCalc
