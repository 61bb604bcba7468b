import DecimalCalc.Expression.ReversePolish
import DecimalCalc.Expression.TokenList
import DecimalCalc.Machine
import DecimalCalc.Variables

/-!
# Evaluating expressions

An expression is cut into tokens, its constants and variables are replaced by numbers, and the tokens
are brought into reverse Polish order and run. A variable that is bound to an expression is evaluated
each time it is met, and draws anew each time; `resolving` is the chain of the variables whose
expressions are being evaluated, the outermost first.
-/

set_option autoImplicit false

namespace DecimalCalc

/-- Settings together with the symbols that expressions may use, and the generator that they draw
from. -/
structure Calculator where
  settings : Settings := .initial
  registry : Registry := Registry.builtin
  generator : Generator := default

namespace Calculator

instance : Inhabited Calculator := ⟨{}⟩

def lexicon (c : Calculator) : Lexicon := { registry := c.registry }

/-- The tokens of an expression. -/
def tokenize (c : Calculator) (text : List Char) : Except Failure (List Token) :=
  c.lexicon.tokenize text

/-! ## Substitution -/

/-- The value of a constant by its name. -/
def constantValue (c : Calculator) (token : Token) : Except Failure Number :=
  match Constant.names.lookup token.text with
  | some constant => (constant.value c.settings).mapError .ofOperation
  | none => .error (.fault (.unexpectedToken token))

/-- Replaces one token by its number, if it is a constant or refers to a variable. -/
def substituteToken (c : Calculator) (valueOf : List Char → Drawing Failure Number)
    (token : Token) : Drawing Failure Token :=
  match token.kind with
  | .constant => .still ((c.constantValue token).map fun x => Token.number x.plain)
  | .reference => (valueOf token.text).map fun x => Token.number x.plain
  | _ => .ok token

/-- Replaces constants and references by numbers in plain notation, from left to right. -/
def substitute (c : Calculator) (valueOf : List Char → Drawing Failure Number)
    (tokens : List Token) : Drawing Failure (List Token) :=
  tokens.mapM (c.substituteToken valueOf)

/-- The tokens of an expression in reverse Polish order, where `valueOf` gives the variables. -/
def reversePolishWith (c : Calculator) (valueOf : List Char → Drawing Failure Number)
    (text : List Char) : Drawing Failure (List Token) :=
  (Drawing.still (c.tokenize text)).bind fun tokens =>
    (c.substitute valueOf tokens).bind fun replaced =>
      .still ((ReversePolish.reorder c.registry replaced).mapError .fault)

/-- The value of an expression, where `valueOf` gives the variables. A blank expression is zero. -/
def evaluateWith (c : Calculator) (valueOf : List Char → Drawing Failure Number)
    (text : List Char) : Drawing Failure Scalar :=
  if text.all Text.isBlank then .ok ⟨.finite .zero, none⟩
  else (c.reversePolishWith valueOf text).bind (Machine.evaluate c.registry c.settings)

/-! ## Variables -/

/-- The value of a variable. The chain `resolving` holds different names of expressions, so that
`depth`, their number less the length of the chain, never runs out before a name is met again. -/
def valueOf (c : Calculator) (vars : Variables) :
    Nat → List (List Char) → List Char → Drawing Failure Number
  | depth, resolving, name =>
    match vars.find? name with
    | none => .error (.fault (.undefinedVariable name))
    | some (.number x) => .ok x
    | some (.expression text) =>
      if name ∈ resolving then .error (.fault (.cyclicReference (resolving ++ [name])))
      else
        match depth with
        | 0 => .error (.fault (.cyclicReference (resolving ++ [name])))
        | depth + 1 =>
          (c.evaluateWith (valueOf c vars depth (resolving ++ [name])) text).map Scalar.number

/-- The value of a variable that an evaluated expression refers to. -/
def resolve (c : Calculator) (vars : Variables) (name : List Char) : Drawing Failure Number :=
  c.valueOf vars vars.expressions.length [] name

/-- The tokens of an expression in reverse Polish order. -/
def reversePolish (c : Calculator) (text : List Char) (vars : Variables := {}) :
    Except Failure (List Token) :=
  (c.reversePolishWith (c.resolve vars) text).outcome c.generator

/-- The computation of the value of an expression. -/
def compute (c : Calculator) (text : List Char) (vars : Variables := {}) :
    Drawing Failure Scalar :=
  c.evaluateWith (c.resolve vars) text

/-- The value of an expression. -/
def evaluate (c : Calculator) (text : List Char) (vars : Variables := {}) :
    Except Failure Scalar :=
  (c.compute text vars).outcome c.generator

/-- Evaluates an expression where a fault just means that it has no value. -/
def attempt (c : Calculator) (text : List Char) (vars : Variables := {}) :
    Except Failure (Except Fault Scalar) :=
  match c.evaluate text vars with
  | .ok x => .ok (.ok x)
  | .error (.fault cause) => .ok (.error cause)
  | .error failure => .error failure

/-- The text that a scalar is shown as under the settings. -/
def display (c : Calculator) (x : Scalar) (grouping : Bool := false) :
    Except Failure (List Char) :=
  (x.display c.settings.locale grouping).mapError .signal

/-- The text that the value of an expression is shown as. -/
def render (c : Calculator) (text : List Char) (vars : Variables := {})
    (grouping : Bool := false) : Except Failure (List Char) := do
  c.display (← c.evaluate text vars) grouping

end Calculator

end DecimalCalc
