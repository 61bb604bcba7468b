/-!
# Tokens

The pieces that an expression is made of once signs, bars and implied products are settled. The kind
of a token decides how it is treated; its text names the symbol, the variable or the number.
-/

set_option autoImplicit false

namespace DecimalCalc

inductive TokenKind
  | number
  | operator
  | function
  | leftParen
  | rightParen
  | separator
  | reference
  | constant
  | string
  deriving DecidableEq, Inhabited

structure Token where
  kind : TokenKind
  text : List Char
  deriving DecidableEq, Inhabited

namespace Token

def number (text : List Char) : Token := ⟨.number, text⟩

def operator (symbol : List Char) : Token := ⟨.operator, symbol⟩

def function (symbol : List Char) : Token := ⟨.function, symbol⟩

/-- The token of a variable's name. -/
def reference (name : List Char) : Token := ⟨.reference, name⟩

def constant (name : List Char) : Token := ⟨.constant, name⟩

def leftParen : Token := ⟨.leftParen, ['(']⟩

def rightParen : Token := ⟨.rightParen, [')']⟩

/-- The separator of arguments, which may be written with a comma as well. -/
def separator : Token := ⟨.separator, [';']⟩

end Token

end DecimalCalc
