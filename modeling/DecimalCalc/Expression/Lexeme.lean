import DecimalCalc.Expression.NumberLiteral
import DecimalCalc.Fault
import DecimalCalc.Text.Blank
import DecimalCalc.Text.Letter

/-!
# Lexemes

A line is cut into lexemes from left to right, the longest first. At each position the kinds are
tried in a fixed order: a number, a symbol, a run of letters, parentheses, a separator, a bar, a run
of white space. So the symbols take precedence over the names of variables, and the longest symbol
over the shorter ones.
-/

set_option autoImplicit false

namespace DecimalCalc

inductive LexemeKind
  | number
  | symbol
  | word
  | leftParen
  | rightParen
  | separator
  | bar
  | space
  deriving DecidableEq, Inhabited

/-- A piece of a line, and the number of characters before it. -/
structure Lexeme where
  kind : LexemeKind
  text : List Char
  position : Nat
  deriving DecidableEq, Inhabited

namespace Lexeme

/-- The longer of two symbols, where the first may be missing. -/
def longer : Option (List Char) → List Char → List Char
  | none, symbol => symbol
  | some best, symbol => if best.length < symbol.length then symbol else best

/-- The longest of some symbols that a text starts with. -/
def longestSymbol? (symbols : List (List Char)) (text : List Char) : Option (List Char) :=
  symbols.foldl (fun best symbol => if symbol.isPrefixOf text then some (longer best symbol) else best)
    none

/-- Kind and length of the symbol at the start of a text. Without any symbols the empty text is taken
for one. -/
def symbolAt? (symbols : List (List Char)) (text : List Char) : Option (LexemeKind × Nat) :=
  if symbols.isEmpty then some (.symbol, 0)
  else (longestSymbol? symbols text).map fun symbol => (.symbol, symbol.length)

/-- Kind and length of the lexeme at the start of a text that starts with neither a number nor a
symbol. -/
def plainAt? : List Char → Option (LexemeKind × Nat)
  | [] => none
  | c :: rest =>
    if Text.isLetter c then some (.word, 1 + (rest.takeWhile Text.isLetter).length)
    else if c = '(' then some (.leftParen, 1)
    else if c = ')' then some (.rightParen, 1)
    else if c = ';' ∨ c = ',' then some (.separator, 1)
    else if c = '|' then some (.bar, 1)
    else if Text.isWhiteSpace c then
      some (.space, 1 + (rest.takeWhile Text.isWhiteSpace).length)
    else none

/-- Kind and length of the lexeme at the start of a text. -/
def at? (symbols : List (List Char)) (text : List Char) : Option (LexemeKind × Nat) :=
  if NumberLiteral.length text ≠ 0 then some (.number, NumberLiteral.length text)
  else (symbolAt? symbols text).orElse fun _ => plainAt? text

/-- The lexemes of what is left of a line at a position, when `skip` more characters belong to the
lexeme before. -/
def lexFrom (symbols : List (List Char)) : Nat → Nat → List Char → Except Failure (List Lexeme)
  | _, _, [] => .ok []
  | position, skip + 1, _ :: rest => lexFrom symbols (position + 1) skip rest
  | position, 0, c :: rest =>
    match at? symbols (c :: rest) with
    | none => .error (.fault (.unreadable (Text.strip (c :: rest)) position))
    | some (_, 0) => .error (.stalled position)
    | some (kind, more + 1) => do
      let others ← lexFrom symbols (position + 1) more rest
      return ⟨kind, (c :: rest).take (more + 1), position⟩ :: others

/-- The lexemes of a line. -/
def lex (symbols : List (List Char)) (line : List Char) : Except Failure (List Lexeme) :=
  lexFrom symbols 0 0 line

end Lexeme

end DecimalCalc
