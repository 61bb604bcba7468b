import DecimalCalc.Expression.Builtin
import DecimalCalc.Expression.Lexeme

/-!
# From lexemes to tokens

A sign where an operand is expected belongs to the number right after it, or else is the unary minus;
a bar opens or closes the absolute value, depending on what stands before it; and a product is implied
between certain neighbours.
-/

set_option autoImplicit false

namespace DecimalCalc

/-- The symbols and the constants that a line may use. -/
structure Lexicon where
  registry : Registry := Registry.builtin
  constants : List (List Char) := Constant.names.map Prod.fst

namespace Lexicon

instance : Inhabited Lexicon := ⟨{}⟩

/-- All texts that are read as symbols. -/
def symbols (lexicon : Lexicon) : List (List Char) :=
  lexicon.registry.symbols ++ lexicon.constants

end Lexicon

namespace Token

/-! ## Operands -/

/-- Whether a token that was written last leaves an operand to be expected. -/
def expectsOperand : Option Token → Bool
  | none => true
  | some token =>
    match token.kind with
    | .operator => token.text != factorialSymbol
    | .function | .leftParen | .separator => true
    | _ => false

/-- Whether an operand ends with a token. -/
def endsOperand (token : Token) : Bool :=
  match token.kind with
  | .number | .constant | .reference | .rightParen => true
  | .operator => token.text == factorialSymbol
  | _ => false

/-- Whether an operand starts with a token other than a number. -/
def startsOperand (token : Token) : Bool :=
  match token.kind with
  | .constant | .reference | .leftParen | .function => true
  | _ => false

/-! ## Implied products -/

/-- Whether a product is implied between two neighbours. Two numbers stay apart; only after a closing
parenthesis does a number follow as a factor. -/
def impliesProduct (left right : Token) : Bool :=
  left.endsOperand &&
    if right.kind = .number then left.kind == .rightParen else right.startsOperand

/-- The tokens after `left`, with the implied products. -/
def productsAfter (left : Token) : List Token → List Token
  | [] => []
  | right :: rest =>
    let tail := right :: productsAfter right rest
    if impliesProduct left right then operator productSymbol :: tail else tail

/-- Writes out the implied products. -/
def insertProducts : List Token → List Token
  | [] => []
  | first :: rest => first :: productsAfter first rest

/-! ## Lexemes to tokens -/

/-- The token of a symbol that is neither a constant nor a sign. -/
def ofSymbol (lexicon : Lexicon) (last : Option Token) (symbol : List Char) (position : Nat) :
    Except Failure Token :=
  if symbol = factorialSymbol then
    if last.any endsOperand then .ok (operator symbol)
    else .error (.fault (.misplacedFactorial position))
  else
    match lexicon.registry.lookup symbol with
    | .ok entry => .ok (if entry.isFunction then function symbol else operator symbol)
    | .error fault => .error (.fault fault)

/-- The tokens of the lexemes that are left, where `last` was the last token before them and `bars`
absolute values are open. -/
def ofLexemesAfter (lexicon : Lexicon) :
    Option Token → Nat → List Lexeme → Except Failure (List Token)
  | _, _, [] => .ok []
  | last, bars, ⟨kind, text, position⟩ :: rest =>
    match kind with
    | .space => ofLexemesAfter lexicon last bars rest
    | .number =>
      let token := number (NumberLiteral.canonical text)
      (ofLexemesAfter lexicon (some token) bars rest).map (token :: ·)
    | .word =>
      (ofLexemesAfter lexicon (some (reference text)) bars rest).map (reference text :: ·)
    | .leftParen => (ofLexemesAfter lexicon (some leftParen) bars rest).map (leftParen :: ·)
    | .rightParen => (ofLexemesAfter lexicon (some rightParen) bars rest).map (rightParen :: ·)
    | .separator => (ofLexemesAfter lexicon (some separator) bars rest).map (separator :: ·)
    | .bar =>
      if bars ≠ 0 ∧ !expectsOperand last then
        (ofLexemesAfter lexicon (some rightParen) (bars - 1) rest).map (rightParen :: ·)
      else
        (ofLexemesAfter lexicon (some leftParen) (bars + 1) rest).map fun tokens =>
          function absoluteSymbol :: leftParen :: tokens
    | .symbol =>
      if lexicon.constants.contains text then
        (ofLexemesAfter lexicon (some (constant text)) bars rest).map (constant text :: ·)
      else if (text = ['+'] ∨ text = ['-']) ∧ expectsOperand last then
        let sign := if text = ['-'] then ['-'] else []
        match rest with
        | ⟨.number, digits, _⟩ :: rest =>
          let token := number (sign ++ NumberLiteral.canonical digits)
          (ofLexemesAfter lexicon (some token) bars rest).map (token :: ·)
        | rest =>
          if text = ['-'] then
            (ofLexemesAfter lexicon (some (function negateSymbol)) bars rest).map
              (function negateSymbol :: ·)
          else ofLexemesAfter lexicon last bars rest
      else do
        let token ← ofSymbol lexicon last text position
        return token :: (← ofLexemesAfter lexicon (some token) bars rest)

/-- The tokens of a row of lexemes, before products are written out. -/
def ofLexemes (lexicon : Lexicon) (lexemes : List Lexeme) : Except Failure (List Token) :=
  ofLexemesAfter lexicon none 0 lexemes

end Token

namespace Lexicon

/-- The tokens of a line. -/
def tokenize (lexicon : Lexicon) (line : List Char) : Except Failure (List Token) := do
  let lexemes ← Lexeme.lex lexicon.symbols line
  return Token.insertProducts (← Token.ofLexemes lexicon lexemes)

end Lexicon

end DecimalCalc
