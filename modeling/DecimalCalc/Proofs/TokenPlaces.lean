import DecimalCalc.Proofs.ReferenceGraph

/-!
# Where the tokens of a line stand

What a token of a line looks like, and which tokens it may follow (`Token.Placed`). A number has the
one text that its literal is rewritten to. It has a sign where an operand is expected, and only
there, for the operators `+` and `-` stand everywhere else; a factorial stands where an operand has
ended; and no symbol starts the name of a variable. The rules hold for the tokens in a row, each
after the one before it, and the products that are written out between them obey them too
(`Lexicon.tokenize_placed`).
-/

set_option autoImplicit false

namespace DecimalCalc

/-! ## The texts of numbers -/

namespace NumberLiteral

/-- **Numbers as they are written in tokens**: digits, which a point and further digits may follow.
-/
def canonicalForm : Language Char :=
  Text.run Text.isDigit + Text.run Text.isDigit * ({['.']} * Text.run Text.isDigit)

/-- The same with a minus sign or none. -/
def signedForm : Language Char := (1 + {['-']}) * canonicalForm

theorem point_mem_form {whole digits : List Char} (hwhole : whole ∈ Text.run Text.isDigit)
    (hdigits : digits ∈ Text.run Text.isDigit) : whole ++ '.' :: digits ∈ canonicalForm :=
  .inr (Language.append_mem_mul hwhole (Language.append_mem_mul (a := ['.']) rfl hdigits))

theorem canonical_mem_form {w : List Char} (h : w ∈ grammar) : canonical w ∈ canonicalForm := by
  obtain ⟨whole, hwhole, heq | ⟨digits, hdigits, heq⟩⟩ := canonical_cases h
  · rw [heq]
    exact .inl hwhole
  · rw [heq]
    exact point_mem_form hwhole hdigits

theorem unsigned_mem_form {w : List Char} (h : w ∈ canonicalForm) : w ∈ signedForm :=
  Language.append_mem_mul (a := []) (Or.inl rfl) h

theorem negative_mem_form {w : List Char} (h : w ∈ canonicalForm) : '-' :: w ∈ signedForm :=
  Language.append_mem_mul (a := ['-']) (Or.inr rfl) h

/-- A number without a sign begins with a digit. -/
theorem head?_canonicalForm {w : List Char} (h : w ∈ canonicalForm) :
    ∀ c ∈ w.head?, Text.isDigit c = true := by
  have hrun : ∀ {digits : List Char}, digits ∈ Text.run Text.isDigit → ∀ (x : List Char),
      ∀ c ∈ (digits ++ x).head?, Text.isDigit c = true := by
    intro digits hdigits x c hc
    cases digits with
    | nil => exact absurd rfl hdigits.1
    | cons d digits =>
        obtain rfl := Option.some.inj hc
        exact hdigits.2 d List.mem_cons_self
  rcases h with hwhole | ⟨whole, hwhole, tail, _, rfl⟩
  · simpa using hrun hwhole []
  · exact hrun hwhole tail

end NumberLiteral

/-! ## Names -/

/-- No symbol starts a word. -/
theorem Lexeme.Alone.startsNone {symbols : List (List Char)} {w : List Char}
    (h : Alone symbols .word w) : ∀ s ∈ symbols, ¬s <+: w := by
  cases h with
  | next _ read =>
      cases read with
      | next none _ => exact none

namespace Token

variable {lexicon : Lexicon} {last : Option Token} {t : Token} {tokens : List Token}

/-! ## Places -/

/-- **Where an operand is expected**: at first, after an opening parenthesis, a separator or a
function, and after an operator that is no factorial. -/
def BeforeOperand : Option Token → Prop
  | none => True
  | some t => t.kind = .leftParen ∨ t.kind = .separator ∨ t.kind = .function ∨
      t.kind = .operator ∧ t.text ≠ ['!']

/-- **Where an operand has ended**: after a number, a constant, a variable, a closing parenthesis or
a factorial. -/
def AfterOperand : Option Token → Prop
  | none => False
  | some t => t.kind = .number ∨ t.kind = .constant ∨ t.kind = .reference ∨ t.kind = .rightParen ∨
      t.kind = .operator ∧ t.text = ['!']

theorem expectsOperand_iff : expectsOperand last = true ↔ BeforeOperand last := by
  cases last with
  | none => simp [expectsOperand, BeforeOperand]
  | some t => cases hkind : t.kind <;> simp [expectsOperand, BeforeOperand, hkind, factorialSymbol]

theorem any_endsOperand_iff : last.any endsOperand = true ↔ AfterOperand last := by
  cases last with
  | none => simp [AfterOperand]
  | some t => cases hkind : t.kind <;> simp [endsOperand, AfterOperand, hkind, factorialSymbol]

/-- **A token in its place**, after the one before it if there is one. -/
def Placed (lexicon : Lexicon) (last : Option Token) (t : Token) : Prop :=
  match t.kind with
  | .number => t.text ∈ NumberLiteral.signedForm ∧ (t.text.head? = some '-' → BeforeOperand last)
  | .operator => (t.text = ['+'] ∨ t.text = ['-'] → ¬BeforeOperand last) ∧
      (t.text = ['!'] → AfterOperand last)
  | .reference => t.text ∈ Text.run Text.isLetter ∧ ∀ s ∈ lexicon.symbols, ¬s <+: t.text
  | .string => False
  | .function | .leftParen | .rightParen | .separator | .constant => True

/-- A factorial is read after an operand only. -/
theorem afterOperand_of_ofSymbol {position : Nat}
    (h : ofSymbol lexicon last factorialSymbol position = .ok t) : AfterOperand last := by
  rcases ofSymbol_eq_ok_iff.mp h with ⟨-, hends, -⟩ | ⟨hother, -⟩
  · exact any_endsOperand_iff.mp hends
  · exact absurd rfl hother

theorem Spells.placed (h : Spells lexicon last t) : Placed lexicon last t := by
  cases h with
  | @number digits mem plain =>
      have hform := NumberLiteral.canonical_mem_form mem
      rw [plain] at hform
      refine ⟨NumberLiteral.unsigned_mem_form hform, fun hminus => ?_⟩
      have hdigit := NumberLiteral.head?_canonicalForm hform '-' hminus
      exact absurd hdigit (by decide)
  | @negative digits mem plain sign other expected =>
      have hform := NumberLiteral.canonical_mem_form mem
      rw [plain] at hform
      exact ⟨NumberLiteral.negative_mem_form hform, fun _ => expectsOperand_iff.mp expected⟩
  | reference alone => exact ⟨alone.mem_run, alone.startsNone⟩
  | leftParen | rightParen | separator | constant => exact trivial
  | symbol alone other unsigned read =>
      obtain ⟨kind, text⟩ := t
      rcases (ofSymbol_eq_ok (read 0)).1 with hkind | hkind
      · obtain rfl : kind = .operator := congrArg Token.kind hkind
        refine ⟨fun hsign hbefore => unsigned ⟨hsign, expectsOperand_iff.mpr hbefore⟩, ?_⟩
        rintro rfl
        exact afterOperand_of_ofSymbol (read 0)
      · obtain rfl : kind = .function := congrArg Token.kind hkind
        exact trivial

end Token

namespace Lexicon

/-- **Each token of a line is in its place.** Of the tokens of a line that is read with the built-in
symbols, a number is digits with or without a point between them, and after a sign only where an
operand is expected; an operator `+` or `-` stands nowhere that one is expected, and a factorial
only where one has ended; the name of a variable is a run of letters that no symbol and no constant
starts; and there are no strings. -/
theorem tokenize_placed (line : List Char) (tokens : List Token)
    (h : ({} : Lexicon).tokenize line = .ok tokens) :
    ∀ before t after, tokens = before ++ t :: after → Token.Placed {} before.getLast? t := by
  intro before t after heq
  have hspells := (tokenize_spelled builtin_legible h).1.spells heq
  rw [Option.or_none] at hspells
  exact hspells.placed

/-- Signs that are kept and one that is dropped, bars, implied products, grouped digits and a
factorial: `-.5|x|-+-2pi(1_000.)3!` has the tokens of `-0.5 * abs ( x ) - -2 * pi * ( 1000 ) * 3 !`.
-/
theorem tokenize_placed_signs :
    ∃ tokens, ({} : Lexicon).tokenize "-.5|x|-+-2pi(1_000.)3!".toList = .ok tokens ∧
      Token.spaced tokens = "-0.5 * abs ( x ) - -2 * pi * ( 1000 ) * 3 !".toList ∧
      ∀ before t after, tokens = before ++ t :: after → Token.Placed {} before.getLast? t := by
  have h : ({} : Lexicon).tokenize "-.5|x|-+-2pi(1_000.)3!".toList = .ok
      [.number "-0.5".toList, .operator ['*'], .function "abs".toList, .leftParen,
        .reference ['x'], .rightParen, .operator ['-'], .number "-2".toList, .operator ['*'],
        .constant "pi".toList, .operator ['*'], .leftParen, .number "1000".toList, .rightParen,
        .operator ['*'], .number ['3'], .operator ['!']] := by
    decide +kernel
  exact ⟨_, h, by decide, tokenize_placed _ _ h⟩

end Lexicon

end DecimalCalc
