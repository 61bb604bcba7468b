import DecimalCalc.Expression.TokenList
import DecimalCalc.Proofs.Outcome

/-!
# Reading lexemes in turns

Tokens are read from lexemes turn by turn. Most turns take one lexeme and give one token; white space
and a plus sign give none, a bar that opens gives two, and a sign takes the number after it along.
All that a turn can do is said once (`Turn`). The tokens of some lexemes are those of their turns
(`ofLexemesAfter_eq_ok_iff`), so what holds of them is proved of one turn and carried along; where
the lexemes may have no tokens, `turns` is the induction to use.
-/

set_option autoImplicit false

namespace DecimalCalc

namespace Token

/-! ## One turn -/

/-- **A turn.** After the token `last`, while `bars` absolute values are open, the tokens `read` are
read from the lexemes `front`; after them `bars'` absolute values are open, and the lexemes `rest`
come next. -/
inductive Turn (lexicon : Lexicon) (last : Option Token) (bars : Nat) (rest : List Lexeme) :
    List Lexeme → List Token → Nat → Prop
  | space (text : List Char) (position : Nat) :
      Turn lexicon last bars rest [⟨.space, text, position⟩] [] bars
  | number (text : List Char) (position : Nat) :
      Turn lexicon last bars rest [⟨.number, text, position⟩]
        [Token.number (NumberLiteral.canonical text)] bars
  | word (text : List Char) (position : Nat) :
      Turn lexicon last bars rest [⟨.word, text, position⟩] [reference text] bars
  | leftParen (text : List Char) (position : Nat) :
      Turn lexicon last bars rest [⟨.leftParen, text, position⟩] [Token.leftParen] bars
  | rightParen (text : List Char) (position : Nat) :
      Turn lexicon last bars rest [⟨.rightParen, text, position⟩] [Token.rightParen] bars
  | separator (text : List Char) (position : Nat) :
      Turn lexicon last bars rest [⟨.separator, text, position⟩] [Token.separator] bars
  | closes (text : List Char) (position : Nat)
      (hbars : bars ≠ 0 ∧ (!expectsOperand last) = true) :
      Turn lexicon last bars rest [⟨.bar, text, position⟩] [Token.rightParen] (bars - 1)
  | opens (text : List Char) (position : Nat)
      (hbars : ¬(bars ≠ 0 ∧ (!expectsOperand last) = true)) :
      Turn lexicon last bars rest [⟨.bar, text, position⟩]
        [function absoluteSymbol, Token.leftParen] (bars + 1)
  | constant (text : List Char) (position : Nat)
      (hconstant : lexicon.constants.contains text = true) :
      Turn lexicon last bars rest [⟨.symbol, text, position⟩] [Token.constant text] bars
  | signed (text : List Char) (position : Nat) (digits : List Char) (place : Nat)
      (hconstant : ¬lexicon.constants.contains text = true)
      (hsign : (text = ['+'] ∨ text = ['-']) ∧ expectsOperand last = true) :
      Turn lexicon last bars rest [⟨.symbol, text, position⟩, ⟨.number, digits, place⟩]
        [Token.number ((if text = ['-'] then ['-'] else []) ++ NumberLiteral.canonical digits)] bars
  | minus (position : Nat) (hconstant : ¬lexicon.constants.contains ['-'] = true)
      (hexpected : expectsOperand last = true) (hrest : ∀ l ∈ rest.head?, l.kind ≠ .number) :
      Turn lexicon last bars rest [⟨.symbol, ['-'], position⟩] [function negateSymbol] bars
  | plus (position : Nat) (hconstant : ¬lexicon.constants.contains ['+'] = true)
      (hexpected : expectsOperand last = true) (hrest : ∀ l ∈ rest.head?, l.kind ≠ .number) :
      Turn lexicon last bars rest [⟨.symbol, ['+'], position⟩] [] bars
  | symbol (text : List Char) (position : Nat) (t : Token)
      (hconstant : ¬lexicon.constants.contains text = true)
      (hsign : ¬((text = ['+'] ∨ text = ['-']) ∧ expectsOperand last = true))
      (hsymbol : ofSymbol lexicon last text position = .ok t) :
      Turn lexicon last bars rest [⟨.symbol, text, position⟩] [t] bars

/-- A symbol that cannot stand after the token `last`, and that no turn takes. -/
structure Stuck (lexicon : Lexicon) (last : Option Token) (l : Lexeme) (failure : Failure) :
    Prop where
  kind : l.kind = .symbol
  constant : ¬lexicon.constants.contains l.text = true
  sign : ¬((l.text = ['+'] ∨ l.text = ['-']) ∧ expectsOperand last = true)
  fails : ofSymbol lexicon last l.text l.position = .error failure

variable {lexicon : Lexicon} {last : Option Token} {bars bars' : Nat}
  {front rest rest' : List Lexeme} {read tokens : List Token}

/-- **What a symbol is read as**: the factorial as an operator, where an operand has ended, and any
other symbol as its entry says. -/
theorem ofSymbol_eq_ok_iff {symbol : List Char} {position : Nat} {t : Token} :
    ofSymbol lexicon last symbol position = .ok t ↔
      symbol = factorialSymbol ∧ last.any endsOperand = true ∧ t = operator symbol ∨
      symbol ≠ factorialSymbol ∧ ∃ entry, lexicon.registry.find? symbol = some entry ∧
        t = if entry.isFunction then function symbol else operator symbol := by
  rw [ofSymbol]
  by_cases hfactorial : symbol = factorialSymbol
  · cases hends : last.any endsOperand with
    | true => simpa [hfactorial] using eq_comm
    | false => simp [hfactorial]
  · cases listed : lexicon.registry.find? symbol with
    | some entry => simpa [hfactorial, Registry.lookup, listed] using eq_comm
    | none => simp [hfactorial, Registry.lookup, listed]

theorem map_nil_append (result : Except Failure (List Token)) : result.map ([] ++ ·) = result := by
  cases result <;> rfl

/-- A sign that no number follows. -/
theorem ofLexemesAfter_sign {position : Nat} {text : List Char}
    (hconstant : ¬lexicon.constants.contains text = true)
    (hsign : (text = ['+'] ∨ text = ['-']) ∧ expectsOperand last = true)
    (hrest : ∀ l ∈ rest.head?, l.kind ≠ .number) :
    ofLexemesAfter lexicon last bars (⟨.symbol, text, position⟩ :: rest) =
      if text = ['-'] then (ofLexemesAfter lexicon (some (function negateSymbol)) bars rest).map
        (function negateSymbol :: ·)
      else ofLexemesAfter lexicon last bars rest := by
  rw [ofLexemesAfter, if_neg hconstant, if_pos hsign]
  cases rest with
  | nil => rfl
  | cons l rest =>
      obtain ⟨kind, digits, place⟩ := l
      have hkind : kind ≠ .number := hrest _ rfl
      cases kind <;> first | rfl | exact absurd rfl hkind

/-- A symbol that is neither a constant nor a sign. -/
theorem ofLexemesAfter_symbol {position : Nat} {text : List Char} {t : Token}
    (hconstant : ¬lexicon.constants.contains text = true)
    (hsign : ¬((text = ['+'] ∨ text = ['-']) ∧ expectsOperand last = true))
    (h : ofSymbol lexicon last text position = .ok t) (rest : List Lexeme) :
    ofLexemesAfter lexicon last bars (⟨.symbol, text, position⟩ :: rest) =
      (ofLexemesAfter lexicon (some t) bars rest).map (t :: ·) := by
  simp only [ofLexemesAfter, if_neg hconstant, if_neg hsign, h]
  rfl

/-- **The tokens of a turn come first**, and the others are read after the last of them. -/
theorem Turn.eq (h : Turn lexicon last bars rest front read bars') :
    ofLexemesAfter lexicon last bars (front ++ rest) =
      (ofLexemesAfter lexicon (read.getLast?.or last) bars' rest).map (read ++ ·) := by
  cases h with
  | space text position => exact (map_nil_append _).symm
  | closes text position hbars =>
      simp only [List.cons_append, List.nil_append, ofLexemesAfter, if_pos hbars]
      rfl
  | opens text position hbars =>
      simp only [List.cons_append, List.nil_append, ofLexemesAfter, if_neg hbars]
      rfl
  | constant text position hconstant =>
      simp only [List.cons_append, List.nil_append, ofLexemesAfter, if_pos hconstant]
      rfl
  | signed text position digits place hconstant hsign =>
      simp only [List.cons_append, List.nil_append, ofLexemesAfter, if_neg hconstant, if_pos hsign]
      rfl
  | minus position hconstant hexpected hrest =>
      exact (ofLexemesAfter_sign hconstant ⟨.inr rfl, hexpected⟩ hrest).trans (if_pos rfl)
  | plus position hconstant hexpected hrest =>
      rw [List.singleton_append, ofLexemesAfter_sign hconstant ⟨.inl rfl, hexpected⟩ hrest,
        if_neg (by decide)]
      exact (map_nil_append _).symm
  | symbol text position t hconstant hsign hsymbol =>
      exact ofLexemesAfter_symbol hconstant hsign hsymbol rest
  -- a lexeme that is the same token wherever it stands
  | _ => rfl

theorem Stuck.eq {l : Lexeme} {failure : Failure} (h : Stuck lexicon last l failure) (bars : Nat)
    (rest : List Lexeme) : ofLexemesAfter lexicon last bars (l :: rest) = .error failure := by
  obtain ⟨kind, text, position⟩ := l
  obtain ⟨rfl, hconstant, hsign, hfails⟩ := h
  simp only [ofLexemesAfter, if_neg hconstant, if_neg hsign, hfails]
  rfl

theorem head?_map_ne_number {f : Lexeme → Lexeme} (hkind : ∀ l, (f l).kind = l.kind)
    (hrest : ∀ l ∈ rest.head?, l.kind ≠ .number) : ∀ l ∈ (rest.map f).head?, l.kind ≠ .number := by
  intro l hl
  rw [List.head?_map] at hl
  obtain ⟨first, hfirst, rfl⟩ := Option.map_eq_some_iff.mp hl
  rw [hkind]
  exact hrest first hfirst

/-- A turn is the same before other lexemes, if no number comes up where there was none. -/
theorem Turn.before (h : Turn lexicon last bars rest front read bars')
    (hrest : (∀ l ∈ rest.head?, l.kind ≠ .number) → ∀ l ∈ rest'.head?, l.kind ≠ .number) :
    Turn lexicon last bars rest' front read bars' := by
  cases h with
  | minus position hconstant hexpected hnext =>
      exact .minus position hconstant hexpected (hrest hnext)
  | plus position hconstant hexpected hnext =>
      exact .plus position hconstant hexpected (hrest hnext)
  | _ => constructor <;> assumption

/-! ## Turn after turn -/

theorem head?_ne_number {lexemes : List Lexeme}
    (h : ∀ digits position others, lexemes = ⟨.number, digits, position⟩ :: others → False) :
    ∀ l ∈ lexemes.head?, l.kind ≠ .number := by
  cases lexemes with
  | nil => exact nofun
  | cons l lexemes =>
      obtain ⟨kind, text, position⟩ := l
      rintro _ ⟨⟩ rfl
      exact h text position lexemes rfl

/-- **Lexemes are taken turn by turn**, until there are none left or one of them is stuck. -/
theorem turns (lexicon : Lexicon) {motive : Option Token → Nat → List Lexeme → Prop}
    (nil : ∀ last bars, motive last bars [])
    (stuck : ∀ {last l failure} bars rest, Stuck lexicon last l failure →
      motive last bars (l :: rest))
    (turn : ∀ {last bars bars' front read} rest, Turn lexicon last bars rest front read bars' →
      motive (read.getLast?.or last) bars' rest → motive last bars (front ++ rest))
    (last : Option Token) (bars : Nat) (lexemes : List Lexeme) : motive last bars lexemes := by
  -- by the recursion of the reader; nothing else is to be proved along it
  fun_induction ofLexemesAfter lexicon last bars lexemes with
  | case1 last bars => exact nil last bars
  | case2 last bars text position rest ih => exact turn rest (.space text position) ih
  | case3 last bars text position rest token ih => exact turn rest (.number text position) ih
  | case4 last bars text position rest ih => exact turn rest (.word text position) ih
  | case5 last bars text position rest ih => exact turn rest (.leftParen text position) ih
  | case6 last bars text position rest ih => exact turn rest (.rightParen text position) ih
  | case7 last bars text position rest ih => exact turn rest (.separator text position) ih
  | case8 last bars text position rest hbars ih =>
      exact turn rest (.closes text position hbars) ih
  | case9 last bars text position rest hbars ih =>
      exact turn rest (.opens text position hbars) ih
  | case10 last bars text position rest hconstant ih =>
      exact turn rest (.constant text position hconstant) ih
  | case11 last bars text position hconstant hsign sign digits place rest token ih =>
      exact turn rest (.signed text position digits place hconstant hsign) ih
  | case12 last bars position rest hdigits hconstant hsign ih =>
      exact turn rest (.minus position hconstant hsign.2 (head?_ne_number hdigits)) ih
  | case13 last bars text position hconstant hsign rest hdigits hplus ih =>
      obtain rfl : text = ['+'] := hsign.1.resolve_right hplus
      exact turn rest (.plus position hconstant hsign.2 (head?_ne_number hdigits)) ih
  | case14 last bars text position rest hconstant hsign ih =>
      cases hsymbol : ofSymbol lexicon last text position with
      | error failure => exact stuck bars rest ⟨rfl, hconstant, hsign, hsymbol⟩
      | ok t => exact turn rest (.symbol text position t hconstant hsign hsymbol) (ih t)

/-- **A row of turns** takes some lexemes up, and the tokens are all that is read in it. -/
inductive Turns (lexicon : Lexicon) : Option Token → Nat → List Lexeme → List Token → Prop
  | nil (last : Option Token) (bars : Nat) : Turns lexicon last bars [] []
  | turn {last : Option Token} {bars bars' : Nat} {front rest : List Lexeme}
      {read tokens : List Token} (first : Turn lexicon last bars rest front read bars')
      (more : Turns lexicon (read.getLast?.or last) bars' rest tokens) :
      Turns lexicon last bars (front ++ rest) (read ++ tokens)

theorem Turns.eq {lexemes : List Lexeme} (h : Turns lexicon last bars lexemes tokens) :
    ofLexemesAfter lexicon last bars lexemes = .ok tokens := by
  induction h with
  | nil last bars => rfl
  | turn first more ih =>
      rw [first.eq, ih]
      rfl

/-- **The tokens of some lexemes are those of their turns.** -/
theorem ofLexemesAfter_eq_ok_iff {lexemes : List Lexeme} :
    ofLexemesAfter lexicon last bars lexemes = .ok tokens ↔
      Turns lexicon last bars lexemes tokens := by
  refine ⟨fun h => ?_, Turns.eq⟩
  induction last, bars, lexemes using turns lexicon generalizing tokens with
  | nil last bars =>
      obtain rfl := Except.ok.inj h
      exact .nil last bars
  | stuck bars rest hstuck =>
      rw [hstuck.eq] at h
      cases h
  | turn rest first ih =>
      rw [first.eq] at h
      obtain ⟨others, hothers, rfl⟩ := Except.map_eq_ok.mp h
      exact .turn first (ih hothers)

end Token

/-- **The tokens of a line** are those of the turns of its lexemes, with the products written out.
-/
theorem Lexicon.tokenize_eq_ok_iff {lexicon : Lexicon} {line : List Char} {tokens : List Token} :
    lexicon.tokenize line = .ok tokens ↔ ∃ lexemes read,
      Lexeme.lex lexicon.symbols line = .ok lexemes ∧ Token.Turns lexicon none 0 lexemes read ∧
        Token.insertProducts read = tokens := by
  constructor
  · intro h
    obtain ⟨lexemes, hlex, hproducts⟩ := Except.bind_eq_ok.mp h
    obtain ⟨read, hread, heq⟩ := Except.bind_eq_ok.mp hproducts
    exact ⟨lexemes, read, hlex, Token.ofLexemesAfter_eq_ok_iff.mp hread, Except.ok.inj heq⟩
  · rintro ⟨lexemes, read, hlex, hturns, rfl⟩
    rw [tokenize, hlex]
    show (Token.ofLexemes lexicon lexemes).bind _ = _
    rw [Token.ofLexemes, hturns.eq]
    rfl

end DecimalCalc
