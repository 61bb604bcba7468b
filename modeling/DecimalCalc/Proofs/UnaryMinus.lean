import DecimalCalc.Proofs.KnownTokens
import DecimalCalc.Proofs.NegativeLiterals
import DecimalCalc.Proofs.Reachability
import DecimalCalc.Proofs.Rebinding
import DecimalCalc.Proofs.Substitution

/-!
# Unary minus before a literal and before a variable

A minus sign before a literal is a part of its token; before a variable it is a function, which the
first operator after the variable writes out. Both come to the same (`Calculator.evaluate_minus`):
the tokens after the literal and after the variable are the same ones, and the rows that the machine
runs differ only at their start, where one has the negative literal and the other one the value of
the variable with the function after it. This holds for all operators between operands that are
written with a sign, and for none of the others.
-/

set_option autoImplicit false

namespace DecimalCalc

open Except

/-! ## Signs of operators -/

/-- The signs that operators between operands are written with. -/
def operatorSigns : List Char := ['+', '-', '*', '×', '/', '÷', '%', '^']

/-- **The sign of an operator**: it stands between operands, and nothing else is written with it. -/
structure OperatorSign (c : Char) : Prop where
  stops : NumberLiteral.Stops c
  space : Text.isWhiteSpace c = false
  letter : Text.isLetter c = false
  factorial : [c] ≠ factorialSymbol
  listed : ∃ entry, Registry.builtin.find? [c] = some entry ∧ entry.fixity = .between
  symbol : [c] ∈ ({} : Lexicon).symbols
  only : ∀ s ∈ ({} : Lexicon).symbols, c ∈ s → s = [c]
  other : ¬({} : Lexicon).constants.contains [c] = true

theorem operatorSign_of_mem {c : Char} (h : c ∈ operatorSigns) : OperatorSign c := by
  have hplain : operatorSigns.all fun c => NumberLiteral.Stops c ∧ Text.isWhiteSpace c = false ∧
      Text.isLetter c = false ∧ [c] ≠ factorialSymbol ∧
      ¬({} : Lexicon).constants.contains [c] = true := by
    decide +kernel
  have hlisted : ∀ symbol ∈ operatorSigns.map fun c => [c], symbol ∈ ({} : Lexicon).symbols ∧
      ∃ entry ∈ Registry.builtin.find? symbol, entry.fixity = .between := by
    decide +kernel
  have honly : operatorSigns.all fun c => ∀ s ∈ ({} : Lexicon).symbols, c ∈ s → s = [c] := by
    decide +kernel
  obtain ⟨stops, space, letter, factorial, other⟩ :=
    of_decide_eq_true (List.all_eq_true.mp hplain c h)
  obtain ⟨symbol, listed⟩ := hlisted [c] (List.mem_map_of_mem h)
  have only := of_decide_eq_true (List.all_eq_true.mp honly c h)
  exact ⟨stops, space, letter, factorial, listed, symbol, only, other⟩

/-- **A text that goes on after an operand**: it is empty, or begins with an operator between
operands that is no word. -/
def GoesOn (text : List Char) : Prop :=
  text = [] ∨ ∃ e ∈ Builtin.entries, e.fixity = .between ∧ e.symbol.any Text.isLetter = false ∧
    e.symbol <+: text

instance (text : List Char) : Decidable (GoesOn text) := inferInstanceAs (Decidable (_ ∨ _))

theorem GoesOn.cases {text : List Char} (h : GoesOn text) :
    text = [] ∨ ∃ c rest, OperatorSign c ∧ text = c :: rest := by
  have hsigns : ∀ e ∈ Builtin.entries, e.fixity = .between → e.symbol.any Text.isLetter = false →
      e.symbol ∈ operatorSigns.map fun c => [c] := by
    decide +kernel
  refine h.imp_right ?_
  rintro ⟨e, he, fixity, plain, rest, rfl⟩
  obtain ⟨c, hc, hsymbol⟩ := List.mem_map.mp (hsigns e he fixity plain)
  exact ⟨c, rest, operatorSign_of_mem hc, by rw [← hsymbol]; rfl⟩

/-! ## Lexemes -/

namespace OperatorSign

variable {c : Char}

theorem opens (h : OperatorSign c) (rest : List Char) :
    Lexeme.Opens ({} : Lexicon).symbols (c :: rest) := by
  refine ⟨?_, ?_, ?_⟩
  · rintro _ ⟨⟩
    exact h.stops
  · rintro _ ⟨⟩
    exact h.space
  · -- no symbol goes on with the sign
    rintro _ ⟨⟩ w v hmem hw
    have heq := h.only _ hmem (by simp)
    cases w with
    | nil => exact absurd rfl hw
    | cons d w => simp at heq

theorem pieces? (h : OperatorSign c) (rest : List Char) :
    Lexeme.pieces? ({} : Lexicon).symbols 0 (c :: rest) =
      (Lexeme.pieces? ({} : Lexicon).symbols 0 rest).map (⟨.symbol, [c], 0⟩ :: ·) := by
  refine Lexeme.pieces?_symbol h.symbol (fun t ht hpre => ?_) ?_ (List.cons_ne_nil c []) rest
  · exact h.only t ht (hpre.subset List.mem_cons_self)
  · rintro _ ⟨⟩
    exact h.stops

/-- After an operand the sign is read as the operator. -/
theorem ofLexemesAfter (h : OperatorSign c) {last : Token}
    (ended : Token.expectsOperand (some last) = false) (bars : Nat) (rest : List Lexeme) :
    Token.ofLexemesAfter {} (some last) bars (⟨.symbol, [c], 0⟩ :: rest) =
      (Token.ofLexemesAfter {} (some (Token.operator [c])) bars rest).map
        (Token.operator [c] :: ·) := by
  obtain ⟨entry, listed, fixity⟩ := h.listed
  refine Token.ofLexemesAfter_symbol h.other (fun hsign => ?_) ?_ rest
  · rw [ended] at hsign
    cases hsign.2
  · rw [Token.ofSymbol, if_neg h.factorial]
    simp [Registry.lookup_eq_ok.mpr listed, Entry.isFunction, fixity]

end OperatorSign

namespace Lexeme

variable {symbols : List (List Char)} {kind : LexemeKind} {w y : List Char}

/-- **A lexeme by itself is cut off** before a text that cannot go it on. -/
theorem Alone.pieces? (h : Alone symbols kind w) (exist : symbols ≠ []) (nonempty : [] ∉ symbols)
    (hy : Opens symbols y) (hletter : y.head?.any Text.isLetter = false) :
    Lexeme.pieces? symbols 0 (w ++ y) =
      (Lexeme.pieces? symbols 0 y).map (⟨kind, w, 0⟩ :: ·) := by
  have hat : at? symbols (w ++ []) = some (kind, w.length) := by
    rw [List.append_nil]
    exact at?_of_reads exist nonempty h
  have hw := h.ne_nil nonempty
  have hat' : at? symbols (w ++ y) = some (kind, w.length) := by
    refine at?_congr exist opens_nil hy hw hat (Nat.le_refl _) fun _ _ hany => ?_
    rw [hletter] at hany
    cases hany
  obtain ⟨c, rest, rfl⟩ := List.exists_cons_of_ne_nil hw
  rw [List.cons_append] at hat' ⊢
  rw [Lexeme.pieces?, hat']
  show (Lexeme.pieces? symbols rest.length (rest ++ y)).map _ = _
  have htake : (c :: (rest ++ y)).take (rest.length + 1) = c :: rest := by simp
  rw [pieces?_skip, htake]

end Lexeme

/-! ## Tokens -/

/-- Some tokens that go on after an operand: there are none, or they begin with an operator that is
written with a sign. -/
def Token.GoOn (tokens : List Token) : Prop :=
  tokens = [] ∨ ∃ c rest, OperatorSign c ∧ tokens = operator [c] :: rest

/-- No product is implied before such tokens. -/
theorem Token.GoOn.productsAfter {tokens : List Token} (h : GoOn tokens) (left left' : Token) :
    GoOn (productsAfter left tokens) ∧
      productsAfter left' tokens = productsAfter left tokens := by
  rcases h with rfl | ⟨c, rest, sign, rfl⟩
  · exact ⟨.inl rfl, rfl⟩
  · have hproducts : ∀ last, Token.productsAfter last (operator [c] :: rest) =
        operator [c] :: Token.productsAfter (operator [c]) rest := by
      intro last
      have hnone : impliesProduct last (operator [c]) = false := by
        simp [impliesProduct, operator, startsOperand]
      simp [Token.productsAfter, hnone]
    rw [hproducts, hproducts]
    exact ⟨.inr ⟨c, _, sign, rfl⟩, rfl⟩

namespace Lexicon

open NumberLiteral (canonical)

variable {literal name after : List Char}

/-- The lexemes of a line that begins with a minus sign. -/
theorem pieces?_minus {kind : LexemeKind} {w : List Char}
    (alone : Lexeme.Alone ({} : Lexicon).symbols kind w) (goesOn : GoesOn after) :
    Lexeme.pieces? ({} : Lexicon).symbols 0 ('-' :: (w ++ after)) =
      (Lexeme.pieces? ({} : Lexicon).symbols 0 after).map fun rest =>
        ⟨.symbol, ['-'], 0⟩ :: ⟨kind, w, 0⟩ :: rest := by
  have minus : OperatorSign '-' := operatorSign_of_mem (by decide)
  have hopens : Lexeme.Opens ({} : Lexicon).symbols after ∧
      after.head?.any Text.isLetter = false := by
    rcases goesOn.cases with rfl | ⟨c, rest, sign, rfl⟩
    · exact ⟨Lexeme.opens_nil, rfl⟩
    · exact ⟨sign.opens rest, sign.letter⟩
  rw [minus.pieces?, alone.pieces? builtin_legible.exist builtin_legible.nonempty hopens.1 hopens.2,
    Option.map_map]
  rfl

/-- The tokens of what goes on after an operand. -/
theorem ofLexemesAfter_goesOn (goesOn : GoesOn after) {pieces : List Lexeme}
    (hpieces : Lexeme.pieces? ({} : Lexicon).symbols 0 after = some pieces) {last : Token}
    (ended : Token.expectsOperand (some last) = false) :
    (Token.ofLexemesAfter {} (some last) 0 pieces).Gives Token.GoOn := by
  rcases goesOn.cases with rfl | ⟨c, rest, sign, rfl⟩
  · obtain rfl := Option.some.inj hpieces
    exact gives_ok (.inl rfl)
  · rw [sign.pieces?] at hpieces
    obtain ⟨others, -, rfl⟩ := Option.map_eq_some_iff.mp hpieces
    rw [sign.ofLexemesAfter ended]
    rintro _ h
    obtain ⟨tokens, -, rfl⟩ := map_eq_ok.mp h
    exact .inr ⟨c, tokens, sign, rfl⟩

/-- Two rows of tokens: in one a negative literal stands where the other one has a variable after
the unary minus. -/
def Negated (literal name : List Char) (ts ts' : List Token) : Prop :=
  ∃ rest, Token.GoOn rest ∧ ts = Token.number ('-' :: canonical literal) :: rest ∧
    ts' = Token.function negateSymbol :: Token.reference name :: rest

/-- **A minus sign before a literal is a part of it, and before a variable a function.** All else in
the lines is read alike. -/
theorem tokenize_minus (isLiteral : literal ∈ NumberLiteral.grammar)
    (isName : Lexeme.Alone ({} : Lexicon).symbols .word name) (goesOn : GoesOn after) :
    Agree (Negated literal name) (({} : Lexicon).tokenize ('-' :: (literal ++ after)))
      (({} : Lexicon).tokenize ('-' :: (name ++ after))) := by
  refine agree_of_toOption ?_
  rw [tokenize_toOption, tokenize_toOption, pieces?_minus (Lexeme.alone_number isLiteral) goesOn,
    pieces?_minus isName goesOn]
  cases hpieces : Lexeme.pieces? ({} : Lexicon).symbols 0 after with
  | none => exact .none
  | some pieces =>
      have hliteral : Token.ofLexemes {}
          (⟨.symbol, ['-'], 0⟩ :: ⟨.number, literal, 0⟩ :: pieces) =
            (Token.ofLexemesAfter {} (some (Token.number ('-' :: canonical literal))) 0 pieces).map
              (Token.number ('-' :: canonical literal) :: ·) := rfl
      have hname : Token.ofLexemes {} (⟨.symbol, ['-'], 0⟩ :: ⟨.word, name, 0⟩ :: pieces) =
          (Token.ofLexemesAfter {} (some (Token.reference name)) 0 pieces).map fun rest =>
            Token.function negateSymbol :: Token.reference name :: rest := by
        rw [Token.ofLexemes, Token.ofLexemesAfter_sign (by decide) (by decide) (by rintro _ ⟨⟩ ⟨⟩),
          if_pos rfl, Token.ofLexemesAfter, map_map]
      -- the same is expected after a number and after a variable
      have halike : Token.Alike (some (Token.reference name))
          (some (Token.number ('-' :: canonical literal))) := ⟨rfl, rfl⟩
      have hrest : (Token.ofLexemesAfter {} (some (Token.reference name)) 0 pieces).toOption =
          (Token.ofLexemesAfter {} (some (Token.number ('-' :: canonical literal))) 0
            pieces).toOption :=
        Token.ofLexemesAfter_alike halike 0 pieces
      simp only [Option.map_some, Option.bind_some, hliteral, hname, toOption_map, hrest]
      cases hread : Token.ofLexemesAfter {} (some (Token.number ('-' :: canonical literal))) 0
          pieces with
      | error failure => exact .none
      | ok rest =>
          have hgoOn : Token.GoOn rest := ofLexemesAfter_goesOn goesOn hpieces rfl rest hread
          obtain ⟨hproducts, hsame⟩ := hgoOn.productsAfter
            (Token.number ('-' :: canonical literal)) (Token.reference name)
          exact .some ⟨_, hproducts, rfl, congrArg (_ :: _ :: ·) hsame⟩

end Lexicon

/-! ## Reverse Polish order -/

namespace ReversePolish

/-- **An operator writes out the unary minus before it**, and so does the end. -/
theorem reorderFrom_negate {tokens : List Token} (h : Token.GoOn tokens) :
    reorderFrom .builtin [Token.function negateSymbol] tokens =
      (reorderFrom .builtin [] tokens).map (Token.function negateSymbol :: ·) := by
  rcases h with rfl | ⟨c, rest, sign, rfl⟩
  · rfl
  · obtain ⟨entry, listed, fixity⟩ := sign.listed
    have hyields : yieldsTo .builtin entry (Token.function negateSymbol) = true := rfl
    rw [reorderFrom_cons, reorderFrom_cons, step_between_eq listed fixity,
      step_between_eq listed fixity, List.takeWhile_cons_of_pos hyields,
      List.dropWhile_cons_of_pos hyields]
    show (reorderFrom .builtin [Token.operator [c]] rest).map _ =
      ((reorderFrom .builtin [Token.operator [c]] rest).map _).map _
    rw [map_map]
    rfl

theorem reorder_number (text : List Char) (tokens : List Token) :
    reorder .builtin (Token.number text :: tokens) =
      (reorderFrom .builtin [] tokens).map (Token.number text :: ·) := by
  rw [reorder, reorderFrom_cons, step_number]
  rfl

theorem reorder_negate {tokens : List Token} (h : Token.GoOn tokens) (text : List Char) :
    reorder .builtin (Token.function negateSymbol :: Token.number text :: tokens) =
      (reorderFrom .builtin [] tokens).map fun out =>
        Token.number text :: Token.function negateSymbol :: out := by
  rw [reorder, reorderFrom_cons, step_function]
  show (reorderFrom .builtin [Token.function negateSymbol] (Token.number text :: tokens)).map _ = _
  rw [reorderFrom_cons, step_number]
  show ((reorderFrom .builtin [Token.function negateSymbol] tokens).map _).map _ = _
  rw [reorderFrom_negate h, map_map, map_map]
  rfl

end ReversePolish

/-! ## The machine -/

namespace Machine

variable {s : Settings}

/-- What tokens answer that are run from a stack on. -/
def answerFrom (s : Settings) (tokens : List Token) (stack : List Value) : Drawing Failure Scalar :=
  (run .builtin s stack tokens).bind fun stack => .still (answer s stack)

/-- **What is run first** matters only through the stack that it leaves. -/
theorem evaluate_append (s : Settings) (ts us : List Token) :
    evaluate .builtin s (ts ++ us) = (run .builtin s [] ts).bind (answerFrom s us) := by
  rw [evaluate, run_append, Drawing.bind_assoc]
  rfl

/-- A number and the unary minus after it leave the negated number. -/
theorem run_negate (s : Settings) (text : List Char) :
    run .builtin s [] [Token.number text, Token.function negateSymbol] =
      .still ((((readLiteral s text).bind (Functions.negate s)).mapError Failure.ofOperation).map
        fun x => [Value.number x]) := by
  have hlookup : Registry.builtin.lookup negateSymbol =
      .ok (Builtin.function "neg" 1 .negate) := rfl
  rw [run_cons, step_number rfl, Token.number]
  cases readLiteral s text with
  | error cause => rfl
  | ok x =>
      show run .builtin s [.number x] [Token.function negateSymbol] = _
      rw [run_singleton, step_symbol (.inr rfl), Token.function, hlookup]
      show ((Drawing.still ((Functions.negate s x).map Value.number)).mapError _).map _ =
        .still (((Functions.negate s x).mapError _).map _)
      cases Functions.negate s x <;> rfl

end Machine

/-! ## Evaluation -/

namespace Binding

/-- **What is bound is a literal**: its text, or the number that it writes. -/
def IsLiteral (literal : List Char) : Binding → Prop
  | .expression text => text = literal
  | .number x => Number.read? (NumberLiteral.canonical literal) = some x

end Binding

namespace Calculator

open NumberLiteral (canonical)

variable {c : Calculator} {vars : Variables} {literal name after : List Char} {binding : Binding}

section

variable (builtin : c.registry = .builtin)

include builtin

theorem evaluateWith_literal (isLiteral : literal ∈ NumberLiteral.grammar)
    (valueOf : List Char → Drawing Failure Number) :
    (c.evaluateWith valueOf literal).map Scalar.number =
      .still ((readLiteral c.settings (canonical literal)).mapError .ofOperation) := by
  have isLexeme : Lexeme.Alone ({} : Lexicon).symbols .number literal :=
    Lexeme.alone_number isLiteral
  have htokens : c.tokenize literal = .ok [Token.number (canonical literal)] := by
    have hpieces := isLexeme.pieces? Lexicon.builtin_legible.exist Lexicon.builtin_legible.nonempty
      Lexeme.opens_nil rfl
    rw [List.append_nil] at hpieces
    have hread := Lexicon.tokenize_toOption {} literal
    rw [hpieces] at hread
    rw [tokenize, lexicon_of_builtin builtin]
    exact toOption_eq_some.mp hread
  have hblank : literal.all Text.isBlank = false := by
    obtain ⟨first, rest, rfl⟩ := List.exists_cons_of_ne_nil (NumberLiteral.grammar_ne_nil isLiteral)
    have hnumeric : IsNumeric first := by
      rcases NumberLiteral.mem_grammar_chars _ isLiteral first List.mem_cons_self with
        (hdigit | rfl) | rfl
      · exact .inl hdigit
      · exact .inr (.inr (.inr rfl))
      · exact .inr (.inl rfl)
    rw [List.all_cons, Decimal.not_blank_of_isNumeric hnumeric, Bool.false_and]
  rw [evaluateWith_number htokens hblank]
  cases readLiteral c.settings (canonical literal) <;> rfl

/-- **A variable that is bound to a literal** is replaced by a number that is read as the literal, and
draws nothing. -/
theorem resolve_literal (isLiteral : literal ∈ NumberLiteral.grammar)
    (room : (literal.filter Text.isDigit).length ≤ c.settings.precision)
    (bound : vars.find? name = some binding) (h : binding.IsLiteral literal) :
    ∃ value : Except Failure Number, c.resolve vars name = .still value ∧
      (value.toOption.bind fun x => (readLiteral c.settings x.plain).toOption) =
        (readLiteral c.settings (canonical literal)).toOption := by
  rw [resolve_eq, valueAt_eq, valueWith, bound]
  cases binding with
  | number x => exact ⟨.ok x, rfl, NumberLiteral.readLiteral_plain isLiteral h⟩
  | expression text =>
      obtain rfl : text = literal := h
      simp only [List.not_mem_nil, if_false]
      refine ⟨_, evaluateWith_literal builtin isLiteral _, ?_⟩
      cases hread : readLiteral c.settings (canonical text) with
      | error cause => rfl
      | ok x =>
          show (readLiteral c.settings x.plain).toOption = _
          rw [NumberLiteral.readLiteral_plain isLiteral
            (NumberLiteral.read?_of_readLiteral isLiteral room hread), hread]

end

/-! ### The rows of the two lines -/

section

variable {valueOf : List Char → Drawing Failure Number} {rest : List Token}

/-- What is written out of the tokens that go on after an operand. -/
def rowAfter (c : Calculator) (valueOf : List Char → Drawing Failure Number) (rest : List Token) :
    Drawing Failure (List Token) :=
  (c.substitute valueOf rest).bind fun replaced =>
    .still ((ReversePolish.reorderFrom .builtin [] replaced).mapError .fault)

theorem substitute_goOn {replaced : List Token} (h : Token.GoOn rest)
    (hreplaced : (c.substitute valueOf rest).Yields replaced) : Token.GoOn replaced := by
  rcases h with rfl | ⟨d, others, sign, rfl⟩
  · obtain rfl := Drawing.yields_ok.mp hreplaced
    exact .inl rfl
  · obtain ⟨others', -, rfl⟩ := substitute_cons_of_not_atom_inv rfl hreplaced
    exact .inr ⟨d, others', sign, rfl⟩

theorem row_number (text : List Char) (rest : List Token) :
    ((c.substitute valueOf (Token.number text :: rest)).bind fun replaced =>
        .still ((ReversePolish.reorder .builtin replaced).mapError Failure.fault)) =
      (c.rowAfter valueOf rest).map (Token.number text :: ·) := by
  rw [substitute_cons, rowAfter]
  show ((c.substitute valueOf rest).map _).bind _ = _
  rw [Drawing.bind_map, Drawing.map_bind]
  refine congrArg _ (funext fun replaced => ?_)
  rw [ReversePolish.reorder_number]
  cases ReversePolish.reorderFrom .builtin [] replaced <;> rfl

/-- The value of the variable comes first, and then the function that negates it. -/
theorem row_negate (h : Token.GoOn rest) (name : List Char) :
    ((c.substitute valueOf (Token.function negateSymbol :: Token.reference name :: rest)).bind
        fun replaced => .still ((ReversePolish.reorder .builtin replaced).mapError Failure.fault)) =
      (valueOf name).bind fun x => (c.rowAfter valueOf rest).map fun out =>
        Token.number x.plain :: Token.function negateSymbol :: out := by
  have hsubstitute : c.substitute valueOf
      (Token.function negateSymbol :: Token.reference name :: rest) =
        (valueOf name).bind fun x => (c.substitute valueOf rest).map fun replaced =>
          Token.function negateSymbol :: Token.number x.plain :: replaced := by
    rw [substitute_cons_of_not_atom rfl, substitute_cons]
    show (((valueOf name).map _).bind _).map _ = _
    rw [Drawing.bind_map, Drawing.map_bind]
    simp only [Drawing.map_map]
  rw [hsubstitute, Drawing.bind_assoc]
  refine congrArg _ (funext fun x => ?_)
  rw [Drawing.bind_map, rowAfter, Drawing.map_bind]
  refine Drawing.bind_congr fun replaced hrest => ?_
  rw [ReversePolish.reorder_negate (substitute_goOn h hrest)]
  cases ReversePolish.reorderFrom .builtin [] replaced <;> rfl

end

/-! ### The values of the two lines -/

section

variable (isLiteral : literal ∈ NumberLiteral.grammar)
  (room : (literal.filter Text.isDigit).length ≤ c.settings.precision)

include isLiteral room

/-- The negative literal leaves on the stack what the negated number leaves that is read as the
literal. -/
theorem runs_agree {x : Number} (h : (readLiteral c.settings x.plain).toOption =
    (readLiteral c.settings (canonical literal)).toOption) :
    Drawing.Agree (· = ·)
      (Machine.run .builtin c.settings [] [Token.number ('-' :: canonical literal)])
      (Machine.run .builtin c.settings []
        [Token.number x.plain, Token.function negateSymbol]) := by
  have hvalues : (readLiteral c.settings ('-' :: canonical literal)).toOption =
      ((readLiteral c.settings x.plain).bind (Functions.negate c.settings)).toOption := by
    rw [NumberLiteral.readLiteral_negative isLiteral room, ← h]
    cases readLiteral c.settings x.plain <;> rfl
  rw [Machine.run_number, Machine.run_negate]
  refine Drawing.agree_still (((agree_of_toOption_eq hvalues).mapError _ _).map fun a b hab => ?_)
  rw [hab]

/-- **Rows that differ at their start only** have the same value. -/
theorem rows_agree {x : Number} (h : (readLiteral c.settings x.plain).toOption =
    (readLiteral c.settings (canonical literal)).toOption) (out : List Token) :
    Drawing.Agree (· = ·)
      (Machine.evaluate .builtin c.settings (Token.number ('-' :: canonical literal) :: out))
      (Machine.evaluate .builtin c.settings
        (Token.number x.plain :: Token.function negateSymbol :: out)) := by
  -- both rows are run up to the negated value, and go on with the same tokens
  show Drawing.Agree _ (Machine.evaluate .builtin c.settings ([_] ++ out))
    (Machine.evaluate .builtin c.settings ([_, _] ++ out))
  rw [Machine.evaluate_append, Machine.evaluate_append]
  refine (runs_agree isLiteral room h).bind fun stack stack' heq => ?_
  rw [heq]
  exact Drawing.agree_refl (fun _ => rfl) _

/-- Where the literal has no value, neither has a row that begins with it. -/
theorem not_yields_row (h : (readLiteral c.settings (canonical literal)).toOption = none)
    (row : Drawing Failure (List Token)) (v : Scalar) : ¬(row.bind fun out =>
      Machine.evaluate .builtin c.settings
        (Token.number ('-' :: canonical literal) :: out)).Yields v := by
  intro hv
  obtain ⟨out, -, hout⟩ := hv.of_bind
  rw [← List.singleton_append, Machine.evaluate_append, Machine.run_number] at hout
  obtain ⟨stack, hstack, -⟩ := hout.of_bind
  obtain ⟨x, hread, -⟩ := map_eq_ok.mp (Drawing.yields_still.mp hstack)
  have hnone := NumberLiteral.readLiteral_negative isLiteral room
  rw [h, mapError_eq_ok.mp hread] at hnone
  cases hnone

end

section

variable (builtin : c.registry = .builtin) (isLiteral : literal ∈ NumberLiteral.grammar)
  (room : (literal.filter Text.isDigit).length ≤ c.settings.precision)

include builtin isLiteral room

theorem evaluate_bound (named : c.tokenize name = .ok [Token.reference name])
    (bound : vars.find? name = some binding) (isValue : binding.IsLiteral literal)
    (goesOn : GoesOn after) :
    Agree (· = ·) (c.evaluate ('-' :: (literal ++ after)) vars)
      (c.evaluate ('-' :: (name ++ after)) vars) := by
  have hlexicon := lexicon_of_builtin builtin
  have notBlank : ∀ text : List Char, ('-' :: text).all Text.isBlank = false := fun text => by
    rw [List.all_cons, show Text.isBlank '-' = false by decide, Bool.false_and]
  have isName : Lexeme.Alone ({} : Lexicon).symbols .word name := by
    have halone := Lexicon.alone_of_reference named (List.mem_singleton_self _)
    rw [hlexicon] at halone
    exact halone.2.1
  obtain ⟨value, hresolve, hvalue⟩ := resolve_literal builtin isLiteral room bound isValue
  have hagree : Drawing.Agree (· = ·) (c.compute ('-' :: (literal ++ after)) vars)
      (c.compute ('-' :: (name ++ after)) vars) := by
    rw [compute_eq c (notBlank _), compute_eq c (notBlank _), reversePolishWith, reversePolishWith,
      Drawing.bind_assoc, Drawing.bind_assoc, builtin, tokenize, tokenize, hlexicon]
    refine (Drawing.agree_still (Lexicon.tokenize_minus isLiteral isName goesOn)).bind
      fun ts ts' hts => ?_
    obtain ⟨rest, goOn, rfl, rfl⟩ := hts
    rw [row_number, row_negate goOn, hresolve, Drawing.bind_map, Drawing.bind_assoc]
    cases value with
    | error failure =>
        refine Drawing.agree_of_not_yields (not_yields_row isLiteral room hvalue.symm _)
          fun v hv => ?_
        cases Drawing.yields_still.mp hv
    | ok x =>
        show Drawing.Agree _ _ (((c.rowAfter (c.resolve vars) rest).map _).bind _)
        rw [Drawing.bind_map]
        refine (Drawing.agree_refl (R := Eq) (fun _ => rfl) _).bind fun out _ heq => ?_
        obtain rfl := heq
        exact rows_agree isLiteral room hvalue out
  exact (hagree c.generator).1

/-- **Unary minus means the same before a literal and before a variable** that is bound to it. Let
the precision have room for all digits of the literal, and let the text after it be empty or begin
with an operator between operands that is no word. Then both lines have the same value, or both
have none. The line with the literal may also be evaluated without the binding, if it does not
reach the variable. -/
theorem evaluate_minus (vars : Variables) (named : c.tokenize name = .ok [Token.reference name])
    (isValue : binding.IsLiteral literal) (goesOn : GoesOn after) :
    Agree (· = ·) (c.evaluate ('-' :: (literal ++ after)) (vars.bind name binding))
        (c.evaluate ('-' :: (name ++ after)) (vars.bind name binding)) ∧
      (¬c.Reaches vars ('-' :: (literal ++ after)) name →
        Agree (· = ·) (c.evaluate ('-' :: (literal ++ after)) vars)
          (c.evaluate ('-' :: (name ++ after)) (vars.bind name binding))) := by
  have bound : (vars.bind name binding).find? name = some binding := by
    rw [Variables.find?_bind, if_pos rfl]
  have hagree := evaluate_bound builtin isLiteral room named bound isValue goesOn
  refine ⟨hagree, fun unreached => ?_⟩
  rw [← evaluate_bind_of_not_reaches unreached binding]
  exact hagree

end

/-- The base of a power: the sign belongs to it in `-1_000.50^2-y` and in `-x^2-y`, so they have one
value where `y` is three. -/
theorem evaluate_minus_power :
    let vars : Variables := .ofList [(['y'], .number (.finite ⟨false, 3, 0⟩))]
    let binding : Binding := .number (.finite ⟨false, 100050, -2⟩)
    ({} : Calculator).evaluate "-1_000.50^2-y".toList vars =
        .ok ⟨.finite ⟨false, 10009972500, -4⟩, none⟩ ∧
      Agree (· = ·) (({} : Calculator).evaluate "-1_000.50^2-y".toList vars)
        (({} : Calculator).evaluate "-x^2-y".toList (vars.bind ['x'] binding)) := by
  intro vars binding
  have isLiteral : "1_000.50".toList ∈ NumberLiteral.grammar := by
    have hlength : NumberLiteral.length "1_000.50".toList ≠ 0 := by decide
    exact NumberLiteral.take_length_mem hlength
  have room : ("1_000.50".toList.filter Text.isDigit).length ≤
      ({} : Calculator).settings.precision := by
    decide
  have named : ({} : Calculator).tokenize ['x'] = .ok [Token.reference ['x']] := by decide +kernel
  have isValue : binding.IsLiteral "1_000.50".toList := by
    show Number.read? _ = _
    decide +kernel
  have unreached : ¬({} : Calculator).Reaches vars "-1_000.50^2-y".toList ['x'] := by
    intro h
    cases h with
    | occurs occurs =>
        have htokens : ({} : Calculator).tokenize "-1_000.50^2-y".toList =
            .ok [.number "-1000.50".toList, .operator ['^'], .number ['2'], .operator ['-'],
              .reference ['y']] := by
          decide +kernel
        exact absurd (occurs.mem_texts htokens) (by decide)
    | through _ refers =>
        -- nothing is bound to an expression
        obtain ⟨definition, bound, _⟩ := refers
        exact absurd (Variables.mem_expressions_of_find? bound) List.not_mem_nil
  refine ⟨by decide +kernel, ?_⟩
  exact (evaluate_minus rfl isLiteral room vars named isValue (by decide +kernel)).2 unreached

/-- **A factorial and an operator that is a word** are read otherwise. The factorial is taken of the
literal with its sign, but of the variable before the minus; and a word goes on the name of the
variable, so that another one is asked for. -/
theorem evaluate_minus_factorial :
    (let vars : Variables := .ofList [(['x'], .expression ['2'])]
    (∃ e ∈ Builtin.entries, e.fixity = .after ∧ e.symbol <+: ['!']) ∧
      ({} : Calculator).evaluate "-2!".toList vars =
        .error (.fault (.domain .factorialOfNegative)) ∧
      ({} : Calculator).evaluate "-x!".toList vars = .ok ⟨.finite ⟨true, 2, 0⟩, none⟩ ∧
      ¬Agree (· = ·) (({} : Calculator).evaluate "-2!".toList vars)
        (({} : Calculator).evaluate "-x!".toList vars)) ∧
    (let vars : Variables := .ofList [(['x'], .expression ['0'])]
    (∃ e ∈ Builtin.entries, e.fixity = .between ∧ e.symbol <+: "nPr0".toList) ∧
      ({} : Calculator).evaluate "-0nPr0".toList vars = .ok ⟨.finite ⟨false, 1, 0⟩, none⟩ ∧
      ({} : Calculator).evaluate "-xnPr0".toList vars =
        .error (.fault (.undefinedVariable "xnPr".toList)) ∧
      ¬Agree (· = ·) (({} : Calculator).evaluate "-0nPr0".toList vars)
        (({} : Calculator).evaluate "-xnPr0".toList vars)) := by
  constructor
  · intro vars
    have hliteral : ({} : Calculator).evaluate "-2!".toList vars =
        .error (.fault (.domain .factorialOfNegative)) := by
      decide +kernel
    have hvariable : ({} : Calculator).evaluate "-x!".toList vars =
        .ok ⟨.finite ⟨true, 2, 0⟩, none⟩ := by
      decide +kernel
    refine ⟨by decide +kernel, hliteral, hvariable, ?_⟩
    rw [hliteral, hvariable]
    nofun
  · intro vars
    have hliteral : ({} : Calculator).evaluate "-0nPr0".toList vars =
        .ok ⟨.finite ⟨false, 1, 0⟩, none⟩ := by
      decide +kernel
    have hvariable : ({} : Calculator).evaluate "-xnPr0".toList vars =
        .error (.fault (.undefinedVariable "xnPr".toList)) := by
      decide +kernel
    refine ⟨by decide +kernel, hliteral, hvariable, ?_⟩
    rw [hliteral, hvariable]
    nofun

end Calculator

end DecimalCalc
