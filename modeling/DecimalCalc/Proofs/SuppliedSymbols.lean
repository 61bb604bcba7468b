import DecimalCalc.Proofs.LexingProgress
import DecimalCalc.Proofs.PrecisionClosure

/-!
# Symbols that no line spells

Most symbols among the tokens of a line are read from it, and so they have entries. Three are
supplied whatever the registry holds: the unary minus, the function that bars stand for, and the
implied product (`Supplied`). Reordering and running look up no symbols but those of their tokens,
so these three are the only ones that they may not know, and only where the registry lacks them
(`Lexicon.tokenize_supplies`).
-/

set_option autoImplicit false

namespace DecimalCalc

/-! ## Symbols of a line -/

namespace Lexeme

/-- **The text of a symbol is one**, whether there are any or not. -/
theorem mem_symbols_of_lex {symbols : List (List Char)} {line : List Char} {lexemes : List Lexeme}
    (h : lex symbols line = .ok lexemes) {l : Lexeme} (hl : l ∈ lexemes)
    (hsymbol : l.kind = .symbol) : l.text ∈ symbols := by
  by_cases exist : symbols = []
  · -- without symbols only the empty text is read as one, which ends no line
    subst exist
    have hends : ¬Endless [] line := by
      intro hendless
      obtain ⟨position, hstalled⟩ := lex_of_endless hendless
      rw [h] at hstalled
      cases hstalled
    rcases lex_of_ends hends with ⟨others, hlex, _, hnonempty⟩ | ⟨rest, position, hlex⟩
    · obtain rfl : lexemes = others := Except.ok.inj (h.symm.trans hlex)
      obtain ⟨rest, n, hat, htext⟩ := at?_of_mem line h l hl
      rcases at?_inv hat with ⟨hnumber, _⟩ | hempty | ⟨_, hplain⟩
      · rw [hsymbol] at hnumber
        cases hnumber
      · obtain ⟨_, rfl⟩ := Prod.mk.inj (Option.some.inj hempty)
        exact absurd htext (hnonempty l hl)
      · exact absurd hsymbol (plainAt?_inv hplain).2.2
    · rw [h] at hlex
      cases hlex
  · exact mem_symbols_of_mem exist h hl hsymbol

end Lexeme

namespace Token

variable {lexicon : Lexicon} {t : Token}

/-- **The tokens that are supplied**: the unary minus, the function that a pair of bars stands for,
and the product that is implied between neighbouring operands. -/
inductive Supplied : Token → Prop
  | negate : Supplied (function negateSymbol)
  | absolute : Supplied (function absoluteSymbol)
  | product : Supplied (operator productSymbol)

/-- Whether a token is an operator or a function. -/
def IsSymbol (t : Token) : Prop := t.kind = .operator ∨ t.kind = .function

/-- **A symbol that is accounted for**: it has an entry, or it is supplied. -/
def Accounted (registry : Registry) (t : Token) : Prop :=
  t.IsSymbol → t.text ∈ registry.symbols ∨ Supplied t

theorem accounted_of_kind {registry : Registry} (h : t.kind ≠ .operator) (h' : t.kind ≠ .function) :
    Accounted registry t := by
  rintro (hkind | hkind)
  · exact absurd hkind h
  · exact absurd hkind h'

theorem Supplied.accounted {registry : Registry} (h : Supplied t) : Accounted registry t :=
  fun _ => .inr h

/-- **Each symbol is accounted for** in the turn in which it is read. -/
theorem Turn.accounted {last : Option Token} {bars bars' : Nat} {front rest : List Lexeme}
    {read : List Token} (turn : Turn lexicon last bars rest front read bars')
    (h : ∀ l ∈ front, l.kind = .symbol → l.text ∈ lexicon.symbols) :
    ∀ t ∈ read, Accounted lexicon.registry t := by
  cases turn with
  | space | plus => exact nofun
  | opens =>
      exact List.forall_mem_cons.mpr ⟨Supplied.absolute.accounted,
        List.forall_mem_singleton.mpr (accounted_of_kind (by rintro ⟨⟩) (by rintro ⟨⟩))⟩
  | minus => exact List.forall_mem_singleton.mpr Supplied.negate.accounted
  | symbol text position t hconstant hsign hsymbol =>
      -- a symbol that is no constant has an entry
      have hmem : text ∈ lexicon.registry.symbols := by
        have hlisted : text ∈ lexicon.symbols := h _ List.mem_cons_self rfl
        exact (List.mem_append.mp hlisted).resolve_right (by simpa using hconstant)
      have htext : t.text = text := by
        rcases (ofSymbol_eq_ok hsymbol).1 with rfl | rfl <;> rfl
      exact List.forall_mem_singleton.mpr fun _ => .inl (htext ▸ hmem)
  | _ => exact List.forall_mem_singleton.mpr (accounted_of_kind (by rintro ⟨⟩) (by rintro ⟨⟩))

/-- **All symbols are accounted for** when lexemes become tokens. -/
theorem Turns.accounted {last : Option Token} {bars : Nat} {lexemes : List Lexeme}
    {tokens : List Token} (turns : Turns lexicon last bars lexemes tokens) :
    (∀ l ∈ lexemes, l.kind = .symbol → l.text ∈ lexicon.symbols) →
      ∀ t ∈ tokens, Accounted lexicon.registry t := by
  induction turns with
  | nil last bars => exact fun _ => nofun
  | turn first more ih =>
      intro h
      rw [List.forall_mem_append] at h ⊢
      exact ⟨first.accounted h.1, ih h.2⟩

/-- The products that are written out are supplied too. -/
theorem productsAfter_accounted {registry : Registry} (tokens : List Token) : ∀ left : Token,
    (∀ t ∈ tokens, Accounted registry t) →
      ∀ t ∈ productsAfter left tokens, Accounted registry t := by
  induction tokens with
  | nil => exact fun left h => h
  | cons right rest ih =>
      intro left h
      obtain ⟨hright, hrest⟩ := List.forall_mem_cons.mp h
      have htail := List.forall_mem_cons.mpr ⟨hright, ih right hrest⟩
      rw [productsAfter]
      split
      · exact List.forall_mem_cons.mpr ⟨Supplied.product.accounted, htail⟩
      · exact htail

theorem insertProducts_accounted {registry : Registry} {tokens : List Token}
    (h : ∀ t ∈ tokens, Accounted registry t) : ∀ t ∈ insertProducts tokens, Accounted registry t := by
  cases tokens with
  | nil => exact h
  | cons first rest =>
      obtain ⟨hfirst, hrest⟩ := List.forall_mem_cons.mp h
      exact List.forall_mem_cons.mpr ⟨hfirst, productsAfter_accounted rest first hrest⟩

end Token

theorem Lexicon.tokenize_accounted (lexicon : Lexicon) (line : List Char) :
    (lexicon.tokenize line).Gives fun tokens => ∀ t ∈ tokens, t.Accounted lexicon.registry := by
  intro tokens h
  obtain ⟨lexemes, read, hlex, hturns, rfl⟩ := tokenize_eq_ok_iff.mp h
  have hsymbols : ∀ l ∈ lexemes, l.kind = .symbol → l.text ∈ lexicon.symbols :=
    fun l hl => Lexeme.mem_symbols_of_lex hlex hl
  exact Token.insertProducts_accounted (hturns.accounted hsymbols)

/-! ## Symbols that are looked up -/

variable {registry : Registry}

theorem Registry.lookup_unknown (symbol : List Char) :
    (registry.lookup symbol).FailsWith fun fault =>
      fault = .unknownSymbol symbol ∧ symbol ∉ registry.symbols := by
  intro fault h
  have hnone : registry.lookup symbol = .error (.unknownSymbol symbol) := by
    rw [lookup] at h ⊢
    cases hfind : registry.find? symbol with
    | none => rfl
    | some entry =>
        rw [hfind] at h
        cases h
  rw [hnone] at h
  refine ⟨(Except.error.inj h).symm, fun hmem => ?_⟩
  obtain ⟨entry, hentry⟩ := Registry.exists_lookup hmem
  rw [hnone] at hentry
  cases hentry

namespace Failure

/-- **Whatever is unknown is a symbol among some tokens** that has no entry. -/
def UnknownAmong (registry : Registry) (tokens : List Token) : Failure → Prop
  | .fault (.unknownSymbol symbol) =>
    symbol ∉ registry.symbols ∧ ∃ t ∈ tokens, t.IsSymbol ∧ t.text = symbol
  | _ => True

variable {tokens tokens' : List Token} {failure : Failure}

theorem UnknownAmong.mono (h : failure.UnknownAmong registry tokens)
    (hsubset : ∀ t ∈ tokens, t.IsSymbol → t ∈ tokens') : failure.UnknownAmong registry tokens' := by
  cases failure with
  | fault fault =>
      cases fault with
      | unknownSymbol symbol =>
          obtain ⟨habsent, t, ht, hsymbol, htext⟩ := h
          exact ⟨habsent, t, hsubset t ht hsymbol, hsymbol, htext⟩
      | _ => exact trivial
  | _ => exact trivial

theorem unknownAmong_ofOperation (cause : OperationError) :
    (ofOperation cause).UnknownAmong registry tokens := by
  cases cause <;> exact trivial

theorem common_unknownAmong (registry : Registry) (tokens : List Token) :
    Common (UnknownAmong registry tokens) where
  parentheses _ := trivial
  separator _ := trivial
  operands _ _ := trivial
  results _ := trivial
  operation := unknownAmong_ofOperation
  signal _ := trivial

end Failure

/-- A symbol that is looked up is one of the tokens. -/
theorem Registry.lookup_unknownAmong {t : Token} {tokens : List Token} (ht : t ∈ tokens)
    (h : t.IsSymbol) : (registry.lookup t.text).FailsWith fun fault =>
      (Failure.fault fault).UnknownAmong registry tokens := by
  refine (registry.lookup_unknown t.text).mono ?_
  rintro _ ⟨rfl, habsent⟩
  exact ⟨habsent, t, ht, h, rfl⟩

/-- **Reordering looks up symbols of its tokens only.** -/
theorem ReversePolish.reorder_unknown (tokens : List Token) :
    (reorder registry tokens).FailsWith fun fault =>
      (Failure.fault fault).UnknownAmong registry tokens := by
  have common := Failure.common_unknownAmong registry tokens
  exact reorderFrom_failsWith common (fun t ht => step_failsWith common
    (fun hkind => Registry.lookup_unknownAmong ht (.inl hkind)) fun _ => trivial) []

/-- **The machine looks up symbols of its tokens only.** -/
theorem Machine.evaluate_unknown {s : Settings} (tokens : List Token) :
    (evaluate registry s tokens).FailsWith fun failure =>
      failure.UnknownAmong registry tokens := by
  have common := Failure.common_unknownAmong registry tokens
  exact evaluate_failsWith common fun t ht => step_failsWith common
    (fun hkind => Registry.lookup_unknownAmong ht hkind) fun _ _ => trivial

namespace Lexicon

/-- **Three symbols are supplied, and all others have entries.** An operator or a function among the
tokens of a line is one of the registry's symbols, or it is the unary minus, the function of a pair
of bars or an implied product. Constants and references may be replaced by any numbers: what is then
reported as unknown, while the tokens are reordered or run, is one of these three, which is among
the tokens of the line and has no entry. -/
theorem tokenize_supplies (lexicon : Lexicon) (line : List Char) (tokens : List Token)
    (h : lexicon.tokenize line = .ok tokens) :
    (∀ t ∈ tokens, t.kind = .operator ∨ t.kind = .function →
      t.text ∈ lexicon.registry.symbols ∨ Token.Supplied t) ∧
    ∀ row : List Token, (∀ t ∈ row, t ∈ tokens ∨ t.kind = .number) → ∀ symbol,
      (ReversePolish.reorder lexicon.registry row = .error (.unknownSymbol symbol) →
        symbol ∉ lexicon.registry.symbols ∧ ∃ t ∈ tokens, Token.Supplied t ∧ t.text = symbol) ∧
      ∀ s g out, ReversePolish.reorder lexicon.registry row = .ok out →
        (Machine.evaluate lexicon.registry s out).outcome g =
            .error (.fault (.unknownSymbol symbol)) →
          symbol ∉ lexicon.registry.symbols ∧ ∃ t ∈ tokens, Token.Supplied t ∧ t.text = symbol := by
  have haccounted := tokenize_accounted lexicon line tokens h
  refine ⟨haccounted, fun row hrow symbol => ?_⟩
  have hsupplied : (Failure.fault (.unknownSymbol symbol)).UnknownAmong lexicon.registry row →
      symbol ∉ lexicon.registry.symbols ∧ ∃ t ∈ tokens, Token.Supplied t ∧ t.text = symbol := by
    rintro ⟨habsent, t, ht, hsymbol, rfl⟩
    have hnumber : t.kind ≠ .number := by
      rcases hsymbol with hkind | hkind <;> simp [hkind]
    have hmem : t ∈ tokens := (hrow t ht).resolve_right hnumber
    have hsupplied := (haccounted t hmem hsymbol).resolve_left habsent
    exact ⟨habsent, t, hmem, hsupplied, rfl⟩
  constructor
  · intro hreorder
    exact hsupplied (ReversePolish.reorder_unknown row _ hreorder)
  · intro s g out hout hevaluate
    have hunknown := Machine.evaluate_unknown out g _ hevaluate
    exact hsupplied (hunknown.mono fun t ht _ => ReversePolish.reorder_subset hout t ht)

/-- With nothing but a difference and a product in the registry, `-x|y|` has the symbols `neg` and
`abs` as well. Once `x` and `y` are replaced by numbers the tokens are reordered, and the machine
then stops at the first of the two that it meets. -/
theorem tokenize_supplies_two :
    let lexicon : Lexicon := { registry := ⟨[Entry.between ['-'] 2 Operation.subtract.action .left,
      Entry.between productSymbol 3 Operation.multiply.action .left], false⟩ }
    let row : List Token := [.function negateSymbol, .number ['2'], .operator productSymbol,
      .function absoluteSymbol, .leftParen, .number ['3'], .rightParen]
    ∃ tokens out, lexicon.tokenize "-x|y|".toList = .ok tokens ∧
      ReversePolish.reorder lexicon.registry row = .ok out ∧
      (Machine.evaluate lexicon.registry .initial out).outcome default =
        .error (.fault (.unknownSymbol negateSymbol)) ∧
      negateSymbol ∉ lexicon.registry.symbols ∧
        ∃ t ∈ tokens, Token.Supplied t ∧ t.text = negateSymbol := by
  intro lexicon row
  have htokens : lexicon.tokenize "-x|y|".toList = .ok [.function negateSymbol, .reference ['x'],
      .operator productSymbol, .function absoluteSymbol, .leftParen, .reference ['y'],
      .rightParen] := by decide +kernel
  have hout : ReversePolish.reorder lexicon.registry row = .ok [.number ['2'],
      .function negateSymbol, .number ['3'], .function absoluteSymbol,
      .operator productSymbol] := by decide +kernel
  have hevaluate : (Machine.evaluate lexicon.registry .initial [.number ['2'],
      .function negateSymbol, .number ['3'], .function absoluteSymbol,
      .operator productSymbol]).outcome default =
        .error (.fault (.unknownSymbol negateSymbol)) := by decide +kernel
  have hrow := (tokenize_supplies lexicon "-x|y|".toList _ htokens).2 row (by decide) negateSymbol
  exact ⟨_, _, htokens, hout, hevaluate, hrow.2 .initial default _ hout hevaluate⟩

/-- **Symbols out of nowhere.** An empty registry has none, but `2(3)` has a product among its
tokens, which then is unknown, and so is the function of the bars of `|1|`. -/
theorem tokenize_without_entries :
    let lexicon : Lexicon := { registry := {} }
    lexicon.registry.symbols = [] ∧
      lexicon.tokenize "2(3)".toList = .ok [.number ['2'], .operator productSymbol, .leftParen,
        .number ['3'], .rightParen] ∧
      ReversePolish.reorder lexicon.registry [.number ['2'], .operator productSymbol, .leftParen,
        .number ['3'], .rightParen] = .error (.unknownSymbol productSymbol) ∧
      lexicon.tokenize "|1|".toList = .ok [.function absoluteSymbol, .leftParen, .number ['1'],
        .rightParen] ∧
      (Machine.evaluate lexicon.registry .initial
        [.number ['1'], .function absoluteSymbol]).outcome default =
          .error (.fault (.unknownSymbol absoluteSymbol)) := by
  decide +kernel

end Lexicon

end DecimalCalc
