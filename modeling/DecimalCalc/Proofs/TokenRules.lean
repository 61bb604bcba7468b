import DecimalCalc.Proofs.Grammar
import DecimalCalc.Proofs.Outcome
import DecimalCalc.Proofs.TokenTurns

/-!
# What tokenizing promises

The tokens of a line are those of a grammatical registry (`Proper`), and a factorial directly
follows the end of an operand. Both are settled token by token, from the token before, and the
products that are written out afterwards leave them as they are.
-/

set_option autoImplicit false

namespace DecimalCalc

namespace Grammar

variable {registry : Registry}

/-- The tokens that follow `last` are proper, and no factorial among them is misplaced. -/
structure Obeys (registry : Registry) (last : Option Token) (tokens : List Token) : Prop where
  proper : ∀ t ∈ tokens, Proper registry t
  factorials : FactorialsFollow last tokens

theorem obeys_nil (last : Option Token) : Obeys registry last [] :=
  ⟨fun _ ht => absurd ht List.not_mem_nil, trivial⟩

theorem Obeys.cons {last : Option Token} {t : Token} {tokens : List Token}
    (ht : Proper registry t)
    (hlast : t = Token.operator factorialSymbol → last.any Token.endsOperand = true)
    (h : Obeys registry (some t) tokens) : Obeys registry last (t :: tokens) := by
  refine ⟨fun u hu => ?_, hlast, h.factorials⟩
  rcases List.mem_cons.mp hu with rfl | hu
  · exact ht
  · exact h.proper u hu

/-- A token that is no operator is no factorial. -/
theorem Obeys.cons_of_kind {last : Option Token} {t : Token} {tokens : List Token}
    (ht : Proper registry t) (hkind : t.kind ≠ .operator) (h : Obeys registry (some t) tokens) :
    Obeys registry last (t :: tokens) :=
  h.cons ht fun heq => absurd (by rw [heq]; rfl) hkind

/-! ## Lexemes -/

theorem ofSymbol_rules {lexicon : Lexicon} (hgrammar : Grammatical lexicon.registry)
    {last : Option Token} {symbol : List Char} {position : Nat} {t : Token}
    (h : Token.ofSymbol lexicon last symbol position = .ok t) :
    Proper lexicon.registry t ∧
      (t = Token.operator factorialSymbol → last.any Token.endsOperand = true) := by
  rcases Token.ofSymbol_eq_ok_iff.mp h with ⟨rfl, hends, rfl⟩ | ⟨hother, entry, listed, rfl⟩
  · obtain ⟨entry, listed, fixity⟩ := hgrammar.factorial
    exact ⟨.factorial listed fixity (hgrammar.after listed fixity).1, fun _ => hends⟩
  · cases fixity : entry.fixity with
    | before =>
        have hfunction : entry.isFunction = true := by simp [Entry.isFunction, fixity]
        rw [if_pos hfunction]
        exact ⟨.function listed fixity (hgrammar.before listed fixity), fun h => by cases h⟩
    | between =>
        have hoperator : entry.isFunction = false := by simp [Entry.isFunction, fixity]
        rw [hoperator]
        refine ⟨.between listed fixity (hgrammar.between listed fixity).1 hother, fun h => ?_⟩
        exact absurd (congrArg Token.text h) hother
    | after => exact absurd (hgrammar.after listed fixity).2 hother

/-- **A turn obeys the rules** if what comes after it does. -/
theorem turn_obeys {lexicon : Lexicon} (hgrammar : Grammatical lexicon.registry)
    {last : Option Token} {bars bars' : Nat} {front rest : List Lexeme} {read tokens : List Token}
    (turn : Token.Turn lexicon last bars rest front read bars')
    (h : Obeys lexicon.registry (read.getLast?.or last) tokens) :
    Obeys lexicon.registry last (read ++ tokens) := by
  cases turn with
  | space | plus => exact h
  | number | word | constant | signed =>
      exact .cons_of_kind (.atom rfl) (Token.kind_ne_of_isAtom rfl) h
  | leftParen => exact .cons_of_kind .leftParen nofun h
  | rightParen | closes => exact .cons_of_kind .rightParen nofun h
  | separator => exact .cons_of_kind .separator nofun h
  | opens =>
      -- a bar that opens an absolute value stands for a function and its parenthesis
      obtain ⟨entry, listed, fixity⟩ := hgrammar.absolute
      have hparen : Obeys lexicon.registry (some (Token.function absoluteSymbol))
          (Token.leftParen :: tokens) := .cons_of_kind .leftParen nofun h
      exact hparen.cons_of_kind (.function listed fixity (hgrammar.before listed fixity)) nofun
  | minus =>
      -- a sign that no number follows is a function
      obtain ⟨entry, listed, fixity⟩ := hgrammar.negate
      exact .cons_of_kind (.function listed fixity (hgrammar.before listed fixity)) nofun h
  | symbol text position t hconstant hsign hsymbol =>
      obtain ⟨hproper, hlast⟩ := ofSymbol_rules hgrammar hsymbol
      exact .cons hproper hlast h

/-- **Tokens obey the rules** that each of them can be checked for after the one before it. -/
theorem turns_obey {lexicon : Lexicon} (hgrammar : Grammatical lexicon.registry)
    {last : Option Token} {bars : Nat} {lexemes : List Lexeme} {tokens : List Token}
    (h : Token.Turns lexicon last bars lexemes tokens) : Obeys lexicon.registry last tokens := by
  induction h with
  | nil last bars => exact obeys_nil last
  | turn first more ih => exact turn_obeys hgrammar first ih

/-! ## Implied products -/

/-- A token that a product is implied before is no factorial. -/
theorem kind_ne_of_impliesProduct {left right : Token}
    (h : Token.impliesProduct left right = true) : right.kind ≠ .operator := by
  intro hkind
  simp [Token.impliesProduct, Token.startsOperand, hkind] at h

theorem productsAfter_obeys (hgrammar : Grammatical registry) (tokens : List Token) :
    ∀ left : Token, Obeys registry (some left) tokens →
      Obeys registry (some left) (Token.productsAfter left tokens) := by
  induction tokens with
  | nil => exact fun left h => h
  | cons right rest ih =>
      intro left h
      have hright : Proper registry right := h.proper right List.mem_cons_self
      have hrest : Obeys registry (some right) (Token.productsAfter right rest) :=
        ih right ⟨fun t ht => h.proper t (List.mem_cons_of_mem right ht), h.factorials.2⟩
      rw [Token.productsAfter]
      split
      · -- the product comes between the two tokens
        rename_i himplied
        obtain ⟨entry, listed, fixity⟩ := hgrammar.product
        obtain ⟨harity, hother⟩ := hgrammar.between listed fixity
        refine Obeys.cons (.between listed fixity harity hother) (fun h => ?_) ?_
        · exact absurd (congrArg Token.text h) hother
        · exact hrest.cons_of_kind hright (kind_ne_of_impliesProduct himplied)
      · exact hrest.cons hright h.factorials.1

/-- **The tokens of a line** are proper, and each factorial directly follows the end of an operand.
-/
theorem tokenize_obeys {lexicon : Lexicon} (hgrammar : Grammatical lexicon.registry)
    {line : List Char} {tokens : List Token} (h : lexicon.tokenize line = .ok tokens) :
    Obeys lexicon.registry none tokens := by
  obtain ⟨lexemes, read, _, hturns, rfl⟩ := Lexicon.tokenize_eq_ok_iff.mp h
  have hobeys := turns_obey hgrammar hturns
  cases read with
  | nil => exact hobeys
  | cons first rest =>
      have htail : Obeys lexicon.registry (some first) rest :=
        ⟨fun t ht => hobeys.proper t (List.mem_cons_of_mem first ht), hobeys.factorials.2⟩
      exact (productsAfter_obeys hgrammar rest first htail).cons
        (hobeys.proper first List.mem_cons_self) hobeys.factorials.1

end Grammar

end DecimalCalc
