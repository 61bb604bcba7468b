import DecimalCalc.Proofs.MachineSteps
import DecimalCalc.Proofs.MaximalMunch
import DecimalCalc.Proofs.Reordering
import DecimalCalc.Proofs.Substitution
import DecimalCalc.Proofs.TokenRules

/-!
# What may be wrong with an expression

Each stage of an evaluation fails in ways of its own. A line that has no tokens is unreadable
somewhere or has a misplaced factorial (`Lexicon.tokenize_fails`); that reading makes no progress
can only happen if the empty text is a symbol. Once all references are replaced, the expression is
out of order or some operation has no result. So whatever else is wrong comes from the variables
(`Calculator.evaluateWith_fails`).
-/

set_option autoImplicit false

namespace DecimalCalc

namespace Failure

/-- What may be wrong with a line when it is read. -/
def OfReading (symbols : List (List Char)) : Failure → Prop
  | .fault (.unreadable _ _) | .fault (.misplacedFactorial _) => True
  | .stalled _ => [] ∈ symbols
  | _ => False

/-- Nothing is wrong with a row of lexemes but a factorial in the wrong place. -/
def Misplaced (failure : Failure) : Prop :=
  ∃ position, failure = .fault (.misplacedFactorial position)

theorem Misplaced.ofReading {symbols : List (List Char)} {failure : Failure}
    (h : failure.Misplaced) : failure.OfReading symbols := by
  obtain ⟨position, rfl⟩ := h
  exact trivial

/-- What may be wrong with an expression that refers to no variables any more. -/
def OfComputing : Failure → Prop
  | .fault (.mismatchedParentheses _) | .fault (.misplacedSeparator _)
  | .fault (.unexpectedToken _) | .fault (.unknownSymbol _) | .fault (.tooFewOperands _ _)
  | .fault (.notOneResult _) | .fault (.domain _) | .signal _ => True
  | _ => False

theorem ofComputing_ofOperation (cause : OperationError) : (ofOperation cause).OfComputing := by
  cases cause <;> exact trivial

end Failure

/-! ## Reading -/

namespace Lexeme

variable {symbols : List (List Char)} {text : List Char} {kind : LexemeKind} {n : Nat}

/-- What is neither a number nor a symbol is not empty. -/
theorem plainAt?_inv (h : plainAt? text = some (kind, n)) :
    0 < n ∧ kind ≠ .number ∧ kind ≠ .symbol := by
  have hchooses := plainAt?_chooses text
  rw [h] at hchooses
  obtain ⟨w, read, hne, rfl⟩ := hchooses
  obtain ⟨L, hL, _⟩ := read.exists_mem
  refine ⟨List.length_pos_of_ne_nil hne, ?_, ?_⟩
  · rintro rfl
    simp [plainAlternatives] at hL
  · rintro rfl
    simp [plainAlternatives] at hL

/-- Where no symbol is read, there are some, and none of them is empty. -/
theorem symbolAt?_eq_none (h : symbolAt? symbols text = none) : symbols ≠ [] ∧ [] ∉ symbols := by
  rw [symbolAt?] at h
  split at h
  · cases h
  · rename_i hsome
    have hnone := longestSymbol?_eq_none_iff.mp (Option.map_eq_none_iff.mp h)
    exact ⟨by simpa using hsome, fun hmem => hnone [] hmem List.nil_prefix⟩

theorem symbolAt?_eq_some (h : symbolAt? symbols text = some (kind, n)) :
    kind = .symbol ∧ (symbols ≠ [] → text.take n ∈ symbols) := by
  rw [symbolAt?] at h
  split at h
  · rename_i hempty
    obtain ⟨rfl, rfl⟩ := Prod.mk.inj (Option.some.inj h)
    exact ⟨rfl, fun exist => absurd (List.isEmpty_iff.mp hempty) exist⟩
  · obtain ⟨s, hlongest, heq⟩ := Option.map_eq_some_iff.mp h
    obtain ⟨rfl, rfl⟩ := Prod.mk.inj heq
    obtain ⟨hmem, hpre, _⟩ := longestSymbol?_eq_some_iff.mp hlongest
    rw [← List.prefix_iff_eq_take.mp hpre]
    exact ⟨rfl, fun _ => hmem⟩

/-- What a lexeme at the start of a text may be. -/
theorem at?_inv (h : at? symbols text = some (kind, n)) :
    (kind = .number ∧ 0 < n) ∨ symbolAt? symbols text = some (kind, n) ∨
      (symbolAt? symbols text = none ∧ plainAt? text = some (kind, n)) := by
  rw [at?] at h
  split at h
  · rename_i hnumber
    obtain ⟨rfl, rfl⟩ := Prod.mk.inj (Option.some.inj h)
    exact .inl ⟨rfl, by omega⟩
  · cases hsymbol : symbolAt? symbols text with
    | some choice =>
        rw [hsymbol] at h
        exact .inr (.inl h)
    | none =>
        rw [hsymbol] at h
        exact .inr (.inr ⟨rfl, h⟩)

/-- Only a symbol can be empty. -/
theorem nil_mem_of_at? (exist : symbols ≠ []) (h : at? symbols text = some (kind, 0)) :
    [] ∈ symbols := by
  rcases at?_inv h with ⟨_, hpos⟩ | hsymbol | ⟨_, hplain⟩
  · exact absurd hpos (by decide)
  · exact (symbolAt?_eq_some hsymbol).2 exist
  · exact absurd (plainAt?_inv hplain).1 (by decide)

theorem lexFrom_fails (exist : symbols ≠ []) (text : List Char) : ∀ position skip,
    (lexFrom symbols position skip text).FailsWith (Failure.OfReading symbols) := by
  induction text with
  | nil =>
      intro position skip
      cases skip <;> exact Except.failsWith_ok []
  | cons c rest ih =>
      intro position skip
      cases skip with
      | succ skip => exact ih (position + 1) skip
      | zero =>
          rw [lexFrom]
          split
          · exact Except.failsWith_error trivial
          · rename_i hat
            exact Except.failsWith_error (nil_mem_of_at? exist hat)
          · rename_i kind more _
            exact (ih (position + 1) more).bind fun others _ => Except.failsWith_ok _

/-- Each lexeme of a text is one at the start of some rest of it. -/
theorem at?_of_mem (text : List Char) : ∀ {position skip : Nat} {lexemes : List Lexeme},
    lexFrom symbols position skip text = .ok lexemes → ∀ l ∈ lexemes,
      ∃ rest n, at? symbols rest = some (l.kind, n) ∧ l.text = rest.take n := by
  induction text with
  | nil =>
      intro position skip lexemes h l hl
      cases skip <;> (obtain rfl := Except.ok.inj h; cases hl)
  | cons c rest ih =>
      intro position skip lexemes h l hl
      cases skip with
      | succ skip => exact ih h l hl
      | zero =>
          obtain ⟨kind, more, others, hat, hrest, rfl⟩ := lexFrom_cons_inv h
          rcases List.mem_cons.mp hl with rfl | hl
          · exact ⟨c :: rest, more + 1, hat, rfl⟩
          · exact ih hrest l hl

/-- The text of a symbol is one. -/
theorem mem_symbols_of_mem (exist : symbols ≠ []) {lexemes : List Lexeme}
    (h : lex symbols text = .ok lexemes) {l : Lexeme} (hl : l ∈ lexemes)
    (hsymbol : l.kind = .symbol) : l.text ∈ symbols := by
  obtain ⟨rest, n, hat, htext⟩ := at?_of_mem text h l hl
  rw [htext]
  rcases at?_inv hat with ⟨hnumber, _⟩ | hat | ⟨_, hplain⟩
  · rw [hsymbol] at hnumber
    cases hnumber
  · exact (symbolAt?_eq_some hat).2 exist
  · exact absurd hsymbol (plainAt?_inv hplain).2.2

end Lexeme

/-- A symbol of a registry has an entry. -/
theorem Registry.exists_lookup {registry : Registry} {symbol : List Char}
    (h : symbol ∈ registry.symbols) : ∃ entry, registry.lookup symbol = .ok entry := by
  obtain ⟨entry, hentry, rfl⟩ := List.mem_map.mp h
  have hfind : (registry.find? entry.symbol).isSome = true := by
    rw [Registry.find?, List.find?_isSome]
    exact ⟨entry, hentry, by simp⟩
  obtain ⟨found, hfound⟩ := Option.isSome_iff_exists.mp hfind
  exact ⟨found, by rw [lookup, hfound]⟩

namespace Token

variable {lexicon : Lexicon}

theorem ofSymbol_fails {symbol : List Char} (hmem : symbol ∈ lexicon.symbols)
    (hconstant : symbol ∉ lexicon.constants) (last : Option Token) (position : Nat) :
    (ofSymbol lexicon last symbol position).FailsWith Failure.Misplaced := by
  rw [ofSymbol]
  split
  · split
    · exact Except.failsWith_ok _
    · exact Except.failsWith_error ⟨position, rfl⟩
  · -- a symbol that is no constant has an entry
    have hsymbol : symbol ∈ lexicon.registry.symbols :=
      (List.mem_append.mp hmem).resolve_right hconstant
    obtain ⟨entry, hentry⟩ := Registry.exists_lookup hsymbol
    rw [hentry]
    exact Except.failsWith_ok _

theorem ofLexemesAfter_fails (last : Option Token) (bars : Nat) (lexemes : List Lexeme) :
    (∀ l ∈ lexemes, l.kind = .symbol → l.text ∈ lexicon.symbols) →
      (ofLexemesAfter lexicon last bars lexemes).FailsWith Failure.Misplaced := by
  induction last, bars, lexemes using turns lexicon with
  | nil last bars => exact fun _ => Except.failsWith_ok []
  | @stuck last l failure bars rest hstuck =>
      intro h
      have hmem : l.text ∈ lexicon.symbols := h l List.mem_cons_self hstuck.kind
      have hconstant : l.text ∉ lexicon.constants := by simpa using hstuck.constant
      rw [hstuck.eq]
      exact Except.failsWith_error
        (ofSymbol_fails hmem hconstant last l.position failure hstuck.fails)
  | turn rest first ih =>
      intro h
      rw [first.eq]
      exact (ih fun l hl => h l (List.mem_append_right _ hl)).map _

end Token

/-- Nothing is wrong with a line that has lexemes but a misplaced factorial. -/
theorem Lexicon.tokenize_misplaced {lexicon : Lexicon} (exist : lexicon.symbols ≠ [])
    {line : List Char} {lexemes : List Lexeme}
    (hlex : Lexeme.lex lexicon.symbols line = .ok lexemes) :
    (lexicon.tokenize line).FailsWith Failure.Misplaced := by
  have hsymbols : ∀ l ∈ lexemes, l.kind = .symbol → l.text ∈ lexicon.symbols :=
    fun l hl => Lexeme.mem_symbols_of_mem exist hlex hl
  rw [tokenize, hlex]
  exact (Token.ofLexemesAfter_fails none 0 lexemes hsymbols).bind fun tokens _ =>
    Except.failsWith_ok _

/-- **A line without tokens** is unreadable somewhere, or has a misplaced factorial, unless reading
it makes no progress. -/
theorem Lexicon.tokenize_fails {lexicon : Lexicon} (exist : lexicon.symbols ≠ [])
    (line : List Char) : (lexicon.tokenize line).FailsWith (Failure.OfReading lexicon.symbols) := by
  intro failure h
  cases hlex : Lexeme.lex lexicon.symbols line with
  | ok lexemes => exact (tokenize_misplaced exist hlex failure h).ofReading
  | error failure' =>
      rw [tokenize, hlex] at h
      obtain rfl := Except.error.inj h
      exact Lexeme.lexFrom_fails exist line 0 0 _ hlex

/-! ## Reordering and running -/

/-- **What may befall any row of tokens**, whatever its symbols are: a property of failures that all
these have is one of the later stages, if the failures to look a symbol up have it too. -/
structure Failure.Common (P : Failure → Prop) : Prop where
  parentheses : ∀ t, P (.fault (.mismatchedParentheses t))
  separator : ∀ t, P (.fault (.misplacedSeparator t))
  operands : ∀ present needed, P (.fault (.tooFewOperands present needed))
  results : ∀ count, P (.fault (.notOneResult count))
  operation : ∀ cause, P (.ofOperation cause)
  signal : ∀ signal, P (.signal signal)

theorem Failure.common_ofComputing : Failure.Common OfComputing where
  parentheses _ := trivial
  separator _ := trivial
  operands _ _ := trivial
  results _ := trivial
  operation := ofComputing_ofOperation
  signal _ := trivial

namespace Registry

theorem lookup_fails (registry : Registry) (symbol : List Char) :
    (registry.lookup symbol).FailsWith fun fault => Failure.OfComputing (.fault fault) := by
  rw [lookup]
  split
  · exact Except.failsWith_ok _
  · exact Except.failsWith_error trivial

end Registry

section Stages

variable {registry : Registry} {P : Failure → Prop} {tokens : List Token} {t : Token}

namespace ReversePolish

/-- **A step fails** at a parenthesis or a separator, or since it does not know its token. -/
theorem step_failsWith (common : Failure.Common P)
    (hlookup : t.kind = .operator →
      (registry.lookup t.text).FailsWith fun fault => P (.fault fault))
    (hunexpected : t.kind = .reference ∨ t.kind = .constant ∨ t.kind = .string →
      P (.fault (.unexpectedToken t))) (stack : List Token) :
    (step registry stack t).FailsWith fun fault => P (.fault fault) := by
  cases hkind : t.kind with
  | number =>
      rw [step_of_number hkind]
      exact Except.failsWith_ok _
  | function | leftParen =>
      rw [step_of_waits (by simp [hkind])]
      exact Except.failsWith_ok _
  | operator =>
      rw [step_of_operator hkind]
      exact (hlookup hkind).map _
  | rightParen =>
      cases hfrom : fromParen stack with
      | nil =>
          rw [step_of_unmatched hkind hfrom]
          exact Except.failsWith_error (common.parentheses t)
      | cons paren below =>
          rw [step_of_rightParen hkind hfrom]
          exact Except.failsWith_ok _
  | separator =>
      cases hfrom : fromParen stack with
      | nil =>
          rw [step_of_misplaced hkind hfrom]
          exact Except.failsWith_error (common.separator t)
      | cons paren below =>
          rw [step_of_separator hkind hfrom]
          exact Except.failsWith_ok _
  | reference | constant | string =>
      have hnone : t.kind = .reference ∨ t.kind = .constant ∨ t.kind = .string := by simp [hkind]
      rw [step_of_unexpected hnone]
      exact Except.failsWith_error (hunexpected hnone)

/-- **Reordering fails** as a step does, or since a parenthesis is left open. -/
theorem reorderFrom_failsWith (common : Failure.Common P)
    (hstep : ∀ t ∈ tokens, ∀ stack,
      (step registry stack t).FailsWith fun fault => P (.fault fault)) :
    ∀ stack, (reorderFrom registry stack tokens).FailsWith fun fault => P (.fault fault) := by
  induction tokens with
  | nil =>
      intro stack
      rw [reorderFrom, finish]
      split
      · exact Except.failsWith_error (common.parentheses _)
      · exact Except.failsWith_ok _
  | cons t tokens ih =>
      intro stack
      obtain ⟨ht, htokens⟩ := List.forall_mem_cons.mp hstep
      exact (ht stack).bind fun result _ =>
        (ih htokens result.2).bind fun rest _ => Except.failsWith_ok _

theorem reorderFrom_fails (tokens stack : List Token) :
    (reorderFrom registry stack tokens).FailsWith fun fault =>
      Failure.OfComputing (.fault fault) :=
  reorderFrom_failsWith Failure.common_ofComputing (fun t _ => step_failsWith
    Failure.common_ofComputing (fun _ => registry.lookup_fails t.text) fun _ => trivial) stack

end ReversePolish

namespace Machine

variable {s : Settings}

theorem apply_failsWith (common : Failure.Common P) (entry : Entry) (stack : List Value) :
    (apply s entry stack).FailsWith P := by
  rw [apply]
  split
  · exact Drawing.failsWith_error (common.operands _ _)
  · exact (Drawing.FailsWith.mapError fun _ cause _ => common.operation cause).map _

/-- **A step of the machine fails** as an operation does, or since it does not know its token. -/
theorem step_failsWith (common : Failure.Common P)
    (hlookup : t.kind = .operator ∨ t.kind = .function →
      (registry.lookup t.text).FailsWith fun fault => P (.fault fault))
    (hunexpected : t.kind ≠ .number → ¬(t.kind = .operator ∨ t.kind = .function) →
      P (.fault (.unexpectedToken t))) (stack : List Value) :
    (step registry s stack t).FailsWith P := by
  by_cases hnumber : t.kind = .number
  · rw [step_number hnumber]
    exact Drawing.failsWith_still <|
      (Except.FailsWith.mapError fun cause _ => common.operation cause).map _
  by_cases hsymbol : t.kind = .operator ∨ t.kind = .function
  · rw [step_symbol hsymbol]
    exact (Drawing.failsWith_still (hlookup hsymbol).mapError).bind fun entry _ =>
      apply_failsWith common entry stack
  · rw [step_unexpected hnumber hsymbol]
    exact Drawing.failsWith_error (hunexpected hnumber hsymbol)

/-- **The machine fails** as a step does, or since it does not end with one value that can be shown. -/
theorem evaluate_failsWith (common : Failure.Common P)
    (hstep : ∀ t ∈ tokens, ∀ stack, (step registry s stack t).FailsWith P) :
    (evaluate registry s tokens).FailsWith P := by
  refine (Drawing.failsWith_foldlM hstep []).bind fun stack _ => Drawing.failsWith_still ?_
  unfold answer
  split
  · exact Except.FailsWith.mapError fun signal _ => common.signal signal
  · exact Except.failsWith_error (common.results _)

theorem evaluate_fails (tokens : List Token) :
    (evaluate registry s tokens).FailsWith Failure.OfComputing :=
  evaluate_failsWith Failure.common_ofComputing fun t _ => step_failsWith
    Failure.common_ofComputing (fun _ => registry.lookup_fails t.text) fun _ _ => trivial

end Machine

end Stages

/-! ## Evaluating -/

namespace Calculator

variable {c : Calculator} {P : Failure → Prop} {valueOf : List Char → Drawing Failure Number}

theorem constantValue_fails (token : Token) :
    (c.constantValue token).FailsWith Failure.OfComputing := by
  rw [constantValue]
  split
  · exact Except.FailsWith.mapError fun cause _ => Failure.ofComputing_ofOperation cause
  · exact Except.failsWith_error trivial

theorem substitute_failsWith {tokens : List Token}
    (h : ∀ t ∈ tokens, (c.substituteToken valueOf t).FailsWith P) :
    (c.substitute valueOf tokens).FailsWith P := by
  induction tokens with
  | nil => exact Drawing.failsWith_ok []
  | cons t tokens ih =>
      obtain ⟨ht, htokens⟩ := List.forall_mem_cons.mp h
      rw [substitute_cons]
      exact ht.bind fun t' _ => (ih htokens).map _

theorem symbols_ne_nil (c : Calculator) : c.lexicon.symbols ≠ [] := by
  simp [lexicon, Lexicon.symbols, Constant.names]

/-- **An evaluation fails** as one of its stages does. -/
theorem evaluateWith_failsWith {text : List Char}
    (hreading : ∀ e, e.OfReading c.lexicon.symbols → P e)
    (hsubstitute : ∀ tokens, c.tokenize text = .ok tokens →
      (c.substitute valueOf tokens).FailsWith P)
    (hreorder : ∀ tokens replaced, c.tokenize text = .ok tokens →
      (c.substitute valueOf tokens).Yields replaced →
        (ReversePolish.reorder c.registry replaced).FailsWith fun fault => P (.fault fault))
    (hrun : ∀ polish, (c.reversePolishWith valueOf text).Yields polish →
      (Machine.evaluate c.registry c.settings polish).FailsWith P) :
    (c.evaluateWith valueOf text).FailsWith P := by
  rw [evaluateWith]
  split
  · exact Drawing.failsWith_ok _
  · have hpolish : (c.reversePolishWith valueOf text).FailsWith P := by
      refine (Drawing.failsWith_still
        ((Lexicon.tokenize_fails c.symbols_ne_nil text).mono hreading)).bind fun tokens h => ?_
      have htokens := Drawing.yields_still.mp h
      exact (hsubstitute tokens htokens).bind fun replaced hreplaced =>
        Drawing.failsWith_still
          (Except.FailsWith.mapError (hreorder tokens replaced htokens hreplaced))
    exact hpolish.bind fun polish h => hrun polish h

/-- **An evaluation fails** as reading, computing or one of the variables does. -/
theorem evaluateWith_fails (hreading : ∀ e, e.OfReading c.lexicon.symbols → P e)
    (hcomputing : ∀ e, e.OfComputing → P e) {text : List Char}
    (hvalue : ∀ tokens name, c.tokenize text = .ok tokens → Token.reference name ∈ tokens →
      (valueOf name).FailsWith P) :
    (c.evaluateWith valueOf text).FailsWith P := by
  refine evaluateWith_failsWith hreading (fun tokens htokens => ?_) (fun _ replaced _ _ => ?_)
    fun polish _ => (Machine.evaluate_fails polish).mono hcomputing
  · refine substitute_failsWith fun t ht => ?_
    obtain ⟨kind, text⟩ := t
    cases kind with
    | constant =>
        exact Drawing.failsWith_still (((constantValue_fails _).mono hcomputing).map _)
    | reference => exact (hvalue tokens text htokens ht).map _
    | _ => exact Drawing.failsWith_ok _
  · exact (ReversePolish.reorderFrom_fails replaced []).mono fun fault => hcomputing _

end Calculator

end DecimalCalc
