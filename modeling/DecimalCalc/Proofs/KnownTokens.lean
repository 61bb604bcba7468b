import DecimalCalc.Proofs.Failures
import DecimalCalc.Proofs.Reordering
import DecimalCalc.Proofs.SpacedTokens

/-!
# Tokens that the later stages know

Each stage of an evaluation hands on only tokens that the next one knows. Once constants and
references are replaced, all that is left of a line are numbers, parentheses, separators and symbols
with an entry that fits (`Settled`). Reordering keeps a symbol or an open parenthesis waiting, and
writes out numbers and symbols only (`Runnable`). So neither reordering nor the machine meets a
token that it does not know, in the expression or in that of any variable
(`Calculator.evaluate_knows_tokens`).
-/

set_option autoImplicit false

namespace DecimalCalc

open Grammar

variable {registry : Registry}

/-! ## Known tokens -/

namespace Token

/-- **A symbol with an entry that fits**: a function stands before its operands, and an operator
between or after them. -/
inductive Listed (registry : Registry) : Token → Prop
  | function {symbol : List Char} {entry : Entry} (listed : registry.find? symbol = some entry)
      (fixity : entry.fixity = .before) : Listed registry (Token.function symbol)
  | operator {symbol : List Char} {entry : Entry} (listed : registry.find? symbol = some entry)
      (fixity : entry.fixity = .between ∨ entry.fixity = .after) :
      Listed registry (Token.operator symbol)

/-- **What is left of a line** once its constants and references are replaced. -/
inductive Settled (registry : Registry) : Token → Prop
  | number (text : List Char) : Settled registry (Token.number text)
  | leftParen : Settled registry Token.leftParen
  | rightParen : Settled registry Token.rightParen
  | separator : Settled registry Token.separator
  | symbol {t : Token} (listed : Listed registry t) : Settled registry t

/-- What waits while tokens are reordered. -/
inductive Waiting (registry : Registry) : Token → Prop
  | leftParen : Waiting registry Token.leftParen
  | symbol {t : Token} (listed : Listed registry t) : Waiting registry t

/-- **What the machine runs.** -/
inductive Runnable (registry : Registry) : Token → Prop
  | number (text : List Char) : Runnable registry (Token.number text)
  | symbol {t : Token} (listed : Listed registry t) : Runnable registry t

variable {t : Token}

theorem Listed.kind (h : Listed registry t) : t.kind = .function ∨ t.kind = .operator := by
  cases h with
  | function => exact .inl rfl
  | operator => exact .inr rfl

theorem Listed.lookup (h : Listed registry t) : ∃ entry, registry.lookup t.text = .ok entry := by
  cases h with
  | function listed => exact ⟨_, Registry.lookup_eq_ok.mpr listed⟩
  | operator listed => exact ⟨_, Registry.lookup_eq_ok.mpr listed⟩

theorem Waiting.runnable (h : Waiting registry t) (hkind : t.kind ≠ .leftParen) :
    Runnable registry t := by
  cases h with
  | leftParen => exact absurd rfl hkind
  | symbol listed => exact .symbol listed

theorem Runnable.kind (h : Runnable registry t) :
    t.kind = .number ∨ t.kind = .operator ∨ t.kind = .function := by
  cases h with
  | number => exact .inl rfl
  | symbol listed => exact .inr listed.kind.symm

/-- Numbers and operators can be run when they are met. -/
theorem Settled.runnable (h : Settled registry t) (hkind : t.kind = .number ∨ t.kind = .operator) :
    Runnable registry t := by
  cases h with
  | number text => exact .number text
  | symbol listed => exact .symbol listed
  | leftParen | rightParen | separator => rcases hkind with hkind | hkind <;> cases hkind

/-- Symbols and opening parentheses can wait. -/
theorem Settled.waiting (h : Settled registry t)
    (hkind : t.kind = .operator ∨ t.kind = .function ∨ t.kind = .leftParen) :
    Waiting registry t := by
  cases h with
  | leftParen => exact .leftParen
  | symbol listed => exact .symbol listed
  | number | rightParen | separator => rcases hkind with hkind | hkind | hkind <;> cases hkind

/-- A proper token is settled, if numbers are all the operands there are. -/
theorem settled_of_proper (h : Proper registry t) (numbers : t.isAtom = true → t.kind = .number) :
    Settled registry t := by
  cases h with
  | atom atom =>
      obtain ⟨kind, text⟩ := t
      obtain rfl : kind = .number := numbers atom
      exact .number text
  | leftParen => exact .leftParen
  | rightParen => exact .rightParen
  | separator => exact .separator
  | function listed fixity _ => exact .symbol (.function listed fixity)
  | between listed fixity _ _ => exact .symbol (.operator listed (.inl fixity))
  | factorial listed fixity _ => exact .symbol (.operator listed (.inr fixity))

end Token

/-! ## Failures -/

namespace Failure

/-- Whatever is wrong, it is not that a token is not known. -/
def KnowsTokens : Failure → Prop
  | .fault (.unknownSymbol _) | .fault (.unexpectedToken _) => False
  | _ => True

theorem OfReading.knowsTokens {symbols : List (List Char)} {failure : Failure}
    (h : failure.OfReading symbols) : failure.KnowsTokens := by
  match failure, h with
  | .fault (.unreadable _ _), _ | .fault (.misplacedFactorial _), _ | .stalled _, _ => exact trivial

theorem knowsTokens_ofOperation (cause : OperationError) : (ofOperation cause).KnowsTokens := by
  cases cause <;> exact trivial

theorem common_knowsTokens : Common KnowsTokens where
  parentheses _ := trivial
  separator _ := trivial
  operands _ _ := trivial
  results _ := trivial
  operation := knowsTokens_ofOperation
  signal _ := trivial

end Failure

/-- A symbol with an entry is found. -/
theorem Token.Listed.lookup_fails {t : Token} (h : Token.Listed registry t) (P : Fault → Prop) :
    (registry.lookup t.text).FailsWith P := by
  obtain ⟨entry, hentry⟩ := h.lookup
  rw [hentry]
  exact Except.failsWith_ok entry

/-! ## Reordering -/

namespace ReversePolish

open Token (Settled Waiting Runnable)

variable {stack written stack' tokens out : List Token} {t : Token}

/-- A step knows each settled token. -/
theorem step_knows (h : Settled registry t) (stack : List Token) :
    (step registry stack t).FailsWith fun fault => (Failure.fault fault).KnowsTokens := by
  refine step_failsWith Failure.common_knowsTokens (fun hkind => ?_) (fun hkind => ?_) stack
  · cases h with
    | symbol listed => exact listed.lookup_fails _
    | number | leftParen | rightParen | separator => cases hkind
  · cases h with
    | symbol listed => rcases listed.kind with h | h <;> simp [h] at hkind
    | number | leftParen | rightParen | separator =>
        rcases hkind with hkind | hkind | hkind <;> cases hkind

/-- **A step keeps parentheses and separators back**: what it writes out can be run, and what it
leaves can wait. -/
theorem Move.runnable (h : Move stack t written stack') (ht : Settled registry t)
    (hstack : ∀ u ∈ stack, Waiting registry u) :
    (∀ u ∈ written, Runnable registry u) ∧ ∀ u ∈ stack', Waiting registry u := by
  -- every move but the first two splits the stack above a parenthesis
  have habove : ∀ {above below : List Token}, stack = above ++ below → Unopened above →
      (∀ u ∈ above, Runnable registry u) ∧ ∀ u ∈ below, Waiting registry u := by
    rintro above below rfl unopened
    obtain ⟨habove, hbelow⟩ := List.forall_mem_append.mp hstack
    exact ⟨fun u hu => (habove u hu).runnable (unopened u hu), hbelow⟩
  cases h with
  | write kind =>
      exact ⟨List.forall_mem_singleton.mpr (ht.runnable kind), hstack⟩
  | wait kind =>
      exact ⟨List.forall_mem_nil _, List.forall_mem_cons.mpr ⟨ht.waiting (.inr kind), hstack⟩⟩
  | yield kind eq unopened =>
      obtain ⟨hwritten, hbelow⟩ := habove eq unopened
      exact ⟨hwritten, List.forall_mem_cons.mpr ⟨ht.waiting (.inl kind), hbelow⟩⟩
  | close _ _ eq unopened =>
      obtain ⟨hwritten, hbelow⟩ := habove eq unopened
      exact ⟨hwritten, (List.forall_mem_cons.mp hbelow).2⟩
  | closeCall _ _ call eq unopened =>
      obtain ⟨hwritten, hbelow⟩ := habove eq unopened
      obtain ⟨hcall, hrest⟩ := List.forall_mem_cons.mp (List.forall_mem_cons.mp hbelow).2
      refine ⟨List.forall_mem_append.mpr ⟨hwritten, List.forall_mem_singleton.mpr ?_⟩, hrest⟩
      exact hcall.runnable (by simp [call])
  | separate _ _ eq unopened => exact habove eq unopened

theorem advance_runnable : ∀ {tokens : List Token}, (∀ t ∈ tokens, Settled registry t) →
    ∀ {stack written stack' : List Token}, (∀ u ∈ stack, Waiting registry u) →
      advance registry stack tokens = .ok (written, stack') →
        (∀ u ∈ written, Runnable registry u) ∧ ∀ u ∈ stack', Waiting registry u := by
  intro tokens
  induction tokens with
  | nil =>
      intro _ stack written stack' hstack h
      obtain ⟨rfl, rfl⟩ := Prod.mk.inj (Except.ok.inj h)
      exact ⟨List.forall_mem_nil _, hstack⟩
  | cons t tokens ih =>
      intro settled stack written stack' hstack h
      obtain ⟨ht, htokens⟩ := List.forall_mem_cons.mp settled
      obtain ⟨first, middle, more, hstep, hrest, rfl⟩ := advance_cons_inv h
      obtain ⟨hfirst, hmiddle⟩ := (move_of_step hstep).runnable ht hstack
      obtain ⟨hmore, hlast⟩ := ih htokens hmiddle hrest
      exact ⟨List.forall_mem_append.mpr ⟨hfirst, hmore⟩, hlast⟩

/-- **Whatever is written out can be run**: no parenthesis and no separator is left. -/
theorem reorder_runnable (settled : ∀ t ∈ tokens, Settled registry t)
    (h : reorder registry tokens = .ok out) : ∀ t ∈ out, Runnable registry t := by
  obtain ⟨written, waiting, hadvance, unopened, rfl⟩ := reorder_inv h
  obtain ⟨hwritten, hwaiting⟩ := advance_runnable settled (List.forall_mem_nil _) hadvance
  exact List.forall_mem_append.mpr
    ⟨hwritten, fun t ht => (hwaiting t ht).runnable (unopened t ht)⟩

end ReversePolish

/-! ## Running -/

namespace Machine

open Token (Runnable)

variable {s : Settings}

/-- A step knows each token that can be run. -/
theorem step_knows {t : Token} (h : Runnable registry t) (stack : List Value) :
    (step registry s stack t).FailsWith Failure.KnowsTokens := by
  refine step_failsWith Failure.common_knowsTokens (fun hkind => ?_) (fun hnumber hsymbol => ?_)
    stack
  · cases h with
    | symbol listed => exact listed.lookup_fails _
    | number => rcases hkind with hkind | hkind <;> cases hkind
  · exact absurd (h.kind.resolve_left hnumber) hsymbol

end Machine

/-! ## Expressions -/

namespace Calculator

open Token (Settled Runnable)

variable {c : Calculator} {valueOf : List Char → Drawing Failure Number} {text : List Char}
  {tokens replaced out : List Token}

/-- A constant has a value, unless computing it fails. -/
theorem constantValue_knows {name : List Char} (h : name ∈ Constant.names.map Prod.fst) :
    (c.constantValue (Token.constant name)).FailsWith Failure.KnowsTokens := by
  obtain ⟨⟨_, constant⟩, hmem, rfl⟩ := List.mem_map.mp h
  rw [constantValue]
  split
  · exact Except.FailsWith.mapError fun cause _ => Failure.knowsTokens_ofOperation cause
  · rename_i hnone
    have hne := List.lookup_eq_none_iff.mp hnone _ hmem
    exact absurd rfl (bne_iff_ne.mp hne)

section

variable (builtin : c.registry = Registry.builtin)

include builtin

theorem lexicon_of_builtin : c.lexicon = {} := by
  rw [lexicon, builtin]

/-- The constants of a line have values. -/
theorem named_of_constant (htokens : c.tokenize text = .ok tokens) {name : List Char}
    (hmem : Token.constant name ∈ tokens) : name ∈ Constant.names.map Prod.fst := by
  rw [tokenize, lexicon_of_builtin builtin] at htokens
  obtain ⟨before, after, rfl⟩ := List.append_of_mem hmem
  generalize heq : Token.constant name = t at htokens
  cases (Lexicon.tokenize_spelled Lexicon.builtin_legible htokens).1.spells rfl with
  | constant _ mem =>
      obtain ⟨_, rfl⟩ := Token.mk.inj heq
      simpa using mem
  | symbol _ _ _ read =>
      -- what a symbol is read as is no constant
      subst heq
      rcases (Token.ofSymbol_eq_ok (read 0)).1 with h | h <;> cases congrArg Token.kind h
  | _ => cases heq

theorem substitute_knows (htokens : c.tokenize text = .ok tokens)
    (hvalue : ∀ name, (valueOf name).FailsWith Failure.KnowsTokens) :
    (c.substitute valueOf tokens).FailsWith Failure.KnowsTokens := by
  refine substitute_failsWith fun t ht => ?_
  obtain ⟨kind, name⟩ := t
  cases kind with
  | constant =>
      exact Drawing.failsWith_still
        ((constantValue_knows (named_of_constant builtin htokens ht)).map _)
  | reference => exact (hvalue name).map _
  | _ => exact Drawing.failsWith_ok _

/-- **What takes the place of the tokens of a line** is settled. -/
theorem substitute_settled (htokens : c.tokenize text = .ok tokens)
    (hreplaced : (c.substitute valueOf tokens).Yields replaced) :
    ∀ t ∈ replaced, Settled c.registry t := by
  have hgrammar : Grammatical c.lexicon.registry := by
    rw [lexicon_of_builtin builtin]
    exact builtin_grammatical
  have hproper := proper_substitute (tokenize_obeys hgrammar htokens).proper hreplaced
  exact fun t ht => Token.settled_of_proper (hproper t ht) (substitute_numbers hreplaced t ht)

theorem reversePolishWith_runnable (h : (c.reversePolishWith valueOf text).Yields out) :
    ∀ t ∈ out, Runnable c.registry t := by
  obtain ⟨tokens, replaced, htokens, hreplaced, hreorder⟩ := reversePolishWith_inv h
  exact ReversePolish.reorder_runnable (substitute_settled builtin htokens hreplaced) hreorder

/-- **An evaluation knows all its tokens**, if those of the variables do. -/
theorem evaluateWith_knows (hvalue : ∀ name, (valueOf name).FailsWith Failure.KnowsTokens) :
    (c.evaluateWith valueOf text).FailsWith Failure.KnowsTokens := by
  refine evaluateWith_failsWith (fun _ h => h.knowsTokens) (fun tokens htokens => ?_)
    (fun tokens replaced htokens hreplaced => ?_) fun polish hpolish => ?_
  · exact substitute_knows builtin htokens hvalue
  · exact ReversePolish.reorderFrom_failsWith Failure.common_knowsTokens (fun t ht =>
      ReversePolish.step_knows (substitute_settled builtin htokens hreplaced t ht)) []
  · exact Machine.evaluate_failsWith Failure.common_knowsTokens fun t ht =>
      Machine.step_knows (reversePolishWith_runnable builtin hpolish t ht)

/-- So do the evaluations of variables, however deep they are nested. -/
theorem valueOf_knows (vars : Variables) (depth : Nat) : ∀ resolving name,
    (c.valueOf vars depth resolving name).FailsWith Failure.KnowsTokens := by
  induction depth with
  | zero =>
      intro resolving name
      rw [valueOf]
      split
      · exact Drawing.failsWith_error trivial
      · exact Drawing.failsWith_ok _
      · split <;> exact Drawing.failsWith_error trivial
  | succ depth ih =>
      intro resolving name
      rw [valueOf]
      split
      · exact Drawing.failsWith_error trivial
      · exact Drawing.failsWith_ok _
      · split
        · exact Drawing.failsWith_error trivial
        · exact (evaluateWith_knows builtin (ih _)).map _

end

/-- **The later stages know every token.** With the built-in symbols no evaluation reports a symbol
that it does not know, or a token that it does not expect, whatever the line, the variables and the
settings are. Whatever values replace the constants and references of the line, what is left are
numbers, parentheses, separators and symbols with an entry that fits; and what is handed to the
machine are numbers, operators and functions, which have an entry too. -/
theorem evaluate_knows_tokens (s : Settings) (generator : Generator) (line : List Char)
    (vars : Variables) :
    let c : Calculator := { settings := s, generator }
    (∀ symbol, c.evaluate line vars ≠ .error (.fault (.unknownSymbol symbol))) ∧
      (∀ token, c.evaluate line vars ≠ .error (.fault (.unexpectedToken token))) ∧
      (∀ valueOf tokens replaced, c.tokenize line = .ok tokens →
        (c.substitute valueOf tokens).Yields replaced → ∀ t ∈ replaced, Settled c.registry t) ∧
      ∀ valueOf out, (c.reversePolishWith valueOf line).Yields out → ∀ t ∈ out,
        (t.kind = .number ∨ t.kind = .operator ∨ t.kind = .function) ∧ Runnable c.registry t := by
  intro c
  have hknows : (c.compute line vars).FailsWith Failure.KnowsTokens :=
    evaluateWith_knows rfl (valueOf_knows rfl vars _ _)
  refine ⟨fun symbol => hknows _ _, fun token => hknows _ _, ?_, ?_⟩
  · exact fun valueOf tokens replaced htokens hreplaced => substitute_settled rfl htokens hreplaced
  · intro valueOf out h t ht
    have hrunnable := reversePolishWith_runnable rfl h t ht
    exact ⟨hrunnable.kind, hrunnable⟩

/-- `-2π|x!|` with a thousand for `x`: the constant and the variable become numbers, and the
parentheses that the bars stand for are not handed to the machine. -/
theorem evaluate_knows_tokens_bars :
    let c : Calculator := { settings := { Settings.initial with
      precision := 3, precision_pos := by decide } }
    let valueOf : List Char → Drawing Failure Number := fun _ => .ok (.finite ⟨false, 1, 3⟩)
    ∃ tokens replaced out, c.tokenize "-2π|x!|".toList = .ok tokens ∧
      (c.substitute valueOf tokens).Yields replaced ∧
      Token.spaced replaced = "-2 * 3.14 * abs ( 1000 ! )".toList ∧
      (∀ t ∈ replaced, Settled c.registry t) ∧
      (c.reversePolishWith valueOf "-2π|x!|".toList).Yields out ∧
      Token.spaced out = "-2 3.14 * 1000 ! abs *".toList ∧ ∀ t ∈ out, Runnable c.registry t := by
  intro c valueOf
  obtain ⟨_, _, hsettled, hrunnable⟩ :=
    evaluate_knows_tokens c.settings c.generator "-2π|x!|".toList {}
  have htokens : c.tokenize "-2π|x!|".toList = .ok [.number ['-', '2'], .operator ['*'],
      .constant ['π'], .operator ['*'], .function "abs".toList, .leftParen, .reference ['x'],
      .operator ['!'], .rightParen] := by decide +kernel
  have hreplaced : (c.substitute valueOf [.number ['-', '2'], .operator ['*'], .constant ['π'],
      .operator ['*'], .function "abs".toList, .leftParen, .reference ['x'],
      .operator ['!'], .rightParen]).Yields [.number ['-', '2'], .operator ['*'],
      .number "3.14".toList, .operator ['*'], .function "abs".toList, .leftParen,
      .number "1000".toList, .operator ['!'], .rightParen] :=
    Drawing.yields_of_outcome (g := default) (by decide +kernel)
  have hout : (c.reversePolishWith valueOf "-2π|x!|".toList).Yields [.number ['-', '2'],
      .number "3.14".toList, .operator ['*'], .number "1000".toList, .operator ['!'],
      .function "abs".toList, .operator ['*']] :=
    Drawing.yields_of_outcome (g := default) (by decide +kernel)
  exact ⟨_, _, _, htokens, hreplaced, by decide, hsettled valueOf _ _ htokens hreplaced, hout,
    by decide, fun t ht => (hrunnable valueOf _ hout t ht).2⟩

end Calculator

end DecimalCalc
