import DecimalCalc.Proofs.Failures
import DecimalCalc.Proofs.SpacedTokens
import Mathlib.Data.List.Chain

/-!
# References between variables

A text refers to a variable where the name of the variable is one of its tokens
(`Calculator.Occurs`), and a variable that is bound to an expression refers to those that its
expression does (`Calculator.Refers`). A chain of references that comes back to itself is a `Lasso`,
or a `Loop` if it comes back to where it began. A variable is `Grounded` if the references that
start with it come to an end, each at a number.

A name is a run of letters that no symbol starts. So it is read in the same way by itself
(`Calculator.Occurs.tokenize_eq`), and no blank text refers to anything.
-/

set_option autoImplicit false

namespace DecimalCalc

open Relation (ReflTransGen TransGen)

/-! ## Chains that come back -/

section Chains

variable {α : Type} {r : α → α → Prop} {a b : α} {chain : List α}

/-- **A chain that comes back to itself**: each element leads to the next, all but the last are
different, and the last is one of them. -/
structure Lasso (r : α → α → Prop) (chain : List α) : Prop where
  linked : chain.IsChain r
  once : chain.dropLast.Nodup
  back : ∃ last ∈ chain.getLast?, last ∈ chain.dropLast

/-- **A chain that comes back to where it began.** -/
structure Loop (r : α → α → Prop) (chain : List α) : Prop extends Lasso r chain where
  closed : chain.head? = chain.getLast?

/-- A chain goes on with what its last element leads to. -/
theorem isChain_concat (linked : (chain ++ [a]).IsChain r) (h : r a b) :
    ((chain ++ [a]) ++ [b]).IsChain r := by
  refine linked.append (List.isChain_singleton b) fun x hx y hy => ?_
  obtain rfl := Option.some.inj ((List.getLast?_concat).symm.trans hx)
  obtain rfl := Option.some.inj hy
  exact h

theorem nodup_concat (once : chain.Nodup) (new : a ∉ chain) : (chain ++ [a]).Nodup := by
  rw [← List.concat_eq_append]
  exact once.concat new

theorem transGen_of_isChain {l : List α} (h : (a :: (l ++ [b])).IsChain r) : TransGen r a b := by
  induction l generalizing a with
  | nil => exact .single (List.isChain_pair.mp h)
  | cons c l ih =>
      obtain ⟨hac, hrest⟩ := List.isChain_cons_cons.mp h
      exact .head hac (ih hrest)

/-- An element of a chain that is not its last leads somewhere. -/
theorem exists_of_isChain {l : List α} (h : (l ++ [b]).IsChain r) : ∀ x ∈ l, ∃ y, r x y := by
  intro x hx
  obtain ⟨before, after, rfl⟩ := List.append_of_mem hx
  rw [List.append_assoc] at h
  have hrest : (x :: (after ++ [b])).IsChain r := h.right_of_append
  obtain ⟨y, hxy, _⟩ := TransGen.head'_iff.mp (transGen_of_isChain hrest)
  exact ⟨y, hxy⟩

theorem lasso_concat {path : List α} {last : α} (linked : (path ++ [last]).IsChain r)
    (once : path.Nodup) (back : last ∈ path) : Lasso r (path ++ [last]) where
  linked := linked
  once := by rwa [List.dropLast_concat]
  back := ⟨last, by simp, by rwa [List.dropLast_concat]⟩

theorem Lasso.exists_eq_concat (h : Lasso r chain) : ∃ before after last,
    chain = before ++ last :: (after ++ [last]) ∧ (before ++ last :: after).Nodup := by
  obtain ⟨last, hlast, hmem⟩ := h.back
  obtain ⟨before, after, heq⟩ := List.append_of_mem hmem
  have hchain : chain = chain.dropLast ++ [last] := (List.dropLast_append_getLast? last hlast).symm
  refine ⟨before, after, last, ?_, heq ▸ h.once⟩
  rw [hchain, heq, List.append_assoc, List.cons_append]

/-- A chain that comes back to itself has a cycle. -/
theorem Lasso.exists_transGen (h : Lasso r chain) : ∃ a, TransGen r a a := by
  obtain ⟨before, after, last, rfl, _⟩ := h.exists_eq_concat
  exact ⟨last, transGen_of_isChain h.linked.right_of_append⟩

/-- **Each element of a loop leads back to itself.** -/
theorem Loop.transGen (h : Loop r chain) : ∀ a ∈ chain, TransGen r a a := by
  obtain ⟨before, after, last, rfl, hnodup⟩ := h.exists_eq_concat
  -- the last element occurs once before the end, and that is at the beginning
  have hbefore : before = [] := by
    cases before with
    | nil => rfl
    | cons first before =>
        have hlast : (first :: before ++ last :: (after ++ [last])).getLast? = some last := by
          rw [← List.cons_append, ← List.append_assoc, List.getLast?_concat]
        obtain rfl : first = last := Option.some.inj (h.closed.trans hlast)
        simp at hnodup
  subst hbefore
  have hround : TransGen r last last := transGen_of_isChain h.linked
  intro a ha
  rw [List.nil_append, List.mem_cons, List.mem_append, List.mem_singleton] at ha
  rcases ha with rfl | ha | rfl
  · exact hround
  · obtain ⟨front, rest, rfl⟩ := List.append_of_mem ha
    have hlinked := h.linked
    rw [List.nil_append, List.append_assoc, List.cons_append] at hlinked
    obtain ⟨hfront, hrest⟩ := List.isChain_cons_split.mp hlinked
    exact (transGen_of_isChain hrest).trans (transGen_of_isChain hfront)
  · exact hround

/-- What leads to an end from everywhere does not lead back to itself. -/
theorem not_transGen_of_acc (h : Acc (flip r) a) : ¬TransGen r a a := by
  induction h with
  | intro a _ ih =>
      intro hround
      obtain ⟨b, hab, hback⟩ := TransGen.head'_iff.mp hround
      exact ih b hab (.tail' hback hab)

end Chains

/-! ## Words -/

namespace Lexeme

variable {symbols : List (List Char)} {text line w : List Char} {n : Nat}

/-- Where a word is read, there are symbols, and none of them is empty. -/
theorem symbols_of_at?_word (h : at? symbols text = some (.word, n)) :
    symbols ≠ [] ∧ [] ∉ symbols := by
  rcases at?_inv h with ⟨hkind, _⟩ | hsymbol | ⟨hnone, _⟩
  · cases hkind
  · exact nomatch (symbolAt?_eq_some hsymbol).1
  · exact symbolAt?_eq_none hnone

theorem Alone.mem_run (h : Alone symbols .word w) : w ∈ Text.run Text.isLetter := by
  obtain ⟨L, hL, hw⟩ := Reads.exists_mem h
  simp only [alternatives, plainAlternatives, List.mem_cons, List.not_mem_nil, or_false,
    Prod.mk.injEq, reduceCtorEq, false_and, false_or, true_and] at hL
  rwa [hL] at hw

/-- **A word of a line** is a word by itself. -/
theorem alone_of_word {lexemes : List Lexeme} (h : lex symbols line = .ok lexemes) {l : Lexeme}
    (hl : l ∈ lexemes) (hword : l.kind = .word) :
    [] ∉ symbols ∧ Alone symbols .word l.text ∧ ∀ c ∈ l.text, c ∈ line := by
  obtain ⟨rest, n, hat, _⟩ := at?_of_mem line h l hl
  rw [hword] at hat
  obtain ⟨exist, nonempty⟩ := symbols_of_at?_word hat
  have hcuts := (lex_eq_ok_iff exist nonempty).mp h
  obtain ⟨before, after, rfl⟩ := List.append_of_mem hl
  refine ⟨nonempty, ?_, fun c hc => ?_⟩
  · rw [← hword]
    exact (hcuts.read before l after rfl).alone
  · rw [← hcuts.joined, List.append_nil]
    exact List.mem_flatMap.mpr ⟨l, hl, hc⟩

end Lexeme

namespace Token

variable {lexicon : Lexicon} {t : Token} {name : List Char}

/-- **A reference is read from a word.** -/
theorem Turn.word_of_reference {last : Option Token} {bars bars' : Nat} {front rest : List Lexeme}
    {read : List Token} (turn : Turn lexicon last bars rest front read bars')
    (h : reference name ∈ read) : ∃ l ∈ front, l.kind = .word ∧ l.text = name := by
  cases turn with
  | word text position =>
      have heq : reference name = reference text := List.mem_singleton.mp h
      exact ⟨_, List.mem_cons_self, rfl, (congrArg Token.text heq).symm⟩
  | symbol text position t hconstant hsign hsymbol =>
      obtain rfl := List.mem_singleton.mp h
      rcases (ofSymbol_eq_ok hsymbol).1 with heq | heq <;> cases heq
  -- no other turn gives a reference
  | _ => simp [reference, Token.number, Token.leftParen, Token.rightParen, Token.separator,
      Token.constant, function] at h

theorem Turns.word_of_reference {last : Option Token} {bars : Nat} {lexemes : List Lexeme}
    {tokens : List Token} (h : Turns lexicon last bars lexemes tokens) :
    reference name ∈ tokens → ∃ l ∈ lexemes, l.kind = .word ∧ l.text = name := by
  induction h with
  | nil last bars => exact fun hmem => absurd hmem List.not_mem_nil
  | turn first more ih =>
      intro hmem
      rcases List.mem_append.mp hmem with hread | hlater
      · obtain ⟨l, hl, hword⟩ := first.word_of_reference hread
        exact ⟨l, List.mem_append_left _ hl, hword⟩
      · obtain ⟨l, hl, hword⟩ := ih hlater
        exact ⟨l, List.mem_append_right _ hl, hword⟩

theorem reference_mem_of_productsAfter (tokens : List Token) : ∀ left : Token,
    reference name ∈ productsAfter left tokens → reference name ∈ tokens := by
  induction tokens with
  | nil => exact fun left h => h
  | cons right rest ih =>
      intro left h
      have htail : reference name ∈ right :: productsAfter right rest := by
        rw [productsAfter] at h
        split at h
        · exact (List.mem_cons.mp h).resolve_left (by rintro ⟨⟩)
        · exact h
      rcases List.mem_cons.mp htail with rfl | hrest
      · exact List.mem_cons_self
      · exact List.mem_cons_of_mem right (ih right hrest)

theorem reference_mem_of_insertProducts {tokens : List Token}
    (h : reference name ∈ insertProducts tokens) : reference name ∈ tokens := by
  cases tokens with
  | nil => exact h
  | cons first rest =>
      rcases List.mem_cons.mp h with rfl | hrest
      · exact List.mem_cons_self
      · exact List.mem_cons_of_mem first (reference_mem_of_productsAfter rest first hrest)

end Token

/-- **The name of a reference** is a word of the line, and a word by itself. -/
theorem Lexicon.alone_of_reference {lexicon : Lexicon} {line name : List Char}
    {tokens : List Token} (h : lexicon.tokenize line = .ok tokens)
    (hmem : Token.reference name ∈ tokens) :
    [] ∉ lexicon.symbols ∧ Lexeme.Alone lexicon.symbols .word name ∧ ∀ c ∈ name, c ∈ line := by
  obtain ⟨lexemes, read, hlex, hturns, rfl⟩ := tokenize_eq_ok_iff.mp h
  obtain ⟨l, hl, hword, rfl⟩ :=
    hturns.word_of_reference (Token.reference_mem_of_insertProducts hmem)
  exact Lexeme.alone_of_word hlex hl hword

/-- **A word by itself** is a single reference. -/
theorem Lexicon.tokenize_word {lexicon : Lexicon} {name : List Char} (exist : lexicon.symbols ≠ [])
    (nonempty : [] ∉ lexicon.symbols) (alone : Lexeme.Alone lexicon.symbols .word name) :
    lexicon.tokenize name = .ok [Token.reference name] := by
  have hread : Lexeme.Reads (Lexeme.alternatives lexicon.symbols) (name ++ []) .word name := by
    rwa [List.append_nil]
  have hlex : Lexeme.lex lexicon.symbols name = .ok [⟨.word, name, 0⟩] := by
    have hfrom := Lexeme.lexFrom_of_reads exist nonempty (alone.ne_nil nonempty) hread 0
    rwa [List.append_nil] at hfrom
  rw [tokenize, hlex]
  rfl

/-! ## References -/

namespace Calculator

variable {c : Calculator} {vars : Variables} {text name : List Char}

/-- A text refers to a variable. -/
def Occurs (c : Calculator) (text name : List Char) : Prop :=
  ∃ tokens, c.tokenize text = .ok tokens ∧ Token.reference name ∈ tokens

/-- A variable that is bound to an expression refers to another one. -/
def Refers (c : Calculator) (vars : Variables) (name target : List Char) : Prop :=
  ∃ text, vars.find? name = some (.expression text) ∧ c.Occurs text target

/-- **The expressions that an evaluation meets**: the text, and the expressions of the variables that
it refers to, by itself or through others. -/
inductive Meets (c : Calculator) (vars : Variables) (text : List Char) : List Char → Prop
  | itself : Meets c vars text text
  | through {e name definition : List Char} (met : Meets c vars text e) (occurs : c.Occurs e name)
      (bound : vars.find? name = some (.expression definition)) : Meets c vars text definition

/-- If no variable of the text is bound to an expression, nothing else is met. -/
theorem Meets.eq_of_unbound {e : List Char} (met : c.Meets vars text e)
    (unbound : ∀ name definition, c.Occurs text name →
      vars.find? name ≠ some (.expression definition)) : e = text := by
  induction met with
  | itself => rfl
  | through _ occurs bound ih =>
      rw [ih] at occurs
      exact absurd bound (unbound _ _ occurs)

/-- What a text refers to is the text of one of its tokens. -/
theorem Occurs.mem_texts {tokens : List Token} (h : c.Occurs text name)
    (htokens : c.tokenize text = .ok tokens) : name ∈ tokens.map Token.text := by
  obtain ⟨tokens', htokens', hmem⟩ := h
  obtain rfl := Except.ok.inj (htokens.symm.trans htokens')
  exact List.mem_map_of_mem hmem

/-- **A name is read as such by itself.** -/
theorem Occurs.tokenize_eq (h : c.Occurs text name) :
    c.tokenize name = .ok [Token.reference name] := by
  obtain ⟨tokens, htokens, hmem⟩ := h
  obtain ⟨nonempty, alone, _⟩ := Lexicon.alone_of_reference htokens hmem
  exact Lexicon.tokenize_word c.symbols_ne_nil nonempty alone

theorem Occurs.self (h : c.Occurs text name) : c.Occurs name name :=
  ⟨_, h.tokenize_eq, List.mem_singleton_self _⟩

/-- A blank text refers to nothing. -/
theorem Occurs.not_blank (h : c.Occurs text name) : text.all Text.isBlank = false := by
  obtain ⟨tokens, htokens, hmem⟩ := h
  obtain ⟨_, alone, hchars⟩ := Lexicon.alone_of_reference htokens hmem
  obtain ⟨hne, hletters⟩ := alone.mem_run
  obtain ⟨letter, hletter⟩ := List.exists_mem_of_ne_nil name hne
  by_contra hblank
  have hall := List.all_eq_true.mp (Bool.eq_true_of_not_eq_false hblank)
  have hnot := Text.isLetter_of_isBlank (hall letter (hchars letter hletter))
  rw [hletters letter hletter] at hnot
  cases hnot

/-- A variable that is referred to is referred to by its name. -/
theorem occurs_of_refers {target : List Char} (h : c.Refers vars name target) :
    c.Occurs target target := by
  obtain ⟨text, _, occurs⟩ := h
  exact occurs.self

/-! ## Grounded variables -/

/-- **A grounded variable** is bound, and so are all that its references lead to; and however they
are followed, they come to an end. -/
structure Grounded (c : Calculator) (vars : Variables) (name : List Char) : Prop where
  bound : ∀ target, ReflTransGen (c.Refers vars) name target → vars.find? target ≠ none
  ends : Acc (flip (c.Refers vars)) name

theorem grounded_intro (bound : vars.find? name ≠ none)
    (h : ∀ target, c.Refers vars name target → c.Grounded vars target) : c.Grounded vars name where
  bound := by
    intro target hreach
    rcases ReflTransGen.cases_head_iff.mp hreach with rfl | ⟨next, hrefers, hreach⟩
    · exact bound
    · exact (h next hrefers).bound target hreach
  ends := ⟨name, fun target hrefers => (h target hrefers).ends⟩

/-- What a grounded variable leads to is grounded. -/
theorem Grounded.of_reaches {target : List Char} (h : c.Grounded vars name)
    (hreach : ReflTransGen (c.Refers vars) name target) : c.Grounded vars target := by
  refine ⟨fun other hother => h.bound other (hreach.trans hother), ?_⟩
  induction hreach with
  | refl => exact h.ends
  | tail _ hrefers ih => exact ih.inv hrefers

/-- A grounded variable does not lead back to itself. -/
theorem Grounded.not_cyclic (h : c.Grounded vars name) : ¬TransGen (c.Refers vars) name name :=
  not_transGen_of_acc h.ends

end Calculator

end DecimalCalc
