import DecimalCalc.Calculator
import DecimalCalc.Proofs.Drawings
import DecimalCalc.Proofs.Grammar

/-!
# Substitution

Constants and references become numbers, and all other tokens stay as they are. So what is counted
in a row of tokens stays the same, and what the grammar derives it still derives
(`Calculator.derives_substitute`).
-/

set_option autoImplicit false

namespace DecimalCalc

open Grammar

variable {registry : Registry}

namespace Calculator

variable {c : Calculator} {valueOf : List Char → Drawing Failure Number}

/-! ## Tokens before and after -/

/-- A token stays as it is, or is an operand that a number replaces. -/
theorem substituteToken_cases {t t' : Token} (h : (c.substituteToken valueOf t).Yields t') :
    t' = t ∧ (t.isAtom = true → t.kind = .number) ∨ t.isAtom = true ∧ t'.kind = .number := by
  cases hkind : t.kind with
  | constant =>
      simp only [substituteToken, hkind] at h
      obtain ⟨x, _, rfl⟩ := Except.map_eq_ok.mp (Drawing.yields_still.mp h)
      exact .inr ⟨by simp [Token.isAtom, hkind], rfl⟩
  | reference =>
      simp only [substituteToken, hkind] at h
      obtain ⟨x, _, rfl⟩ := Drawing.yields_map.mp h
      exact .inr ⟨by simp [Token.isAtom, hkind], rfl⟩
  | _ =>
      simp only [substituteToken, hkind] at h
      exact .inl ⟨(Drawing.yields_ok.mp h).symm, by simp [Token.isAtom, hkind]⟩

theorem substituteToken_of_not_atom {t : Token} (h : t.isAtom = false) :
    c.substituteToken valueOf t = .ok t := by
  cases hkind : t.kind <;> simp [Token.isAtom, hkind] at h <;> simp [substituteToken, hkind]

theorem substitute_cons (t : Token) (tokens : List Token) :
    c.substitute valueOf (t :: tokens) = (c.substituteToken valueOf t).bind fun t' =>
      (c.substitute valueOf tokens).map (t' :: ·) := by
  simp only [substitute, List.mapM_cons, Drawing.map_eq_bind]
  rfl

theorem substitute_append (ts us : List Token) :
    c.substitute valueOf (ts ++ us) = (c.substitute valueOf ts).bind fun ts' =>
      (c.substitute valueOf us).map (ts' ++ ·) := by
  simp only [substitute, List.mapM_append, Drawing.map_eq_bind]
  rfl

/-- A token that is no operand stays as it is. -/
theorem substitute_cons_of_not_atom {t : Token} (h : t.isAtom = false) (tokens : List Token) :
    c.substitute valueOf (t :: tokens) = (c.substitute valueOf tokens).map (t :: ·) := by
  rw [substitute_cons, substituteToken_of_not_atom h]
  rfl

theorem substitute_cons_inv {t : Token} {tokens replaced : List Token}
    (h : (c.substitute valueOf (t :: tokens)).Yields replaced) :
    ∃ t' rest, (c.substituteToken valueOf t).Yields t' ∧ (c.substitute valueOf tokens).Yields rest ∧
      replaced = t' :: rest := by
  rw [substitute_cons] at h
  obtain ⟨t', ht, hmap⟩ := h.of_bind
  obtain ⟨rest, hrest, rfl⟩ := Drawing.yields_map.mp hmap
  exact ⟨t', rest, ht, hrest, rfl⟩

theorem substitute_append_inv {ts us replaced : List Token}
    (h : (c.substitute valueOf (ts ++ us)).Yields replaced) :
    ∃ ts' us', (c.substitute valueOf ts).Yields ts' ∧ (c.substitute valueOf us).Yields us' ∧
      replaced = ts' ++ us' := by
  rw [substitute_append] at h
  obtain ⟨ts', hts, hmap⟩ := h.of_bind
  obtain ⟨us', hus, rfl⟩ := Drawing.yields_map.mp hmap
  exact ⟨ts', us', hts, hus, rfl⟩

theorem substitute_cons_of_not_atom_inv {t : Token} {tokens replaced : List Token}
    (ht : t.isAtom = false) (h : (c.substitute valueOf (t :: tokens)).Yields replaced) :
    ∃ rest, (c.substitute valueOf tokens).Yields rest ∧ replaced = t :: rest := by
  rw [substitute_cons_of_not_atom ht] at h
  obtain ⟨rest, hrest, rfl⟩ := Drawing.yields_map.mp h
  exact ⟨rest, hrest, rfl⟩

theorem substitute_parens_inv {tokens replaced : List Token}
    (h : (c.substitute valueOf
      (Token.leftParen :: (tokens ++ [Token.rightParen]))).Yields replaced) :
    ∃ inner, (c.substitute valueOf tokens).Yields inner ∧
      replaced = Token.leftParen :: (inner ++ [Token.rightParen]) := by
  obtain ⟨rest, hrest, rfl⟩ := substitute_cons_of_not_atom_inv rfl h
  obtain ⟨inner, close, hinner, hclose, rfl⟩ := substitute_append_inv hrest
  obtain rfl := Drawing.yields_ok.mp hclose
  exact ⟨inner, hinner, rfl⟩

/-- Each token of a row that is replaced has something to take its place. -/
theorem exists_substituteToken_of_mem {tokens : List Token} : ∀ {replaced : List Token},
    (c.substitute valueOf tokens).Yields replaced →
      ∀ t ∈ tokens, ∃ t', (c.substituteToken valueOf t).Yields t' := by
  induction tokens with
  | nil =>
      intro replaced h t ht
      cases ht
  | cons u tokens ih =>
      intro replaced h t ht
      obtain ⟨u', rest, hu, hrest, rfl⟩ := substitute_cons_inv h
      rcases List.mem_cons.mp ht with rfl | ht
      · exact ⟨u', hu⟩
      · exact ih hrest t ht

/-- Each token of the replaced row has taken the place of one. -/
theorem exists_of_mem_substitute {tokens : List Token} : ∀ {replaced : List Token},
    (c.substitute valueOf tokens).Yields replaced →
      ∀ t' ∈ replaced, ∃ t ∈ tokens, (c.substituteToken valueOf t).Yields t' := by
  induction tokens with
  | nil =>
      intro replaced h t' ht'
      obtain rfl := Drawing.yields_ok.mp h
      cases ht'
  | cons u tokens ih =>
      intro replaced h t' ht'
      obtain ⟨u', rest, hu, hrest, rfl⟩ := substitute_cons_inv h
      rcases List.mem_cons.mp ht' with rfl | ht'
      · exact ⟨u, List.mem_cons_self, hu⟩
      · obtain ⟨t, ht, htoken⟩ := ih hrest t' ht'
        exact ⟨t, List.mem_cons_of_mem u ht, htoken⟩

/-- Operands are numbers once they are replaced. -/
theorem substitute_numbers {tokens replaced : List Token}
    (h : (c.substitute valueOf tokens).Yields replaced) :
    ∀ t ∈ replaced, t.isAtom = true → t.kind = .number := by
  intro t' ht' hatom
  obtain ⟨t, _, htoken⟩ := exists_of_mem_substitute h t' ht'
  rcases substituteToken_cases htoken with ⟨rfl, hnumber⟩ | ⟨_, hnumber⟩
  · exact hnumber hatom
  · exact hnumber

theorem proper_substitute {tokens replaced : List Token}
    (hproper : ∀ t ∈ tokens, Proper registry t)
    (h : (c.substitute valueOf tokens).Yields replaced) :
    ∀ t ∈ replaced, Proper registry t := by
  intro t' ht'
  obtain ⟨t, ht, htoken⟩ := exists_of_mem_substitute h t' ht'
  rcases substituteToken_cases htoken with ⟨rfl, _⟩ | ⟨_, hnumber⟩
  · exact hproper t' ht
  · exact .atom (Token.isAtom_of_number hnumber)

/-! ## What stays the same -/

theorem substitute_weight {tokens : List Token} : ∀ {replaced : List Token},
    (c.substitute valueOf tokens).Yields replaced →
      weight registry replaced = weight registry tokens := by
  induction tokens with
  | nil =>
      intro replaced h
      obtain rfl := Drawing.yields_ok.mp h
      rfl
  | cons t tokens ih =>
      intro replaced h
      obtain ⟨t', rest, ht, hrest, rfl⟩ := substitute_cons_inv h
      rw [weight_cons, weight_cons, ih hrest]
      rcases substituteToken_cases ht with ⟨rfl, _⟩ | ⟨hatom, hnumber⟩
      · rfl
      · rw [tokenWeight_atom hatom, tokenWeight_atom (Token.isAtom_of_number hnumber)]

theorem substitute_open {tokens : List Token} : ∀ {replaced : List Token},
    (c.substitute valueOf tokens).Yields replaced →
      ∀ depth, openAfter? depth replaced = openAfter? depth tokens := by
  induction tokens with
  | nil =>
      intro replaced h depth
      obtain rfl := Drawing.yields_ok.mp h
      rfl
  | cons t tokens ih =>
      intro replaced h depth
      obtain ⟨t', rest, ht, hrest, rfl⟩ := substitute_cons_inv h
      have hopen : open? depth t' = open? depth t := by
        rcases substituteToken_cases ht with ⟨rfl, _⟩ | ⟨hatom, hnumber⟩
        · rfl
        · rw [open?_atom hatom, open?_atom (Token.isAtom_of_number hnumber)]
      rw [openAfter?_cons, openAfter?_cons, hopen]
      cases open? depth t with
      | none => rfl
      | some depth' => exact ih hrest depth'

/-- Where an operand is expected, the last token stays as it is. -/
theorem getLast?_substitute {pre pre' : List Token}
    (hexpects : Token.expectsOperand pre.getLast? = true)
    (h : (c.substitute valueOf pre).Yields pre') : pre'.getLast? = pre.getLast? := by
  rcases List.eq_nil_or_concat pre with rfl | ⟨init, t, rfl⟩
  · obtain rfl := Drawing.yields_ok.mp h
    rfl
  · rw [List.concat_eq_append] at hexpects h ⊢
    rw [List.getLast?_concat] at hexpects
    obtain ⟨init', last, _, hlast, rfl⟩ := substitute_append_inv h
    have hatom : t.isAtom = false := by
      by_contra hatom
      rw [Token.expectsOperand_atom (by simpa using hatom)] at hexpects
      cases hexpects
    obtain ⟨rest, hrest, rfl⟩ := substitute_cons_of_not_atom_inv hatom hlast
    obtain rfl := Drawing.yields_ok.mp hrest
    simp

/-- Where no operand starts, the first token stays as it is. -/
theorem head?_substitute {post post' : List Token}
    (hpost : ∀ t ∈ post.head?, t.kind ≠ .number ∧ t.startsOperand = false)
    (h : (c.substitute valueOf post).Yields post') : post'.head? = post.head? := by
  cases post with
  | nil =>
      obtain rfl := Drawing.yields_ok.mp h
      rfl
  | cons t post =>
      obtain ⟨hnumber, hstarts⟩ := hpost t rfl
      have hatom : t.isAtom = false := by
        cases hkind : t.kind <;> simp_all [Token.startsOperand, Token.isAtom]
      obtain ⟨rest, _, rfl⟩ := substitute_cons_of_not_atom_inv hatom h
      rfl

/-- **What the grammar derives it still derives** once operands are replaced. -/
theorem derives_substitute {phrase : Phrase} {w : List Token} (h : Derives registry phrase w) :
    ∀ {w' : List Token}, (c.substitute valueOf w).Yields w' → Derives registry phrase w' := by
  induction h with
  | atom atom =>
      intro w' h
      obtain ⟨t', rest, ht, hrest, rfl⟩ := substitute_cons_inv h
      obtain rfl := Drawing.yields_ok.mp hrest
      rcases substituteToken_cases ht with ⟨rfl, _⟩ | ⟨_, hnumber⟩
      · exact .atom atom
      · exact .atom (Token.isAtom_of_number hnumber)
  | group _ ih =>
      intro w' h
      obtain ⟨e, he, rfl⟩ := substitute_parens_inv h
      exact .group (ih he)
  | call listed fixity _ ih =>
      intro w' h
      obtain ⟨rest, hrest, rfl⟩ := substitute_cons_of_not_atom_inv rfl h
      obtain ⟨args, hargs, rfl⟩ := substitute_parens_inv hrest
      exact .call listed fixity (ih hargs)
  | operatorCall listed fixity _ ih =>
      intro w' h
      obtain ⟨rest, hrest, rfl⟩ := substitute_cons_of_not_atom_inv rfl h
      obtain ⟨args, hargs, rfl⟩ := substitute_parens_inv hrest
      exact .operatorCall listed fixity (ih hargs)
  | apply listed fixity arity _ ih =>
      intro w' h
      obtain ⟨rest, hrest, rfl⟩ := substitute_cons_of_not_atom_inv rfl h
      exact .apply listed fixity arity (ih hrest)
  | after _ listed fixity ih =>
      intro w' h
      obtain ⟨e, symbol, he, hsymbol, rfl⟩ := substitute_append_inv h
      obtain rfl := Drawing.yields_ok.mp hsymbol
      exact .after (ih he) listed fixity
  | single _ ih =>
      intro w' h
      exact .single (ih h)
  | between _ listed fixity _ ihl ihr =>
      intro w' h
      obtain ⟨l, rest, hl, hrest, rfl⟩ := substitute_append_inv h
      obtain ⟨r, hr, rfl⟩ := substitute_cons_of_not_atom_inv rfl hrest
      exact .between (ihl hl) listed fixity (ihr hr)
  | one _ ih =>
      intro w' h
      exact .one (ih h)
  | more _ _ ihe ihargs =>
      intro w' h
      obtain ⟨e, rest, he, hrest, rfl⟩ := substitute_append_inv h
      obtain ⟨args, hargs, rfl⟩ := substitute_cons_of_not_atom_inv rfl hrest
      exact .more (ihe he) (ihargs hargs)

/-! ## Reverse Polish order -/

/-- The stages that a text goes through on the way to the machine. -/
theorem reversePolishWith_inv {text : List Char} {out : List Token}
    (h : (c.reversePolishWith valueOf text).Yields out) :
    ∃ tokens replaced, c.tokenize text = .ok tokens ∧
      (c.substitute valueOf tokens).Yields replaced ∧
      ReversePolish.reorder c.registry replaced = .ok out := by
  obtain ⟨tokens, htokens, hrest⟩ := h.of_bind
  obtain ⟨replaced, hreplaced, hreorder⟩ := hrest.of_bind
  exact ⟨tokens, replaced, Drawing.yields_still.mp htokens, hreplaced,
    Except.mapError_eq_ok.mp (Drawing.yields_still.mp hreorder)⟩

end Calculator

end DecimalCalc
