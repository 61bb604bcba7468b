import DecimalCalc.Proofs.ReferenceGraph
import DecimalCalc.Proofs.Substitution
import DecimalCalc.Proofs.Verdict

/-!
# What closes a bar

A bar that opens becomes `abs(` and one that closes becomes `)`. Which closing token belongs to
which opening one is settled afterwards, when tokens are reordered, and nothing tells any longer
what came from a bar. So in a line that is accepted **bars and parentheses taken together are
balanced, and the tokens between a bar that opens and what closes it are too**
(`Calculator.reversePolish_bars`); but a bar may be closed by a parenthesis, as in `|(2|)`. Where
bars and parentheses do not overlap, a bar is closed by a bar.

To speak of what a token came from, a line is traced (`Lexicon.trace`): each of its lexemes stands
beside the tokens that it is read as.
-/

set_option autoImplicit false

namespace DecimalCalc

/-! ## Balanced rows and what is left out of them -/

namespace ReversePolish

/-- The parentheses among some tokens. -/
def brackets (tokens : List Token) : List Token := tokens.filter (·.rise ≠ 0)

@[simp] theorem brackets_append (ts us : List Token) :
    brackets (ts ++ us) = brackets ts ++ brackets us := List.filter_append ..

theorem brackets_cons (t : Token) (tokens : List Token) :
    brackets (t :: tokens) = brackets [t] ++ brackets tokens := brackets_append [t] tokens

theorem brackets_cons_of_level {t : Token} (h : t.rise = 0) (tokens : List Token) :
    brackets (t :: tokens) = brackets tokens := by
  simp [brackets, h]

theorem brackets_cons_of_bracket {t : Token} (h : t.rise ≠ 0) (tokens : List Token) :
    brackets (t :: tokens) = t :: brackets tokens := by
  simp [brackets, h]

theorem rise_brackets (tokens : List Token) : rise (brackets tokens) = rise tokens := by
  induction tokens with
  | nil => rfl
  | cons t tokens ih =>
      by_cases h : t.rise = 0
      · rw [brackets_cons_of_level h, rise_cons, h, zero_add, ih]
      · rw [brackets_cons_of_bracket h, rise_cons, rise_cons, ih]

/-- **Only parentheses matter** to whether a row is balanced. -/
theorem balanced_brackets {tokens : List Token} : Balanced (brackets tokens) ↔ Balanced tokens := by
  constructor
  · intro h
    refine ⟨fun read hread => ?_, by rw [← rise_brackets, h.level]⟩
    rw [← rise_brackets]
    exact h.unclosed (brackets read) (hread.filter _)
  · intro h
    refine ⟨fun read hread => ?_, by rw [rise_brackets, h.level]⟩
    -- what is read of the parentheses is all of them in some part of the row
    obtain ⟨whole, hwhole, rfl⟩ := List.prefix_filter_iff.mp hread
    exact (h.unclosed whole hwhole).trans_eq (rise_brackets whole).symm

theorem brackets_productsAfter (tokens : List Token) : ∀ left : Token,
    brackets (Token.productsAfter left tokens) = brackets tokens := by
  induction tokens with
  | nil => exact fun left => rfl
  | cons right rest ih =>
      intro left
      have htail : brackets (right :: Token.productsAfter right rest) = brackets (right :: rest) := by
        rw [brackets_cons, ih, ← brackets_cons]
      rw [Token.productsAfter]
      split
      · exact htail
      · exact htail

/-- Implied products are no parentheses. -/
theorem brackets_insertProducts (tokens : List Token) :
    brackets (Token.insertProducts tokens) = brackets tokens := by
  cases tokens with
  | nil => rfl
  | cons first rest =>
      rw [Token.insertProducts, brackets_cons, brackets_productsAfter, ← brackets_cons]

theorem rise_of_isAtom {t : Token} (h : t.isAtom = true) : t.rise = 0 := by
  cases hkind : t.kind <;> simp [Token.isAtom, hkind] at h <;> simp [Token.rise, hkind]

/-- Substitution leaves parentheses as they are. -/
theorem brackets_substitute {c : Calculator} {valueOf : List Char → Drawing Failure Number}
    {tokens : List Token} : ∀ {replaced : List Token},
    (c.substitute valueOf tokens).Yields replaced → brackets replaced = brackets tokens := by
  induction tokens with
  | nil =>
      intro replaced h
      obtain rfl := Drawing.yields_ok.mp h
      rfl
  | cons t tokens ih =>
      intro replaced h
      obtain ⟨t', rest, ht, hrest, rfl⟩ := Calculator.substitute_cons_inv h
      rcases Calculator.substituteToken_cases ht with ⟨rfl, _⟩ | ⟨hatom, hnumber⟩
      · rw [brackets_cons, ih hrest, ← brackets_cons]
      · rw [brackets_cons_of_level (rise_of_isAtom hatom),
          brackets_cons_of_level (rise_of_isAtom (Token.isAtom_of_number hnumber)), ih hrest]

theorem neverClosed_of_append {ts us : List Token} (h : NeverClosed (ts ++ us)) : NeverClosed ts :=
  fun read hread => h read (hread.trans (List.prefix_append ts us))

/-- A row that goes on as one of the two parts does that it is made of. -/
theorem neverClosed_append_of_part {whole part other more : List Token}
    (hrise : rise whole = rise part + rise other)
    (hwhole : NeverClosed whole) (hpart : NeverClosed (part ++ more)) (hother : NeverClosed other) :
    NeverClosed (whole ++ more) := by
  intro read hread
  rcases prefix_append_inv hread with h | ⟨first, h, rfl⟩
  · exact hwhole read h
  · have hfirst := hpart (part ++ first) ((List.prefix_append_right_inj part).mpr h)
    have hlevel := hother other (List.prefix_refl other)
    rw [rise_append] at hfirst ⊢
    omega

theorem neverClosed_append {ts us : List Token} (hts : NeverClosed ts) (hus : NeverClosed us) :
    NeverClosed (ts ++ us) := by
  have hrise : rise ts = rise [] + rise ts := (zero_add _).symm
  exact neverClosed_append_of_part hrise hts hus hts

/-- Tokens of which none closes a parenthesis. -/
theorem neverClosed_of_rise {tokens : List Token} (h : ∀ t ∈ tokens, 0 ≤ t.rise) :
    NeverClosed tokens := by
  intro read hread
  refine List.sum_nonneg fun x hx => ?_
  obtain ⟨t, ht, rfl⟩ := List.mem_map.mp hx
  exact h t (hread.subset ht)

/-- What can be reordered is balanced. -/
theorem balanced_of_reorder {registry : Registry} {tokens out : List Token}
    (h : reorder registry tokens = .ok out) : Balanced tokens := by
  obtain ⟨written, waiting, hread, hunopened, rfl⟩ := reorder_inv h
  have hstart : LeavesOpen [] (parens []) := .nil balanced_nil
  have hleaves : LeavesOpen tokens (parens waiting) := advance_leavesOpen tokens hstart hread
  rw [parens_of_unopened hunopened] at hleaves
  cases hleaves with
  | nil balanced => exact balanced

end ReversePolish

open ReversePolish

/-! ## Tokens beside their lexemes -/

namespace Token

/-- What a bar that opens is read as. -/
def opening : List Token := [function absoluteSymbol, leftParen]

/-- All tokens of a row of lexemes. -/
def tokensOf (row : List (Lexeme × List Token)) : List Token := row.flatMap Prod.snd

@[simp] theorem tokensOf_nil : tokensOf [] = [] := rfl

@[simp] theorem tokensOf_cons (p : Lexeme × List Token) (row : List (Lexeme × List Token)) :
    tokensOf (p :: row) = p.2 ++ tokensOf row := List.flatMap_cons

@[simp] theorem tokensOf_append (row row' : List (Lexeme × List Token)) :
    tokensOf (row ++ row') = tokensOf row ++ tokensOf row' := List.flatMap_append

/-- The lexemes that are left, each with its tokens, where `last` was the last token before them and
`bars` absolute values are open. A sign has no token of its own if a number follows. -/
def traceAfter (lexicon : Lexicon) :
    Option Token → Nat → List Lexeme → Except Failure (List (Lexeme × List Token))
  | _, _, [] => .ok []
  | last, bars, ⟨kind, text, position⟩ :: rest =>
    match kind with
    | .space => (traceAfter lexicon last bars rest).map ((⟨.space, text, position⟩, []) :: ·)
    | .number =>
      let token := number (NumberLiteral.canonical text)
      (traceAfter lexicon (some token) bars rest).map ((⟨.number, text, position⟩, [token]) :: ·)
    | .word =>
      (traceAfter lexicon (some (reference text)) bars rest).map
        ((⟨.word, text, position⟩, [reference text]) :: ·)
    | .leftParen =>
      (traceAfter lexicon (some leftParen) bars rest).map
        ((⟨.leftParen, text, position⟩, [leftParen]) :: ·)
    | .rightParen =>
      (traceAfter lexicon (some rightParen) bars rest).map
        ((⟨.rightParen, text, position⟩, [rightParen]) :: ·)
    | .separator =>
      (traceAfter lexicon (some separator) bars rest).map
        ((⟨.separator, text, position⟩, [separator]) :: ·)
    | .bar =>
      if bars ≠ 0 ∧ !expectsOperand last then
        (traceAfter lexicon (some rightParen) (bars - 1) rest).map
          ((⟨.bar, text, position⟩, [rightParen]) :: ·)
      else
        (traceAfter lexicon (some leftParen) (bars + 1) rest).map
          ((⟨.bar, text, position⟩, opening) :: ·)
    | .symbol =>
      if lexicon.constants.contains text then
        (traceAfter lexicon (some (constant text)) bars rest).map
          ((⟨.symbol, text, position⟩, [constant text]) :: ·)
      else if (text = ['+'] ∨ text = ['-']) ∧ expectsOperand last then
        let sign := if text = ['-'] then ['-'] else []
        match rest with
        | ⟨.number, digits, place⟩ :: rest =>
          let token := number (sign ++ NumberLiteral.canonical digits)
          (traceAfter lexicon (some token) bars rest).map fun row =>
            (⟨.symbol, text, position⟩, []) :: (⟨.number, digits, place⟩, [token]) :: row
        | rest =>
          if text = ['-'] then
            (traceAfter lexicon (some (function negateSymbol)) bars rest).map
              ((⟨.symbol, text, position⟩, [function negateSymbol]) :: ·)
          else
            (traceAfter lexicon last bars rest).map ((⟨.symbol, text, position⟩, []) :: ·)
      else
        (ofSymbol lexicon last text position).bind fun token =>
          (traceAfter lexicon (some token) bars rest).map
            ((⟨.symbol, text, position⟩, [token]) :: ·)

variable {lexicon : Lexicon}

/-- A sign that no number follows. -/
theorem traceAfter_sign {last : Option Token} {bars position : Nat} {text : List Char}
    {rest : List Lexeme} (hconstant : ¬lexicon.constants.contains text = true)
    (hsign : (text = ['+'] ∨ text = ['-']) ∧ expectsOperand last = true)
    (hrest : ∀ l ∈ rest.head?, l.kind ≠ .number) :
    traceAfter lexicon last bars (⟨.symbol, text, position⟩ :: rest) =
      if text = ['-'] then (traceAfter lexicon (some (function negateSymbol)) bars rest).map
        ((⟨.symbol, text, position⟩, [function negateSymbol]) :: ·)
      else (traceAfter lexicon last bars rest).map ((⟨.symbol, text, position⟩, []) :: ·) := by
  rw [traceAfter, if_neg hconstant, if_pos hsign]
  cases rest with
  | nil => rfl
  | cons l rest =>
      obtain ⟨kind, digits, place⟩ := l
      have hkind : kind ≠ .number := hrest _ rfl
      cases kind <;> first | rfl | exact absurd rfl hkind

end Token

/-- A bar or a parenthesis. -/
def Lexeme.isBracket (l : Lexeme) : Bool :=
  match l.kind with
  | .bar | .leftParen | .rightParen => true
  | _ => false

namespace Token

variable {lexicon : Lexicon}

/-- **What a lexeme is read as.** Only bars and parentheses are read as parentheses. -/
inductive ReadAs : Lexeme → List Token → Prop
  | opens {l : Lexeme} (kind : l.kind = .bar) : ReadAs l opening
  | closes {l : Lexeme} (kind : l.kind = .bar) : ReadAs l [rightParen]
  | leftParen {l : Lexeme} (kind : l.kind = .leftParen) : ReadAs l [leftParen]
  | rightParen {l : Lexeme} (kind : l.kind = .rightParen) : ReadAs l [rightParen]
  | level {l : Lexeme} {tokens : List Token} (plain : l.isBracket = false)
      (level : ∀ t ∈ tokens, t.rise = 0) : ReadAs l tokens

/-- A lexeme that is read as one token. -/
theorem ReadAs.single {l : Lexeme} {t : Token} (plain : l.isBracket = false) (level : t.rise = 0) :
    ReadAs l [t] :=
  .level plain (List.forall_mem_singleton.mpr level)

/-- A lexeme that is read as no token. -/
theorem ReadAs.none {l : Lexeme} (plain : l.isBracket = false) : ReadAs l [] :=
  .level plain nofun

/-- A lexeme closes what stands before it, or nothing before it is closed. -/
theorem ReadAs.closes_or_neverClosed {l : Lexeme} {tokens : List Token} (h : ReadAs l tokens) :
    tokens = [Token.rightParen] ∧ (l.kind = .bar ∨ l.kind = .rightParen) ∨ NeverClosed tokens := by
  cases h with
  | opens kind => exact .inr (neverClosed_of_rise (by decide))
  | closes kind => exact .inl ⟨rfl, .inl kind⟩
  | leftParen kind => exact .inr (neverClosed_of_rise (by decide))
  | rightParen kind => exact .inl ⟨rfl, .inr kind⟩
  | level plain level => exact .inr (neverClosed_of_rise fun t ht => (level t ht).ge)

/-- The lexemes of a row, each of them beside what it is read as. -/
structure TraceOf (lexemes : List Lexeme) (row : List (Lexeme × List Token)) : Prop where
  lexemes : row.map Prod.fst = lexemes
  read : ∀ p ∈ row, ReadAs p.1 p.2

theorem traceOf_nil : TraceOf [] [] := ⟨rfl, nofun⟩

theorem traceOf_singleton {l : Lexeme} {tokens : List Token} (h : ReadAs l tokens) :
    TraceOf [l] [(l, tokens)] :=
  ⟨rfl, List.forall_mem_singleton.mpr h⟩

theorem TraceOf.append {front rest : List Lexeme} {row row' : List (Lexeme × List Token)}
    (h : TraceOf front row) (h' : TraceOf rest row') : TraceOf (front ++ rest) (row ++ row') :=
  ⟨by rw [List.map_append, h.lexemes, h'.lexemes],
    List.forall_mem_append.mpr ⟨h.read, h'.read⟩⟩

/-- **A turn is traced** with each of its lexemes beside what it is read as. -/
theorem Turn.traced {last : Option Token} {bars bars' : Nat} {front rest : List Lexeme}
    {read : List Token} (turn : Turn lexicon last bars rest front read bars') :
    ∃ row, TraceOf front row ∧ tokensOf row = read ∧
      traceAfter lexicon last bars (front ++ rest) =
        (traceAfter lexicon (read.getLast?.or last) bars' rest).map (row ++ ·) := by
  cases turn with
  | space => exact ⟨_, traceOf_singleton (.none rfl), rfl, rfl⟩
  | number | word | separator => exact ⟨_, traceOf_singleton (.single rfl rfl), rfl, rfl⟩
  | leftParen => exact ⟨_, traceOf_singleton (.leftParen rfl), rfl, rfl⟩
  | rightParen => exact ⟨_, traceOf_singleton (.rightParen rfl), rfl, rfl⟩
  | closes text position hbars =>
      refine ⟨_, traceOf_singleton (.closes rfl), rfl, ?_⟩
      rw [List.singleton_append, traceAfter, if_pos hbars]
      rfl
  | opens text position hbars =>
      refine ⟨_, traceOf_singleton (.opens rfl), rfl, ?_⟩
      rw [List.singleton_append, traceAfter, if_neg hbars]
      rfl
  | constant text position hconstant =>
      refine ⟨_, traceOf_singleton (.single rfl rfl), rfl, ?_⟩
      rw [List.singleton_append, traceAfter, if_pos hconstant]
      rfl
  | signed text position digits place hconstant hsign =>
      refine ⟨_, (traceOf_singleton (.none rfl)).append (traceOf_singleton (.single rfl rfl)), rfl, ?_⟩
      rw [List.cons_append, List.singleton_append, traceAfter, if_neg hconstant, if_pos hsign]
      rfl
  | minus position hconstant hexpected hrest =>
      refine ⟨_, traceOf_singleton (.single rfl rfl), rfl, ?_⟩
      exact (traceAfter_sign hconstant ⟨.inr rfl, hexpected⟩ hrest).trans (if_pos rfl)
  | plus position hconstant hexpected hrest =>
      refine ⟨_, traceOf_singleton (.none rfl), rfl, ?_⟩
      exact (traceAfter_sign hconstant ⟨.inl rfl, hexpected⟩ hrest).trans (if_neg (by decide))
  | symbol text position t hconstant hsign hsymbol =>
      have hlevel : t.rise = 0 := by
        rcases (ofSymbol_eq_ok hsymbol).1 with rfl | rfl <;> rfl
      refine ⟨_, traceOf_singleton (.single rfl hlevel), rfl, ?_⟩
      rw [List.singleton_append, traceAfter, if_neg hconstant, if_neg hsign, hsymbol]
      rfl

theorem Stuck.traced {last : Option Token} {l : Lexeme} {failure : Failure}
    (h : Stuck lexicon last l failure) (bars : Nat) (rest : List Lexeme) :
    traceAfter lexicon last bars (l :: rest) = .error failure := by
  obtain ⟨kind, text, position⟩ := l
  obtain ⟨rfl, hconstant, hsign, hfails⟩ := h
  rw [traceAfter, if_neg hconstant, if_neg hsign, hfails]
  rfl

/-- **The tokens of a trace** are those of its lexemes. -/
theorem traceAfter_tokens (last : Option Token) (bars : Nat) (lexemes : List Lexeme) :
    (traceAfter lexicon last bars lexemes).map tokensOf =
      ofLexemesAfter lexicon last bars lexemes := by
  induction last, bars, lexemes using turns lexicon with
  | nil last bars => rfl
  | stuck bars rest hstuck =>
      rw [hstuck.traced, hstuck.eq]
      rfl
  | turn rest first ih =>
      obtain ⟨row, _, hread, htrace⟩ := first.traced
      rw [htrace, first.eq, ← ih, Except.map_map, Except.map_map]
      simp only [tokensOf_append, hread]

/-- **A trace has all lexemes in turn**, each beside what it is read as. -/
theorem traceAfter_gives (last : Option Token) (bars : Nat) (lexemes : List Lexeme) :
    (traceAfter lexicon last bars lexemes).Gives (TraceOf lexemes) := by
  induction last, bars, lexemes using turns lexicon with
  | nil last bars => exact Except.gives_ok traceOf_nil
  | stuck bars rest hstuck =>
      rw [hstuck.traced]
      exact Except.gives_error _
  | turn rest first ih =>
      obtain ⟨row, hrow, _, htrace⟩ := first.traced
      rw [htrace]
      exact .map (ih.mono fun others hothers => hrow.append hothers)

end Token

namespace Lexicon

/-- The lexemes of a line, each with the tokens that it is read as before products are written out.
-/
def trace (lexicon : Lexicon) (line : List Char) :
    Except Failure (List (Lexeme × List Token)) :=
  (Lexeme.lex lexicon.symbols line).bind (Token.traceAfter lexicon none 0)

theorem tokenize_eq_trace (lexicon : Lexicon) (line : List Char) :
    lexicon.tokenize line =
      (lexicon.trace line).map fun row => Token.insertProducts (Token.tokensOf row) := by
  rw [trace, Except.map_bind]
  refine congrArg (Except.bind _) (funext fun lexemes => ?_)
  rw [Token.ofLexemes, ← Token.traceAfter_tokens]
  cases Token.traceAfter lexicon none 0 lexemes <;> rfl

theorem traceOf_of_trace {lexicon : Lexicon} {line : List Char}
    {row : List (Lexeme × List Token)} (h : lexicon.trace line = .ok row) :
    Lexeme.lex lexicon.symbols line = .ok (row.map Prod.fst) ∧
      ∀ p ∈ row, Token.ReadAs p.1 p.2 := by
  obtain ⟨lexemes, hlex, hrow⟩ := Except.bind_eq_ok.mp h
  obtain ⟨rfl, hread⟩ := Token.traceAfter_gives none 0 lexemes row hrow
  exact ⟨hlex, hread⟩

end Lexicon

/-! ## What closes what -/

namespace Token

variable {row between between' after : List (Lexeme × List Token)} {closer closer' : Lexeme}

/-- **What closes a parenthesis** that stands before a row: the lexeme read as a closing parenthesis
that a balanced part of the row comes before. -/
structure ClosedBy (after between : List (Lexeme × List Token)) (closer : Lexeme) : Prop where
  split : ∃ rest, after = between ++ (closer, [rightParen]) :: rest
  balanced : Balanced (tokensOf between)

theorem rise_closing : ReversePolish.rise [rightParen] = -1 := rfl

/-- No row that goes on after what closes the parenthesis is balanced. -/
theorem ClosedBy.not_balanced (h : ClosedBy after between closer)
    (rest : List (Lexeme × List Token)) :
    ¬Balanced (tokensOf (between ++ (closer, [rightParen]) :: rest)) := by
  intro hbalanced
  have hread : tokensOf between ++ [rightParen] <+:
      tokensOf (between ++ (closer, [rightParen]) :: rest) := by
    rw [tokensOf_append, tokensOf_cons, ← List.append_assoc]
    exact List.prefix_append _ _
  have hnonneg := hbalanced.unclosed _ hread
  rw [rise_append, h.balanced.level, rise_closing] at hnonneg
  omega

theorem ClosedBy.nothing_between {more rest rest' : List (Lexeme × List Token)}
    (h : ClosedBy after between closer) (hbalanced : Balanced (tokensOf (between ++ more)))
    (heq : (closer, [rightParen]) :: rest = more ++ (closer', [rightParen]) :: rest') :
    more = [] ∧ closer = closer' := by
  cases more with
  | nil => exact ⟨rfl, congrArg Prod.fst (List.cons.inj heq).1⟩
  | cons p more =>
      obtain ⟨rfl, -⟩ := List.cons.inj heq
      exact absurd hbalanced (h.not_balanced more)

/-- **Nothing else closes it.** -/
theorem ClosedBy.unique (h : ClosedBy after between closer) (h' : ClosedBy after between' closer') :
    between = between' ∧ closer = closer' := by
  obtain ⟨rest, rfl⟩ := h.split
  obtain ⟨rest', heq⟩ := h'.split
  rcases List.append_eq_append_iff.mp heq with ⟨more, rfl, htail⟩ | ⟨more, rfl, htail⟩
  · obtain ⟨rfl, hcloser⟩ := h.nothing_between h'.balanced htail
    exact ⟨(List.append_nil between).symm, hcloser⟩
  · obtain ⟨rfl, hcloser⟩ := h'.nothing_between h.balanced htail
    exact ⟨List.append_nil between', hcloser.symm⟩

/-- The parenthesis is closed where a balanced row ends. -/
theorem balanced_of_closing {ts : List Token} (h : NeverClosed ts)
    (hclosing : ¬NeverClosed (ts ++ [rightParen])) : Balanced ts := by
  refine ⟨h, le_antisymm ?_ (h ts (List.prefix_refl ts))⟩
  by_contra hrise
  refine hclosing fun read hread => ?_
  rcases prefix_append_inv hread with hpart | ⟨more, hmore, rfl⟩
  · exact h read hpart
  · rcases prefix_singleton_inv hmore with rfl | rfl
    · simpa using h ts (List.prefix_refl ts)
    · rw [rise_append, rise_closing]
      omega

/-- A row that more parentheses are closed in than opened has one that closes what stands before. -/
theorem exists_closedBy (hread : ∀ p ∈ row, ReadAs p.1 p.2) (h : ¬NeverClosed (tokensOf row)) :
    ∃ between closer, ClosedBy row between closer ∧
      (closer.kind = .bar ∨ closer.kind = .rightParen) := by
  -- the induction is from the end: the row is cut short until its last lexeme is the first to close
  -- more than is open
  induction row using List.reverseRecOn with
  | nil => exact absurd balanced_nil.unclosed h
  | append_singleton row p ih =>
      have hrow : ∀ q ∈ row, ReadAs q.1 q.2 := fun q hq => hread q (List.mem_append_left _ hq)
      by_cases hclosed : NeverClosed (tokensOf row)
      · rw [tokensOf_append, tokensOf_cons, tokensOf_nil, List.append_nil] at h
        obtain ⟨l, tokens⟩ := p
        rcases (hread (l, tokens) (by simp)).closes_or_neverClosed with ⟨rfl, hkind⟩ | hnever
        · exact ⟨row, l, ⟨⟨[], rfl⟩, balanced_of_closing hclosed h⟩, hkind⟩
        · exact absurd (neverClosed_append hclosed hnever) h
      · obtain ⟨between, closer, hclosedBy, hkind⟩ := ih hrow hclosed
        obtain ⟨rest, rfl⟩ := hclosedBy.split
        refine ⟨between, closer, ⟨⟨rest ++ [p], ?_⟩, hclosedBy.balanced⟩, hkind⟩
        rw [List.append_assoc, List.cons_append]

/-! ## Bars and parentheses apart -/

/-- The bars among some lexemes. -/
def barsOf (row : List (Lexeme × List Token)) : List (Lexeme × List Token) :=
  row.filter (·.1.kind = .bar)

/-- The lexemes that are no bars. -/
def othersOf (row : List (Lexeme × List Token)) : List (Lexeme × List Token) :=
  row.filter (·.1.kind ≠ .bar)

/-- **Bars and parentheses are balanced each by themselves.** -/
structure Apart (row : List (Lexeme × List Token)) : Prop where
  bars : Balanced (tokensOf (barsOf row))
  others : Balanced (tokensOf (othersOf row))

@[simp] theorem barsOf_append (row row' : List (Lexeme × List Token)) :
    barsOf (row ++ row') = barsOf row ++ barsOf row' := List.filter_append ..

@[simp] theorem othersOf_append (row row' : List (Lexeme × List Token)) :
    othersOf (row ++ row') = othersOf row ++ othersOf row' := List.filter_append ..

theorem barsOf_singleton (p : Lexeme × List Token) :
    barsOf [p] = if p.1.kind = .bar then [p] else [] := by
  by_cases h : p.1.kind = .bar <;> simp [barsOf, h]

theorem othersOf_singleton (p : Lexeme × List Token) :
    othersOf [p] = if p.1.kind = .bar then [] else [p] := by
  by_cases h : p.1.kind = .bar <;> simp [othersOf, h]

theorem rise_barsOf_add_othersOf (row : List (Lexeme × List Token)) :
    ReversePolish.rise (tokensOf row) = ReversePolish.rise (tokensOf (barsOf row)) +
      ReversePolish.rise (tokensOf (othersOf row)) := by
  induction row using List.reverseRecOn with
  | nil => rfl
  | append_singleton row p ih =>
      by_cases h : p.1.kind = .bar <;>
        simp only [tokensOf_append, barsOf_append, othersOf_append, barsOf_singleton,
          othersOf_singleton, h, if_true, if_false, rise_append, ih, tokensOf_nil, rise_nil] <;>
        ring

/-- Where neither part closes more than it opens, the row does not. -/
theorem neverClosed_of_parts (hbars : NeverClosed (tokensOf (barsOf row)))
    (hothers : NeverClosed (tokensOf (othersOf row))) : NeverClosed (tokensOf row) := by
  -- the last lexeme belongs to one of the parts, and the other part stays as it is
  induction row using List.reverseRecOn with
  | nil => exact balanced_nil.unclosed
  | append_singleton row p ih =>
      rw [barsOf_append, tokensOf_append] at hbars
      rw [othersOf_append, tokensOf_append] at hothers
      have hbars' := neverClosed_of_append hbars
      have hothers' := neverClosed_of_append hothers
      have hrow := ih hbars' hothers'
      have hrise := rise_barsOf_add_othersOf row
      rw [tokensOf_append]
      by_cases h : p.1.kind = .bar
      · rw [barsOf_singleton, if_pos h] at hbars
        exact neverClosed_append_of_part hrise hrow hbars hothers'
      · rw [othersOf_singleton, if_neg h] at hothers
        exact neverClosed_append_of_part (hrise.trans (add_comm _ _)) hrow hothers hbars'

/-- **Bars and parentheses that are balanced each by themselves** are so together. -/
theorem Apart.balanced (h : Apart row) : Balanced (tokensOf row) := by
  refine ⟨neverClosed_of_parts h.bars.unclosed h.others.unclosed, ?_⟩
  rw [rise_barsOf_add_othersOf, h.bars.level, h.others.level, add_zero]

end Token

open Token

/-! ## Lines that are accepted -/

namespace Calculator

/-- **What closes a bar.** In a line that is accepted, bars and parentheses taken together are
balanced. So each bar that opens is closed further on, by a bar or by a closing parenthesis, and
what stands between is balanced as well. If bars and parentheses each are balanced by themselves
between a bar that opens and a later one that closes, that bar closes it. -/
theorem reversePolish_bars {c : Calculator} {text : List Char} {vars : Variables}
    {out : List Token} (accepted : c.reversePolish text vars = .ok out) :
    ∃ row, c.lexicon.trace text = .ok row ∧
      Lexeme.lex c.lexicon.symbols text = .ok (row.map Prod.fst) ∧
      c.tokenize text = .ok (insertProducts (tokensOf row)) ∧
      (∀ p ∈ row, ReadAs p.1 p.2) ∧ Balanced (tokensOf row) ∧
      ∀ before bar after, row = before ++ (bar, opening) :: after →
        (∃ between closer, ClosedBy after between closer ∧
          (closer.kind = .bar ∨ closer.kind = .rightParen)) ∧
        ∀ between closer rest, after = between ++ (closer, [rightParen]) :: rest → Apart between →
          ClosedBy after between closer := by
  obtain ⟨tokens, replaced, htokens, hreplaced, hreorder⟩ :=
    reversePolishWith_inv (Drawing.yields_of_outcome accepted)
  have htrace := htokens
  rw [tokenize, Lexicon.tokenize_eq_trace] at htrace
  obtain ⟨row, hrow, rfl⟩ := Except.map_eq_ok.mp htrace
  obtain ⟨hlex, hread⟩ := Lexicon.traceOf_of_trace hrow
  have hbalanced : Balanced (tokensOf row) := by
    -- what is reordered differs from the tokens of the row in operands and products only
    have hreplaced' := balanced_of_reorder hreorder
    rwa [← balanced_brackets, brackets_substitute hreplaced, brackets_insertProducts,
      balanced_brackets] at hreplaced'
  refine ⟨row, hrow, hlex, htokens, hread, hbalanced, ?_⟩
  rintro before bar after rfl
  refine ⟨exists_closedBy (fun p hp => hread p (by simp [hp])) fun hnever => ?_,
    fun between closer rest hsplit hapart => ⟨⟨rest, hsplit⟩, hapart.balanced⟩⟩
  -- if it stayed open, more would be opened in the line than closed
  have hbefore := hbalanced.unclosed (tokensOf before) (by simp [List.prefix_append])
  have hafter := hnever (tokensOf after) (List.prefix_refl _)
  have hlevel := hbalanced.level
  rw [tokensOf_append, tokensOf_cons, rise_append, rise_append,
    show ReversePolish.rise opening = 1 from rfl] at hlevel
  omega

/-- In `|(2|+|3)|` the first bar is closed by the last one. -/
theorem reversePolish_bars_first_last :
    ∃ row bar after, ({} : Calculator).lexicon.trace "|(2|+|3)|".toList = .ok row ∧
      Balanced (tokensOf row) ∧ row = (bar, opening) :: after ∧
      ∃ between closer, ClosedBy after between closer ∧
        (closer.kind = .bar ∨ closer.kind = .rightParen) := by
  have accepted : ({} : Calculator).reversePolish "|(2|+|3)|".toList =
      .ok [.number ['2'], .number ['3'], .function "abs".toList, .operator ['+'],
        .function "abs".toList] := by
    decide +kernel
  have htrace : ({} : Calculator).lexicon.trace "|(2|+|3)|".toList =
      .ok [(⟨.bar, ['|'], 0⟩, opening), (⟨.leftParen, ['('], 1⟩, [.leftParen]),
        (⟨.number, ['2'], 2⟩, [.number ['2']]), (⟨.bar, ['|'], 3⟩, [.rightParen]),
        (⟨.symbol, ['+'], 4⟩, [.operator ['+']]), (⟨.bar, ['|'], 5⟩, opening),
        (⟨.number, ['3'], 6⟩, [.number ['3']]), (⟨.rightParen, [')'], 7⟩, [.rightParen]),
        (⟨.bar, ['|'], 8⟩, [.rightParen])] := by
    decide +kernel
  obtain ⟨row, hrow, -, -, -, hbalanced, hclosed⟩ := reversePolish_bars accepted
  obtain rfl := Except.ok.inj (htrace.symm.trans hrow)
  exact ⟨_, _, _, htrace, hbalanced, rfl, (hclosed [] _ _ rfl).1⟩

/-- In `|(2|)` the first bar is closed by the parenthesis, and by no bar: the second bar closes the
parenthesis that opens. -/
theorem reversePolish_bar_closed_by_parenthesis :
    ∃ bar after between closer,
      ({} : Calculator).reversePolish "|(2|)".toList =
        .ok [.number ['2'], .function "abs".toList] ∧
      ({} : Calculator).lexicon.trace "|(2|)".toList = .ok ((bar, opening) :: after) ∧
      bar.kind = .bar ∧ ClosedBy after between closer ∧ closer.kind = .rightParen ∧
      ∀ between' closer', ClosedBy after between' closer' → closer'.kind ≠ .bar := by
  let between : List (Lexeme × List Token) := [(⟨.leftParen, ['('], 1⟩, [.leftParen]),
    (⟨.number, ['2'], 2⟩, [.number ['2']]), (⟨.bar, ['|'], 3⟩, [.rightParen])]
  let closer : Lexeme := ⟨.rightParen, [')'], 4⟩
  have htwo : Balanced [Token.number ['2']] := balanced_singleton rfl
  have hinside : Balanced (tokensOf between) :=
    htwo.enclosed (show Token.leftParen.kind = .leftParen from rfl)
      (show Token.rightParen.kind = .rightParen from rfl)
  have hclosed : ClosedBy (between ++ [(closer, [.rightParen])]) between closer :=
    ⟨⟨[], rfl⟩, hinside⟩
  refine ⟨⟨.bar, ['|'], 0⟩, between ++ [(closer, [.rightParen])], between, closer,
    by decide +kernel, by decide +kernel, rfl, hclosed, rfl, fun between' closer' h => ?_⟩
  rw [← (hclosed.unique h).2]
  nofun

end Calculator

end DecimalCalc
