import DecimalCalc.Proofs.TokenPlaces

/-!
# White space only separates

White space that is put between two lexemes of a line, before the first or after the last, ends the
lexeme before it where this ended anyway, and joins any white space that stands there already
(`Lexeme.pieces?_insert`). No token is read from it, and of the lexemes around it only a sign looks at
what comes next: where an operand is expected it goes with a number right after it
(`Token.Folded`). **Everywhere else white space leaves the tokens as they are**
(`Lexicon.tokenize_insert_space`).
-/

set_option autoImplicit false

namespace DecimalCalc

namespace Lexeme

variable {symbols : List (List Char)} {others : List (LexemeKind × Language Char)}
  {kind : LexemeKind} {text rest space w x z : List Char} {front back : List Lexeme}

/-- What is read is the longest word of its kind. -/
theorem Reads.exists_longest (h : Reads others text kind w) :
    ∃ L, (kind, L) ∈ others ∧ Longest L text w := by
  induction h with
  | first longest => exact ⟨_, List.mem_cons_self, longest⟩
  | next _ _ ih =>
      obtain ⟨L, hL, longest⟩ := ih
      exact ⟨L, List.mem_cons_of_mem _ hL, longest⟩

/-! ## Cutting a line in two -/

theorem cuts_append_inv : ∀ {front : List Lexeme} {start : Nat} {text : List Char},
    Cuts symbols start text (front ++ back) rest →
      Cuts symbols start text front (back.flatMap Lexeme.text ++ rest) ∧
        Cuts symbols (start + (front.flatMap Lexeme.text).length)
          (back.flatMap Lexeme.text ++ rest) back rest := by
  intro front
  induction front with
  | nil =>
      intro start text h
      obtain rfl := h.joined
      exact ⟨cuts_nil start _, h⟩
  | cons l front ih =>
      intro start text h
      have htail : Cuts symbols _ _ (front ++ back) rest := h.tail
      obtain ⟨hfront, hback⟩ := ih htail
      have hread := h.read [] l (front ++ back) rfl
      have hplace : l.position = start := h.placed [] l (front ++ back) rfl
      have hjoined := h.joined
      rw [List.cons_append, List.flatMap_cons, List.append_assoc] at hjoined
      rw [List.flatMap_cons, List.append_assoc] at hread
      obtain ⟨kind, w, position⟩ := l
      obtain rfl : position = start := hplace
      obtain rfl := hjoined
      refine ⟨hfront.cons (h.nonempty _ List.mem_cons_self) hread, ?_⟩
      rwa [List.flatMap_cons, List.length_append, ← Nat.add_assoc]

/-- The pieces of a text are those that it is cut into. -/
theorem Cuts.pieces? (exist : symbols ≠ []) (nonempty : [] ∉ symbols) {start : Nat}
    (h : Cuts symbols start text front rest) : pieces? symbols 0 text =
      (pieces? symbols 0 rest).map (front.map unplaced ++ ·) := by
  rw [← lexFrom_pieces text start 0, lexFrom_of_cuts exist nonempty front h,
    ← lexFrom_pieces rest (start + (front.flatMap Lexeme.text).length) 0]
  cases lexFrom symbols (start + (front.flatMap Lexeme.text).length) 0 rest <;>
    simp [Except.map, Except.toOption]

/-- The pieces of the lexemes into which a whole text is cut. -/
theorem Cuts.pieces?_eq (exist : symbols ≠ []) (nonempty : [] ∉ symbols) {start : Nat}
    (h : Cuts symbols start text back []) :
    Lexeme.pieces? symbols 0 (back.flatMap Lexeme.text) = some (back.map unplaced) := by
  have hpieces := h.pieces? exist nonempty
  rw [← h.joined, List.append_nil] at hpieces
  rw [hpieces]
  simp [Lexeme.pieces?]

/-- **Lexemes that do not end in white space are cut alike before any white space.** -/
theorem Cuts.before_space (h : Unspaced symbols) {start : Nat}
    (cuts : Cuts symbols start text front rest) (hlast : ∀ l ∈ front.getLast?, l.kind ≠ .space)
    (hx : WhiteFirst x) : Cuts symbols start (front.flatMap Lexeme.text ++ x) front x where
  joined := rfl
  nonempty := cuts.nonempty
  placed := cuts.placed
  read := by
    intro before l after heq
    have hread := cuts.read before l after heq
    have hpart : (l :: after).flatMap Lexeme.text <+:
        (l :: after).flatMap Lexeme.text ++ rest := List.prefix_append _ _
    refine h.reads_before (hread.of_prefix hpart (by simp)) ?_ hx
    -- the last of the lexemes is not white space
    obtain ⟨init, last, hinit⟩ : ∃ init last, l :: after = init ++ [last] :=
      ⟨_, _, (List.dropLast_append_getLast (List.cons_ne_nil l after)).symm⟩
    have hkind : last.kind ≠ .space := by
      refine hlast last ?_
      rw [heq, hinit, ← List.append_assoc, List.getLast?_concat]
      rfl
    have hlastRead := (cuts.read (before ++ init) last [] (by rw [heq, hinit]; simp)).alone
    obtain ⟨c, hc⟩ := List.exists_mem_of_ne_nil _ (Alone.ne_nil hlastRead h.nonempty)
    exact ⟨c, by rw [hinit]; simp [hc], h.word_not_space hlastRead hkind c hc⟩

/-- A run of white space goes on to its end. -/
theorem Cuts.after_space {start position : Nat}
    (cuts : Cuts symbols start text (⟨.space, space, position⟩ :: back) rest) :
    space ∈ Text.run Text.isWhiteSpace ∧
      ∀ c ∈ (back.flatMap Lexeme.text ++ rest).head?, Text.isWhiteSpace c = false := by
  have hread := cuts.read [] _ back rfl
  obtain ⟨L, hL, hlongest⟩ := hread.exists_longest
  obtain rfl := eq_run_of_space hL
  refine ⟨hlongest.mem, fun c hc => ?_⟩
  by_contra hwhite
  rw [Bool.not_eq_false] at hwhite
  obtain ⟨x, hx⟩ : ∃ x, back.flatMap Lexeme.text ++ rest = c :: x :=
    List.head?_eq_some_iff.mp hc
  -- otherwise the run would have gone on
  have hlonger : space ++ [c] ∈ Text.run Text.isWhiteSpace := by
    refine ⟨by simp, fun d hd => ?_⟩
    rcases List.mem_append.mp hd with hd | hd
    · exact hlongest.mem.2 d hd
    · rw [List.mem_singleton.mp hd, hwhite]
  have hbound := hlongest.bound _ hlonger (by
    rw [List.flatMap_cons, List.append_assoc, hx]
    exact ⟨x, by simp⟩)
  exact absurd hbound (by simp)

/-- What a text is cut into where white space stands between two parts of it. -/
theorem Cuts.pieces?_space (h : Unspaced symbols) {start : Nat}
    (cuts : Cuts symbols start text front rest) (hlast : ∀ l ∈ front.getLast?, l.kind ≠ .space)
    (hspace : space ∈ Text.run Text.isWhiteSpace)
    (hx : ∀ c ∈ x.head?, Text.isWhiteSpace c = false) :
    Lexeme.pieces? symbols 0 (front.flatMap Lexeme.text ++ (space ++ x)) =
      (Lexeme.pieces? symbols 0 x).map (front.map unplaced ++ ⟨.space, space, 0⟩ :: ·) := by
  have hrun : Cuts symbols 0 (space ++ x) [⟨.space, space, 0⟩] x :=
    (cuts_nil _ x).cons hspace.1 (h.reads_run hspace hx)
  rw [(cuts.before_space h hlast (whiteFirst_append hspace x)).pieces? h.exist h.nonempty,
    hrun.pieces? h.exist h.nonempty, Option.map_map]
  rfl

/-- Lexemes that do not begin with white space are a text that does not. -/
theorem Cuts.head_not_space (h : Unspaced symbols) {start : Nat}
    (cuts : Cuts symbols start text back []) (hfirst : ∀ l ∈ back.head?, l.kind ≠ .space) :
    ∀ c ∈ (back.flatMap Lexeme.text).head?, Text.isWhiteSpace c = false := by
  cases back with
  | nil => exact nofun
  | cons l back =>
      have hword := h.word_not_space (cuts.read [] l back rfl).alone (hfirst l rfl)
      intro c hc
      obtain ⟨d, w, hw⟩ := List.exists_cons_of_ne_nil (cuts.nonempty l List.mem_cons_self)
      rw [List.flatMap_cons, hw] at hc
      obtain rfl := Option.some.inj hc
      exact hword d (hw ▸ List.mem_cons_self)

/-- Two lexemes of white space never stand side by side. -/
theorem Cuts.space_apart {start : Nat} {l : Lexeme}
    (cuts : Cuts symbols start text (front ++ l :: back) rest) (hkind : l.kind = .space) :
    ∀ l' ∈ front.getLast?, l'.kind ≠ .space := by
  intro l' hl' hspace
  obtain ⟨init, rfl⟩ := List.getLast?_eq_some_iff.mp hl'
  obtain ⟨kind, w, position⟩ := l
  obtain rfl : kind = .space := hkind
  obtain ⟨hrun, -⟩ := (cuts_append_inv cuts).2.after_space
  obtain ⟨kind, w', position'⟩ := l'
  obtain rfl : kind = .space := hspace
  rw [List.append_assoc] at cuts
  obtain ⟨-, hnext⟩ := Cuts.after_space (cuts_append_inv cuts).2
  -- the first run would go on over the second one
  obtain ⟨c, w, rfl⟩ := List.exists_cons_of_ne_nil hrun.1
  have hother := hnext c rfl
  rw [hrun.2 c List.mem_cons_self] at hother
  cases hother

theorem space_append {space space' : List Char} (h : space ∈ Text.run Text.isWhiteSpace)
    (h' : space' ∈ Text.run Text.isWhiteSpace) : space ++ space' ∈ Text.run Text.isWhiteSpace := by
  refine ⟨by simp [h.1], fun c hc => ?_⟩
  exact (List.mem_append.mp hc).elim (h.2 c) (h'.2 c)

/-- **White space between two lexemes** becomes a lexeme between them, unless it joins white space
that is one of the two. -/
theorem pieces?_insert (h : Unspaced symbols) {line : List Char} {before after : List Lexeme}
    (hlex : lex symbols line = .ok (before ++ after))
    (hspace : space ∈ Text.run Text.isWhiteSpace) :
    ∃ front joined back,
      pieces? symbols 0 (before.flatMap Lexeme.text ++ space ++ after.flatMap Lexeme.text) =
        some (front.map unplaced ++ ⟨.space, joined, 0⟩ :: back.map unplaced) ∧
      (before = front ∧ after = back ∨
        ∃ text position, before ++ after = front ++ ⟨.space, text, position⟩ :: back) := by
  have hcuts := (lex_eq_ok_iff h.exist h.nonempty).mp hlex
  obtain ⟨hbefore, hafter⟩ := cuts_append_inv hcuts
  by_cases hlast : ∀ l ∈ before.getLast?, l.kind ≠ .space
  · by_cases hfirst : ∀ l ∈ after.head?, l.kind ≠ .space
    · refine ⟨before, space, after, ?_, .inl ⟨rfl, rfl⟩⟩
      rw [List.append_assoc, hbefore.pieces?_space h hlast hspace (hafter.head_not_space h hfirst),
        hafter.pieces?_eq h.exist h.nonempty]
      rfl
    · -- the white space joins what comes after it
      obtain ⟨⟨kind, w, position⟩, hhead, hkind⟩ : ∃ l ∈ after.head?, l.kind = .space := by
        simpa using hfirst
      obtain rfl : kind = .space := hkind
      obtain ⟨back, rfl⟩ := List.head?_eq_some_iff.mp hhead
      obtain ⟨hrun, hnext⟩ := hafter.after_space
      rw [List.append_nil] at hnext
      refine ⟨before, space ++ w, back, ?_, .inr ⟨w, position, rfl⟩⟩
      have hpieces := hbefore.pieces?_space h hlast (space_append hspace hrun) hnext
      rw [hafter.tail.pieces?_eq h.exist h.nonempty] at hpieces
      simpa using hpieces
  · -- the white space joins what stands before it
    obtain ⟨⟨kind, w, position⟩, hhead, hkind⟩ : ∃ l ∈ before.getLast?, l.kind = .space := by
      simpa using hlast
    obtain rfl : kind = .space := hkind
    obtain ⟨front, rfl⟩ := List.getLast?_eq_some_iff.mp hhead
    have hline : Cuts symbols 0 line (front ++ ⟨.space, w, position⟩ :: after) [] := by
      simpa using hcuts
    obtain ⟨hfront, hjoined⟩ := cuts_append_inv hline
    obtain ⟨hrun, hnext⟩ := hjoined.after_space
    rw [List.append_nil] at hnext
    refine ⟨front, w ++ space, after, ?_, .inr ⟨w, position, by simp⟩⟩
    have hpieces := hfront.pieces?_space h (hline.space_apart rfl) (space_append hrun hspace) hnext
    rw [hafter.pieces?_eq h.exist h.nonempty] at hpieces
    simpa using hpieces

end Lexeme

namespace Token

variable {lexicon : Lexicon} {before after : List Lexeme}

/-! ## Tokens around white space -/

/-- A lexeme that may be a sign. -/
def IsSign (l : Lexeme) : Prop := l.kind = .symbol ∧ (l.text = ['+'] ∨ l.text = ['-'])

/-- **A sign that goes with the number after it**: it stands where an operand is expected after the
tokens of the lexemes `front`. -/
structure Folded (lexicon : Lexicon) (front : List Lexeme) (sign number : Lexeme) : Prop where
  sign : IsSign sign
  number : number.kind = .number
  expected : ∃ tokens, ofLexemes lexicon front = .ok tokens ∧ BeforeOperand tokens.getLast?

/-- No token is read from white space. -/
theorem ofLexemesAfter_space (last : Option Token) (bars : Nat) (text : List Char) (position : Nat)
    (rest : List Lexeme) : ofLexemesAfter lexicon last bars (⟨.space, text, position⟩ :: rest) =
      ofLexemesAfter lexicon last bars rest := rfl

/-- White space that stands in the place of other white space. -/
theorem ofLexemes_respaced (before after : List Lexeme) (text text' : List Char)
    (position position' : Nat) :
    ofLexemes lexicon (before ++ ⟨.space, text, position⟩ :: after) =
      ofLexemes lexicon (before ++ ⟨.space, text', position'⟩ :: after) := by
  rw [ofLexemes, ofLexemes]
  rcases ofLexemesAfter_append none 0 before with ⟨failure, hfail⟩ | ⟨tokens, bars, hread⟩
  · rw [hfail _ (by rintro _ ⟨⟩ ⟨⟩), hfail _ (by rintro _ ⟨⟩ ⟨⟩)]
  · rw [hread _ (by rintro _ ⟨⟩ ⟨⟩), hread _ (by rintro _ ⟨⟩ ⟨⟩), ofLexemesAfter_space,
      ofLexemesAfter_space]

/-- A turn that ends with no sign is the same whatever comes next. -/
theorem Turn.of_not_sign {last : Option Token} {bars bars' : Nat} {front rest : List Lexeme}
    {read : List Token} (turn : Turn lexicon last bars rest front read bars')
    (h : ∀ l ∈ front.getLast?, ¬IsSign l) (rest' : List Lexeme) :
    Turn lexicon last bars rest' front read bars' := by
  cases turn with
  | minus => exact absurd ⟨rfl, .inr rfl⟩ (h _ rfl)
  | plus => exact absurd ⟨rfl, .inl rfl⟩ (h _ rfl)
  | _ => constructor <;> assumption

/-- **White space after anything but a sign** makes no difference to the tokens. -/
theorem ofLexemesAfter_insert (last : Option Token) (bars : Nat) (before : List Lexeme) :
    (∀ l ∈ before.getLast?, ¬IsSign l) → ∀ (text : List Char) (position : Nat) (after : List Lexeme),
      ofLexemesAfter lexicon last bars (before ++ ⟨.space, text, position⟩ :: after) =
        ofLexemesAfter lexicon last bars (before ++ after) := by
  induction last, bars, before using turns lexicon with
  | nil last bars => exact fun _ text position after => rfl
  | stuck bars rest hstuck =>
      intro _ text position after
      rw [List.cons_append, List.cons_append, hstuck.eq, hstuck.eq]
  | @turn last bars bars' front read rest first ih =>
      intro h text position after
      -- the first turn is the same in both rows, as it ends with no sign or with what comes next
      have hfirst : ∀ more, Turn lexicon last bars (rest ++ more) front read bars' := by
        intro more
        cases rest with
        | nil => exact first.of_not_sign (by simpa using h) more
        | cons l rest => exact first.before id
      have hrest : ∀ l ∈ rest.getLast?, ¬IsSign l :=
        fun l hl => h l (by rw [List.getLast?_append, hl]; rfl)
      rw [List.append_assoc, List.append_assoc, (hfirst _).eq, (hfirst after).eq,
        ih hrest text position after]

/-- **White space after a sign** makes no difference if the sign goes with no number. -/
theorem ofLexemes_insert_sign {front : List Lexeme} {sign : Lexeme} (hsign : IsSign sign)
    (apart : ∀ number ∈ after.head?, ¬Folded lexicon front sign number) (text : List Char)
    (position : Nat) :
    ofLexemes lexicon (front ++ sign :: ⟨.space, text, position⟩ :: after) =
      ofLexemes lexicon (front ++ sign :: after) := by
  have hkind : ∀ rest : List Lexeme, ∀ l ∈ (sign :: rest).head?, l.kind ≠ .number := by
    rintro rest _ ⟨⟩
    rw [hsign.1]
    decide
  rw [ofLexemes, ofLexemes]
  rcases ofLexemesAfter_append none 0 front with ⟨failure, hfail⟩ | ⟨tokens, bars, hread⟩
  · rw [hfail _ (hkind _), hfail _ (hkind _)]
  · have hfront : ofLexemes lexicon front = .ok tokens := by
      have hnone := hread [] (by simp)
      rwa [List.append_nil, ofLexemesAfter, Except.map, List.append_nil] at hnone
    rw [hread _ (hkind _), hread _ (hkind _), Option.or_none]
    congr 1
    have isSign := hsign
    obtain ⟨kind, symbol, place⟩ := sign
    obtain ⟨rfl, hsymbol⟩ : kind = .symbol ∧ (symbol = ['+'] ∨ symbol = ['-']) := hsign
    by_cases hconstant : lexicon.constants.contains symbol = true
    · simp only [ofLexemesAfter, if_pos hconstant]
    · by_cases hexpected : expectsOperand tokens.getLast? = true
      · -- the sign of an operand looks at what comes next, and that is no number
        have hafter : ∀ l ∈ after.head?, l.kind ≠ .number := fun l hl hnumber =>
          apart l hl ⟨isSign, hnumber, tokens, hfront, expectsOperand_iff.mp hexpected⟩
        rw [ofLexemesAfter_sign hconstant ⟨hsymbol, hexpected⟩ (by rintro _ ⟨⟩ ⟨⟩),
          ofLexemesAfter_sign hconstant ⟨hsymbol, hexpected⟩ hafter, ofLexemesAfter_space,
          ofLexemesAfter_space]
      · have hbetween : ¬((symbol = ['+'] ∨ symbol = ['-']) ∧
            expectsOperand tokens.getLast? = true) := fun h => hexpected h.2
        simp only [ofLexemesAfter, if_neg hconstant, if_neg hbetween]

/-- **White space makes no difference to the tokens** unless it parts a sign from its number. -/
theorem ofLexemes_insert (text : List Char) (position : Nat)
    (apart : ∀ front sign number rest, before = front ++ [sign] → after = number :: rest →
      ¬Folded lexicon front sign number) :
    ofLexemes lexicon (before ++ ⟨.space, text, position⟩ :: after) =
      ofLexemes lexicon (before ++ after) := by
  by_cases hlast : ∀ l ∈ before.getLast?, ¬IsSign l
  · exact ofLexemesAfter_insert none 0 before hlast text position after
  · obtain ⟨sign, hsign, his⟩ : ∃ l ∈ before.getLast?, IsSign l := by simpa using hlast
    obtain ⟨front, rfl⟩ := List.getLast?_eq_some_iff.mp hsign
    have hparts : ∀ number ∈ after.head?, ¬Folded lexicon front sign number := by
      intro number hnumber
      obtain ⟨rest, hrest⟩ := List.head?_eq_some_iff.mp hnumber
      exact apart front sign number rest rfl hrest
    have hinsert := ofLexemes_insert_sign his hparts text position
    simpa using hinsert

end Token

namespace Lexicon

variable {lexicon : Lexicon}

/-- **White space only separates**, in any lexicon in which it is part of no symbol. -/
theorem tokenize_insert (unspaced : Lexeme.Unspaced lexicon.symbols) {line space : List Char}
    {tokens : List Token} {before after : List Lexeme} (h : lexicon.tokenize line = .ok tokens)
    (hlex : Lexeme.lex lexicon.symbols line = .ok (before ++ after))
    (hspace : space ∈ Text.run Text.isWhiteSpace)
    (apart : ∀ front sign number rest, before = front ++ [sign] → after = number :: rest →
      ¬Token.Folded lexicon front sign number) :
    lexicon.tokenize (before.flatMap Lexeme.text ++ space ++ after.flatMap Lexeme.text) =
      .ok tokens := by
  obtain ⟨front, joined, back, hpieces, hplace⟩ := Lexeme.pieces?_insert unspaced hlex hspace
  have hsame : Token.ofLexemes lexicon (front ++ ⟨.space, joined, 0⟩ :: back) =
      Token.ofLexemes lexicon (before ++ after) := by
    rcases hplace with ⟨rfl, rfl⟩ | ⟨text, position, heq⟩
    · exact Token.ofLexemes_insert joined 0 apart
    · rw [heq]
      exact Token.ofLexemes_respaced front back joined text 0 position
  obtain ⟨lexemes, read, hlexemes, hturns, rfl⟩ := tokenize_eq_ok_iff.mp h
  obtain rfl := Except.ok.inj (hlexemes.symm.trans hlex)
  have hread : Token.ofLexemes lexicon (before ++ after) = .ok read := hturns.eq
  have hunplaced : (Token.ofLexemes lexicon (front ++ ⟨.space, joined, 0⟩ :: back)).toOption =
      (Token.ofLexemes lexicon
        (front.map Lexeme.unplaced ++ ⟨.space, joined, 0⟩ :: back.map Lexeme.unplaced)).toOption := by
    rw [Token.ofLexemes, Token.ofLexemesAfter_congr none 0 _ none (Token.alike_refl none),
      List.map_append, List.map_cons]
    rfl
  refine Except.toOption_eq_some.mp ?_
  rw [tokenize_toOption, hpieces, Option.bind_some, ← hunplaced, hsame, hread]
  rfl

/-- **White space only separates.** Any run of white space between two lexemes of a line that has
tokens, before the first or after the last, leaves the tokens as they are, unless it parts a sign from
the number that it goes with. -/
theorem tokenize_insert_space (line : List Char) (tokens : List Token) (before after : List Lexeme)
    (space : List Char) (h : ({} : Lexicon).tokenize line = .ok tokens)
    (hlex : Lexeme.lex ({} : Lexicon).symbols line = .ok (before ++ after))
    (hspace : space ∈ Text.run Text.isWhiteSpace)
    (apart : ∀ front sign number rest, before = front ++ [sign] → after = number :: rest →
      ¬Token.Folded {} front sign number) :
    line = before.flatMap Lexeme.text ++ after.flatMap Lexeme.text ∧
      ({} : Lexicon).tokenize (before.flatMap Lexeme.text ++ space ++ after.flatMap Lexeme.text) =
        .ok tokens := by
  have unspaced := builtin_legible.toUnspaced
  have hcuts := (Lexeme.lex_eq_ok_iff unspaced.exist unspaced.nonempty).mp hlex
  refine ⟨?_, tokenize_insert unspaced h hlex hspace apart⟩
  rw [← hcuts.joined, List.append_nil, List.flatMap_append]

/-- The second minus sign of `-2-3` stands after an operand, so white space may part it from the number
after it. The first one may not be parted from its number. -/
theorem tokenize_insert_space_between :
    let before : List Lexeme :=
      [⟨.symbol, ['-'], 0⟩, ⟨.number, ['2'], 1⟩, ⟨.symbol, ['-'], 2⟩]
    let after : List Lexeme := [⟨.number, ['3'], 3⟩]
    let tokens : List Token := [.number "-2".toList, .operator ['-'], .number ['3']]
    ({} : Lexicon).tokenize "-2-3".toList = .ok tokens ∧
      Lexeme.lex ({} : Lexicon).symbols "-2-3".toList = .ok (before ++ after) ∧
      (∀ front sign number rest, before = front ++ [sign] → after = number :: rest →
        ¬Token.Folded {} front sign number) ∧
      ({} : Lexicon).tokenize "-2-\t\u2003 3".toList = .ok tokens ∧
      ({} : Lexicon).tokenize "- 2-3".toList ≠ .ok tokens := by
  intro before after tokens
  have htokens : ({} : Lexicon).tokenize "-2-3".toList = .ok tokens := by decide +kernel
  have hlex : Lexeme.lex ({} : Lexicon).symbols "-2-3".toList = .ok (before ++ after) := by
    decide +kernel
  have hspace : "\t\u2003 ".toList ∈ Text.run Text.isWhiteSpace :=
    ⟨by decide, List.all_eq_true.mp (by decide +kernel)⟩
  have apart : ∀ front sign number rest, before = front ++ [sign] → after = number :: rest →
      ¬Token.Folded {} front sign number := by
    rintro front sign number rest hbefore - ⟨-, -, read, hread, hexpected⟩
    obtain rfl : front = before.dropLast := by rw [hbefore, List.dropLast_concat]
    have hfront : Token.ofLexemes {} before.dropLast = .ok [.number "-2".toList] := by
      decide +kernel
    obtain rfl := Except.ok.inj (hfront.symm.trans hread)
    simp [Token.BeforeOperand, Token.number] at hexpected
  exact ⟨htokens, hlex, apart,
    (tokenize_insert_space _ tokens before after _ htokens hlex hspace apart).2, by decide +kernel⟩

end Lexicon

end DecimalCalc
