import DecimalCalc.Calculator
import DecimalCalc.Proofs.Tokenizing

/-!
# Calls in a line

A line in which a function is called, with the name of the function exchanged for that of the
operator that computes the same. All other tokens of the line stay as they are, whatever the line
goes on with (`FunctionCall.tokens`).
-/

set_option autoImplicit false

namespace DecimalCalc

/-- A function of two arguments, and the operator that computes the same. -/
def Twins (f o : List Char) : Prop :=
  f = "perm".toList ∧ o = "nPr".toList ∨ f = "comb".toList ∧ o = "nCr".toList

/-- A line in which `name` is called: `body` goes on up to the closing parenthesis. -/
def callLine (before name body after : List Char) : List Char :=
  before ++ (name ++ (body ++ ')' :: after))

/-- The tokens of such a line. -/
def callTokens (pre : List Token) (name : Token) (args post : List Token) : List Token :=
  pre ++ name :: Token.leftParen :: (args ++ Token.rightParen :: post)

/-- The line calls a function at a place where an operand is expected. Its tokens before the call
are `pre`, and its two arguments have the tokens `args`. -/
structure FunctionCall (lexicon : Lexicon) (before name body : List Char) (pre args : List Token) :
    Prop where
  /-- The name is not a part of another lexeme. -/
  lexeme : ∃ lexemes, Lexeme.lex lexicon.symbols (callLine before name body []) = .ok lexemes ∧
    ⟨.symbol, name, before.length⟩ ∈ lexemes
  tokens_before : lexicon.tokenize before = .ok pre
  tokens : lexicon.tokenize (callLine before name body []) =
    .ok (callTokens pre (Token.function name) args [])
  expected : Token.expectsOperand pre.getLast? = true
  arguments : Grammar.Derives lexicon.registry (.arguments 2) args

/-! ## The built-in symbols -/

namespace Lexeme

theorem builtin_unclosed : Unclosed ({} : Lexicon).symbols :=
  ⟨by decide +kernel, by decide +kernel, by decide +kernel⟩

/-- Characters that begin lexemes of their own: a bar, and the first letters of the absolute value
and of the twins. -/
def openers : List Char := ['|', 'a', 'p', 'c', 'n']

/-- **They begin lexemes of their own.** Where one of them stands within a symbol, it is a letter and
the symbol starts with a word. -/
theorem builtin_opens {c : Char} (hc : c ∈ openers) (rest : List Char) :
    Opens ({} : Lexicon).symbols (c :: rest) := by
  -- a Boolean test of the table of symbols, which the kernel evaluates as it stands
  have hscan : (openers.all fun c => ({} : Lexicon).symbols.all fun t =>
      (List.range t.length).all fun k => !(k != 0 && t[k]? == some c) ||
        (Text.isLetter c && (t.take k).all Text.isLetter &&
          ({} : Lexicon).symbols.all fun u => !u.isPrefixOf (t.take k))) = true := by
    decide +kernel
  have hsplit : ∀ t ∈ ({} : Lexicon).symbols, ∀ k < t.length, k ≠ 0 → t[k]? = some c →
      Text.isLetter c = true ∧ (t.take k).all Text.isLetter = true ∧
        ∀ u ∈ ({} : Lexicon).symbols, u.isPrefixOf (t.take k) = false := by
    intro t ht k hk hpos hat
    have h := List.all_eq_true.mp hscan c hc
    have h := List.all_eq_true.mp (List.all_eq_true.mp h t ht) k (List.mem_range.mpr hk)
    have hguard : (k != 0 && t[k]? == some c) = true := by simp [hpos, hat]
    rw [hguard, Bool.not_true, Bool.false_or, Bool.and_eq_true, Bool.and_eq_true] at h
    obtain ⟨⟨hletter, hword⟩, hnone⟩ := h
    refine ⟨hletter, hword, fun u hu => ?_⟩
    simpa using List.all_eq_true.mp hnone u hu
  have hplain : openers.all (fun c => decide (NumberLiteral.Stops c) && !Text.isWhiteSpace c) := by
    decide +kernel
  have hstops := Bool.and_eq_true_iff.mp (List.all_eq_true.mp hplain c hc)
  refine ⟨?_, ?_, ?_⟩
  · rintro d ⟨⟩
    exact of_decide_eq_true hstops.1
  · rintro d ⟨⟩
    simpa using hstops.2
  · rintro d ⟨⟩ w v hmem hw
    have h := hsplit _ hmem w.length (by simp) (by simpa using hw) (by simp)
    rw [List.take_left] at h
    obtain ⟨hletter, hword, hnone⟩ := h
    refine ⟨hletter, by simpa using hword, fun t ht hpre => ?_⟩
    exact absurd (List.isPrefixOf_iff_prefix.mpr hpre) (by simp [hnone t ht])

end Lexeme

namespace Twins

variable {f o : List Char}

/-- The name is a symbol, and no other symbol goes on after it. -/
theorem mem_symbols (h : Twins f o) {name : List Char} (hname : name = f ∨ name = o) :
    name ∈ ({} : Lexicon).symbols ∧ ∀ t ∈ ({} : Lexicon).symbols, name <+: t → t = name := by
  have hnames : ∀ name ∈ ["perm".toList, "nPr".toList, "comb".toList, "nCr".toList],
      name ∈ ({} : Lexicon).symbols ∧
        ∀ t ∈ ({} : Lexicon).symbols, name.isPrefixOf t = true → t = name := by
    decide +kernel
  have hmem : name ∈ ["perm".toList, "nPr".toList, "comb".toList, "nCr".toList] := by
    simp only [List.mem_cons]
    rcases h with ⟨rfl, rfl⟩ | ⟨rfl, rfl⟩ <;> rcases hname with rfl | rfl <;> tauto
  obtain ⟨hsymbol, hlongest⟩ := hnames name hmem
  exact ⟨hsymbol, fun t ht hpre => hlongest t ht (List.isPrefixOf_iff_prefix.mpr hpre)⟩

/-- The name starts with a letter that begins a lexeme of its own. -/
theorem exists_cons (h : Twins f o) {name : List Char} (hname : name = f ∨ name = o) :
    ∃ c rest, name = c :: rest ∧ (c = 'p' ∨ c = 'c' ∨ c = 'n') := by
  rcases h with ⟨rfl, rfl⟩ | ⟨rfl, rfl⟩ <;> rcases hname with rfl | rfl
  · exact ⟨_, _, rfl, .inl rfl⟩
  · exact ⟨_, _, rfl, .inr (.inr rfl)⟩
  · exact ⟨_, _, rfl, .inr (.inl rfl)⟩
  · exact ⟨_, _, rfl, .inr (.inr rfl)⟩

theorem opens (h : Twins f o) {name : List Char} (hname : name = f ∨ name = o)
    (rest : List Char) : Lexeme.Opens ({} : Lexicon).symbols (name ++ rest) := by
  obtain ⟨c, others, rfl, hc⟩ := h.exists_cons hname
  exact Lexeme.builtin_opens (by rcases hc with rfl | rfl | rfl <;> decide) (others ++ rest)

theorem pieces? (h : Twins f o) {name : List Char} (hname : name = f ∨ name = o)
    (rest : List Char) : Lexeme.pieces? ({} : Lexicon).symbols 0 (name ++ rest) =
      (Lexeme.pieces? ({} : Lexicon).symbols 0 rest).map (⟨.symbol, name, 0⟩ :: ·) := by
  obtain ⟨hsymbol, hlongest⟩ := h.mem_symbols hname
  have hopens := (h.opens hname []).number
  rw [List.append_nil] at hopens
  refine Lexeme.pieces?_symbol hsymbol hlongest hopens ?_ rest
  obtain ⟨c, others, rfl, _⟩ := h.exists_cons hname
  exact List.cons_ne_nil c others

/-- The name of a twin, and its token. -/
def Names (f o name : List Char) (token : Token) : Prop :=
  name = f ∧ token = Token.function f ∨ name = o ∧ token = Token.operator o

theorem Names.name_eq {name : List Char} {token : Token} (h : Names f o name token) :
    name = f ∨ name = o := h.imp And.left And.left

/-- After the token an operand is expected, and none has ended. -/
theorem Names.expects {name : List Char} {token : Token} (h : Names f o name token)
    (twins : Twins f o) :
    Token.expectsOperand (some token) = true ∧ token.endsOperand = false ∧
      ∀ last : Token, last.endsOperand = false → Token.impliesProduct last token = false := by
  have hproduct : ∀ last : Token, last.endsOperand = false →
      Token.impliesProduct last token = false := by
    intro last hlast
    rw [Token.impliesProduct, hlast, Bool.false_and]
  have hexpects : Token.expectsOperand (some token) = true ∧ token.endsOperand = false := by
    rcases h with ⟨_, rfl⟩ | ⟨_, rfl⟩
    · exact ⟨rfl, rfl⟩
    · rcases twins with ⟨_, rfl⟩ | ⟨_, rfl⟩ <;> decide
  exact ⟨hexpects.1, hexpects.2, hproduct⟩

theorem ofLexemesAfter_symbol (h : Twins f o) {name : List Char} {token : Token}
    (hname : Names f o name token) (last : Option Token) (bars : Nat) (rest : List Lexeme) :
    Token.ofLexemesAfter {} last bars (⟨.symbol, name, 0⟩ :: rest) =
      (Token.ofLexemesAfter {} (some token) bars rest).map (token :: ·) := by
  rcases h with ⟨rfl, rfl⟩ | ⟨rfl, rfl⟩ <;> rcases hname with ⟨rfl, rfl⟩ | ⟨rfl, rfl⟩ <;>
    exact Token.ofLexemesAfter_symbol (by decide) (fun h => absurd h.1 (by decide)) rfl rest

end Twins

namespace FunctionCall

variable {f o before body : List Char} {pre args : List Token}

/-! ## The lexemes of a call -/

/-- **Only the name changes** in the pieces of a line. -/
theorem pieces (call : FunctionCall {} before f body pre args) (twins : Twins f o) :
    ∃ front inner, Lexeme.pieces? ({} : Lexicon).symbols 0 before = some front ∧
      ∀ name, name = f ∨ name = o → ∀ after,
        Lexeme.pieces? ({} : Lexicon).symbols 0 (callLine before name body after) =
          (Lexeme.pieces? ({} : Lexicon).symbols 0 after).map fun rest =>
            front ++ ⟨.symbol, name, 0⟩ :: (inner ++ ⟨.rightParen, [')'], 0⟩ :: rest) := by
  obtain ⟨lexemes, hlex, hmem⟩ := call.lexeme
  -- the line is cut before the name and before the parenthesis that closes the call
  have hfront : ∃ front, Lexeme.piecesBefore? ({} : Lexicon).symbols (f ++ (body ++ [')'])) 0
      before = some front :=
    Lexeme.exists_piecesBefore? before hlex ⟨_, hmem, by simp⟩
  obtain ⟨front, hfront⟩ := hfront
  have hline : Lexeme.pieces? ({} : Lexicon).symbols 0 (callLine before f body []) =
      some (lexemes.map Lexeme.unplaced) := by
    rw [← Lexeme.lex_pieces, hlex]
    rfl
  have hinner : ∃ inner, Lexeme.piecesBefore? ({} : Lexicon).symbols [')'] 0 body = some inner := by
    rw [callLine, Lexeme.pieces?_append before hfront, twins.pieces? (.inl rfl)] at hline
    cases hbody : Lexeme.pieces? ({} : Lexicon).symbols 0 (body ++ [')']) with
    | none => simp [hbody] at hline
    | some inner =>
        exact Lexeme.exists_piecesBefore?_rightParen Lexeme.builtin_unclosed body (Nat.zero_le _)
          hbody
  obtain ⟨inner, hinner⟩ := hinner
  have hexist := Lexeme.builtin_unclosed.exist
  refine ⟨front, inner, ?_, fun name hname after => ?_⟩
  · have hbefore := Lexeme.piecesBefore?_congr hexist (twins.opens (.inl rfl) _) Lexeme.opens_nil
      before hfront (by rintro _ _ _ ⟨⟩)
    have happend := Lexeme.pieces?_append before hbefore
    rw [List.append_nil] at happend
    rw [happend]
    simp [Lexeme.pieces?]
  · -- a word before the name would have gone on in it, as both names start with a letter
    have hletter : (f ++ (body ++ [')'])).head?.any Text.isLetter = true := by
      obtain ⟨c, others, rfl, hc⟩ := twins.exists_cons (.inl rfl)
      show Text.isLetter c = true
      rcases hc with rfl | rfl | rfl <;> decide
    have hbefore := Lexeme.piecesBefore?_congr hexist (twins.opens (.inl rfl) _)
      (twins.opens hname (body ++ ')' :: after)) before hfront fun _ _ _ _ => hletter
    have hbody := Lexeme.piecesBefore?_congr hexist
      (Lexeme.opens_rightParen Lexeme.builtin_unclosed [])
      (Lexeme.opens_rightParen Lexeme.builtin_unclosed after) body hinner fun _ _ _ h => h
    rw [callLine, Lexeme.pieces?_append before hbefore, twins.pieces? hname,
      Lexeme.pieces?_append body hbody, Lexeme.pieces?_rightParen Lexeme.builtin_unclosed]
    simp only [Option.map_map]
    rfl

/-! ## The tokens of a call -/

/-- The tokens of a line are those before the call, that of the name, and those of the rest. -/
theorem tokenize_eq (call : FunctionCall {} before f body pre args) (twins : Twins f o) :
    ∃ bars inner, ∀ name token, Twins.Names f o name token → ∀ after,
      (({} : Lexicon).tokenize (callLine before name body after)).toOption =
        (Lexeme.pieces? ({} : Lexicon).symbols 0 after).bind fun rest =>
          (Token.ofLexemesAfter {} (some token) bars
            (inner ++ ⟨.rightParen, [')'], 0⟩ :: rest)).toOption.map fun tokens =>
              pre ++ token :: Token.productsAfter token tokens := by
  obtain ⟨front, inner, hbefore, hline⟩ := call.pieces twins
  have hpre : (Token.ofLexemes {} front).toOption.map Token.insertProducts = some pre := by
    have htokens := ({} : Lexicon).tokenize_toOption before
    rw [call.tokens_before, hbefore] at htokens
    exact htokens.symm
  have hsplits : Token.Splits {} none 0 front := Token.ofLexemesAfter_append none 0 front
  rcases hsplits with ⟨failure, hfail⟩ | hread
  · have hnone := hfail [] (by rintro _ ⟨⟩)
    rw [List.append_nil] at hnone
    rw [Token.ofLexemes, hnone] at hpre
    cases hpre
  · obtain ⟨raw, bars, hread⟩ := hread
    have hraw : Token.insertProducts raw = pre := by
      have hnil := hread [] (by rintro _ ⟨⟩)
      rw [List.append_nil] at hnil
      rw [Token.ofLexemes, hnil] at hpre
      simpa [Token.ofLexemesAfter, Except.map, Except.toOption] using hpre
    -- so no product is implied before the name
    have hlast : ∀ l ∈ raw.getLast?, l.endsOperand = false := by
      intro l hl
      have hexpected := call.expected
      rw [← hraw, Token.getLast?_insertProducts, hl] at hexpected
      by_contra hends
      rw [Token.expectsOperand_of_any (by simpa using hends)] at hexpected
      cases hexpected
    refine ⟨bars, inner, fun name token hname after => ?_⟩
    obtain ⟨_, _, hproduct⟩ := hname.expects twins
    rw [Lexicon.tokenize_toOption, hline name hname.name_eq after]
    cases Lexeme.pieces? ({} : Lexicon).symbols 0 after with
    | none => rfl
    | some rest =>
        show (Token.ofLexemes {} _).toOption.map _ = _
        rw [Option.bind_some, Token.ofLexemes, hread _ (by rintro _ ⟨⟩ ⟨⟩),
          twins.ofLexemesAfter_symbol hname]
        cases Token.ofLexemesAfter {} (some token) bars
            (inner ++ ⟨.rightParen, [')'], 0⟩ :: rest) with
        | error failure => rfl
        | ok tokens =>
            show some (Token.insertProducts (raw ++ token :: tokens)) = some _
            rw [Token.insertProducts_append fun l hl => hproduct l (hlast l hl), hraw]

/-- The tokens of the arguments, and what the rest of the line is read after. -/
theorem arguments_eq (call : FunctionCall {} before f body pre args) {bars : Nat}
    {inner : List Lexeme}
    (hline : (({} : Lexicon).tokenize (callLine before f body [])).toOption =
      (Token.ofLexemesAfter {} (some (Token.function f)) bars
        (inner ++ [⟨.rightParen, [')'], 0⟩])).toOption.map fun tokens =>
          pre ++ Token.function f :: Token.productsAfter (Token.function f) tokens) :
    ∃ middle bars', Token.productsAfter (Token.function f) (middle ++ [Token.rightParen]) =
        Token.leftParen :: (args ++ [Token.rightParen]) ∧
      ∀ rest, Token.ofLexemesAfter {} (some (Token.function f)) bars
          (inner ++ ⟨.rightParen, [')'], 0⟩ :: rest) =
        (Token.ofLexemesAfter {} (some Token.rightParen) bars' rest).map
          (middle ++ Token.rightParen :: ·) := by
  rw [call.tokens] at hline
  obtain ⟨tokens, htokens, heq⟩ := Option.map_eq_some_iff.mp hline.symm
  have hproducts : Token.productsAfter (Token.function f) tokens =
      Token.leftParen :: (args ++ [Token.rightParen]) :=
    (List.cons.inj (List.append_cancel_left heq)).2
  -- the arguments are read on their own, so that anything may stand behind the parenthesis
  have hsplits : Token.Splits {} (some (Token.function f)) bars inner :=
    Token.ofLexemesAfter_append _ bars inner
  rcases hsplits with ⟨failure, hfail⟩ | ⟨middle, bars', hread⟩
  · rw [hfail _ (by rintro _ ⟨⟩ ⟨⟩)] at htokens
    cases htokens
  · have hrest : ∀ rest, Token.ofLexemesAfter {} (some (Token.function f)) bars
        (inner ++ ⟨.rightParen, [')'], 0⟩ :: rest) =
          (Token.ofLexemesAfter {} (some Token.rightParen) bars' rest).map
            (middle ++ Token.rightParen :: ·) := by
      intro rest
      rw [hread _ (by rintro _ ⟨⟩ ⟨⟩), Token.ofLexemesAfter]
      cases Token.ofLexemesAfter {} (some Token.rightParen) bars' rest <;> rfl
    refine ⟨middle, bars', ?_, hrest⟩
    rw [hrest []] at htokens
    obtain rfl : middle ++ [Token.rightParen] = tokens := Option.some.inj htokens
    exact hproducts

/-- **Only the name changes** in the tokens of a line. If one line has none, neither has the other.
-/
theorem tokens_after (call : FunctionCall {} before f body pre args) (twins : Twins f o)
    (after : List Char) :
    ((({} : Lexicon).tokenize (callLine before f body after)).toOption = none ∧
        (({} : Lexicon).tokenize (callLine before o body after)).toOption = none) ∨
      ∃ post, (∀ t ∈ post.head?, t.kind ≠ .number ∧ t.startsOperand = false) ∧
        ∀ name token, Twins.Names f o name token →
          (({} : Lexicon).tokenize (callLine before name body after)).toOption =
            some (callTokens pre token args post) := by
  obtain ⟨bars, inner, hline⟩ := call.tokenize_eq twins
  have hf : Twins.Names f o f (Token.function f) := .inl ⟨rfl, rfl⟩
  have ho : Twins.Names f o o (Token.operator o) := .inr ⟨rfl, rfl⟩
  obtain ⟨middle, bars', hproducts, hread⟩ := call.arguments_eq (hline f _ hf [])
  -- after either name the same is expected, so the rest of the line is read in one way
  have hinner : ∀ name token, Twins.Names f o name token → ∀ rest,
      (Token.ofLexemesAfter {} (some token) bars
        (inner ++ ⟨.rightParen, [')'], 0⟩ :: rest)).toOption =
          (Token.ofLexemesAfter {} (some Token.rightParen) bars' rest).toOption.map
            (middle ++ Token.rightParen :: ·) := by
    intro name token hname rest
    have halike : Token.Alike (some token) (some (Token.function f)) := by
      obtain ⟨hexpects, hends, _⟩ := hname.expects twins
      exact ⟨hexpects, hends⟩
    rw [Token.ofLexemesAfter_alike halike, hread]
    cases Token.ofLexemesAfter {} (some Token.rightParen) bars' rest <;> rfl
  cases hafter : Lexeme.pieces? ({} : Lexicon).symbols 0 after with
  | none => exact .inl ⟨by rw [hline f _ hf, hafter]; rfl, by rw [hline o _ ho, hafter]; rfl⟩
  | some rest =>
      cases hrest : Token.ofLexemesAfter {} (some Token.rightParen) bars' rest with
      | error failure =>
          have hnone : ∀ name token, Twins.Names f o name token →
              (({} : Lexicon).tokenize (callLine before name body after)).toOption = none := by
            intro name token hname
            rw [hline name token hname, hafter, Option.bind_some, hinner name token hname, hrest]
            rfl
          exact .inl ⟨hnone f _ hf, hnone o _ ho⟩
      | ok more =>
          refine .inr ⟨Token.productsAfter Token.rightParen more,
            Token.head?_productsAfter_rightParen more, fun name token hname => ?_⟩
          obtain ⟨_, hends, _⟩ := hname.expects twins
          have hfunction : (Token.function f).endsOperand = false := rfl
          rw [hline name token hname, hafter, Option.bind_some, hinner name token hname, hrest]
          show some (pre ++ token ::
            Token.productsAfter token (middle ++ Token.rightParen :: more)) = _
          rw [Token.productsAfter_congr hends hfunction, Token.productsAfter_append, hproducts]
          simp [callTokens]

end FunctionCall

end DecimalCalc
