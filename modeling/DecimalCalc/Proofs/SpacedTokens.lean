import DecimalCalc.Proofs.CharacterClasses
import DecimalCalc.Proofs.MaximalMunch
import DecimalCalc.Proofs.Tokenizing

/-!
# Tokens written with spaces between them

The texts of the tokens of a line, written with single spaces between them, are a line with the same
tokens (`tokenize_spaced`). A token is spelled by its text after the one before it (`Spells`): the
text is one lexeme by itself, or two of which the first is a sign, and what is read of it, where it
stands, is the token. Each token of a line is spelled so, and a space ends it whatever it is.
-/

set_option autoImplicit false

namespace DecimalCalc

namespace Lexeme

variable {symbols : List (List Char)} {others : List (LexemeKind × Language Char)}
  {kind : LexemeKind} {text space w x z : List Char}

/-! ## Lexemes by themselves -/

/-- A text is one lexeme of a kind by itself. -/
def Alone (symbols : List (List Char)) (kind : LexemeKind) (w : List Char) : Prop :=
  Reads (alternatives symbols) w kind w

theorem StartsNone.of_prefix {L : Language Char} (h : StartsNone L text) (hw : w <+: text) :
    StartsNone L w :=
  fun v hv hpre => h v hv (hpre.trans hw)

/-- What is read at the start of a text is read of any part of the text that holds it. -/
theorem Reads.of_prefix {part : List Char} (h : Reads others text kind w) (hpart : part <+: text)
    (hw : w <+: part) : Reads others part kind w := by
  induction h with
  | first longest =>
      exact .first ⟨longest.mem, hw, fun v hv hpre => longest.bound v hv (hpre.trans hpart)⟩
  | next none read ih => exact .next (StartsNone.of_prefix none hpart) (ih hpart hw)

/-- What is read at the start of a text is read of it by itself. -/
theorem Reads.alone (h : Reads others text kind w) : Reads others w kind w :=
  h.of_prefix h.starts List.prefix_rfl

/-- What is read stays the same when a text follows that goes on no word that is begun. -/
theorem Reads.append (h : Reads others text kind w)
    (hx : ∀ a ∈ others, ∀ v ∈ a.2, v <+: text ++ x → v <+: text) :
    Reads others (text ++ x) kind w := by
  induction h with
  | first longest =>
      have hstarts := longest.starts.trans (List.prefix_append _ x)
      refine .first ⟨longest.mem, hstarts, fun v hv hpre => ?_⟩
      exact longest.bound v hv (hx _ List.mem_cons_self v hv hpre)
  | next none _ ih =>
      refine .next (fun v hv hpre => none v hv (hx _ List.mem_cons_self v hv hpre)) ?_
      exact ih fun a ha => hx a (List.mem_cons_of_mem _ ha)

theorem alone_of_at? (exist : symbols ≠ []) (nonempty : [] ∉ symbols)
    (h : at? symbols w = some (kind, w.length)) : Alone symbols kind w := by
  have hchooses := at?_chooses exist nonempty w
  rw [h] at hchooses
  obtain ⟨v, read, _, hlength⟩ := hchooses
  obtain rfl := read.starts.eq_of_length hlength
  exact read

theorem alone_number (h : w ∈ NumberLiteral.grammar) : Alone symbols .number w :=
  .first ⟨h, List.prefix_rfl, fun _ _ hpre => hpre.length_le⟩

/-- A number literal is read where one starts. -/
theorem Alone.mem_grammar (h : Alone symbols .number w) : w ∈ NumberLiteral.grammar := by
  cases h with
  | first longest => exact longest.mem
  | next _ read =>
      obtain ⟨L, hL, _⟩ := read.exists_mem
      simp [plainAlternatives] at hL

/-- A symbol is read where one starts. -/
theorem Alone.mem_symbols (h : Alone symbols .symbol w) : w ∈ symbols := by
  obtain ⟨L, hL, hw⟩ := Reads.exists_mem h
  simp only [alternatives, plainAlternatives, List.mem_cons, List.not_mem_nil, or_false,
    Prod.mk.injEq, reduceCtorEq, false_and, false_or, true_and] at hL
  rw [hL] at hw
  exact hw

theorem Alone.ne_nil (h : Alone symbols kind w) (nonempty : [] ∉ symbols) : w ≠ [] := by
  obtain ⟨L, hL, hw⟩ := Reads.exists_mem h
  rintro rfl
  exact nil_notMem_alternatives nonempty _ hL hw

/-! ## Lexemes before white space -/

/-- Symbols that are not empty, and that no white space is part of. -/
structure Unspaced (symbols : List (List Char)) : Prop where
  exist : symbols ≠ []
  nonempty : [] ∉ symbols
  unspaced : ∀ s ∈ symbols, ∀ c ∈ s, Text.isWhiteSpace c = false

/-- White space is part of nothing but white space. -/
theorem Unspaced.not_space (h : Unspaced symbols) {L : Language Char}
    (hL : (kind, L) ∈ alternatives symbols) (hkind : kind ≠ .space) :
    ∀ w ∈ L, ∀ c ∈ w, Text.isWhiteSpace c = false := by
  simp only [alternatives, plainAlternatives, List.mem_cons, List.not_mem_nil, or_false,
    Prod.mk.injEq] at hL
  -- one language after the other, of which only the last one holds white space
  rcases hL with ⟨rfl, rfl⟩ | ⟨rfl, rfl⟩ | ⟨rfl, rfl⟩ | ⟨rfl, rfl⟩ | ⟨rfl, rfl⟩ | ⟨rfl, rfl⟩ |
    ⟨rfl, rfl⟩ | ⟨rfl, rfl⟩
  · intro w hw c hc
    rcases NumberLiteral.mem_grammar_chars w hw c hc with (hdigit | rfl) | rfl
    · exact Text.isWhiteSpace_of_isDigit hdigit
    · decide
    · decide
  · exact h.unspaced
  · exact fun w hw c hc => Text.isWhiteSpace_of_isLetter (hw.2 c hc)
  · rintro _ ⟨d, hd, rfl⟩ c hc
    obtain rfl : d = '(' := by simpa using hd
    obtain rfl := List.mem_singleton.mp hc
    decide
  · rintro _ ⟨d, hd, rfl⟩ c hc
    obtain rfl : d = ')' := by simpa using hd
    obtain rfl := List.mem_singleton.mp hc
    decide
  · rintro _ ⟨d, hd, rfl⟩ c hc
    obtain rfl := List.mem_singleton.mp hc
    obtain rfl | rfl : c = ';' ∨ c = ',' := by simpa using hd
    · decide
    · decide
  · rintro _ ⟨d, hd, rfl⟩ c hc
    obtain rfl : d = '|' := by simpa using hd
    obtain rfl := List.mem_singleton.mp hc
    decide
  · exact absurd rfl hkind

theorem Unspaced.word_not_space (h : Unspaced symbols) (alone : Alone symbols kind w)
    (hkind : kind ≠ .space) : ∀ c ∈ w, Text.isWhiteSpace c = false := by
  obtain ⟨L, hL, hw⟩ := Reads.exists_mem alone
  exact h.not_space hL hkind w hw

/-- The alternative of white space. -/
theorem eq_run_of_space {L : Language Char} (hL : (.space, L) ∈ alternatives symbols) :
    L = Text.run Text.isWhiteSpace := by
  simpa [alternatives, plainAlternatives] using hL

/-- A text that begins with white space, if it is not empty. -/
def WhiteFirst (text : List Char) : Prop := ∀ c ∈ text.head?, Text.isWhiteSpace c = true

theorem whiteFirst_append (hspace : space ∈ Text.run Text.isWhiteSpace) (x : List Char) :
    WhiteFirst (space ++ x) := by
  obtain ⟨hne, hall⟩ := hspace
  cases space with
  | nil => exact absurd rfl hne
  | cons c space =>
      rintro _ ⟨⟩
      exact hall c List.mem_cons_self

/-- A word reaches into white space only where it holds some. -/
theorem prefix_of_whiteFirst {v : List Char} (hx : WhiteFirst x)
    (hv : ∀ c ∈ v, Text.isWhiteSpace c = false) (hpre : v <+: w ++ x) : v <+: w := by
  rcases List.prefix_or_prefix_of_prefix hpre (List.prefix_append w x) with h | ⟨u, rfl⟩
  · exact h
  · have hu : u <+: x := (List.prefix_append_right_inj w).mp hpre
    cases u with
    | nil => simp
    | cons c u =>
        obtain ⟨y, rfl⟩ := hu
        have hspace := hx c rfl
        rw [hv c (by simp)] at hspace
        cases hspace

/-- **What is read of a text that is not all white space** is read before white space as well. -/
theorem Unspaced.reads_before (h : Unspaced symbols) (read : Reads (alternatives symbols) w kind z)
    (hw : ∃ c ∈ w, Text.isWhiteSpace c = false) (hx : WhiteFirst x) :
    Reads (alternatives symbols) (w ++ x) kind z := by
  refine read.append fun a ha v hv hpre => ?_
  by_cases hspace : a.1 = .space
  · -- a run of white space ends before the first other character
    obtain ⟨kind', L⟩ := a
    obtain rfl : kind' = .space := hspace
    rw [eq_run_of_space ha] at hv
    rcases List.prefix_or_prefix_of_prefix hpre (List.prefix_append w x) with hle | hle
    · exact hle
    · obtain ⟨c, hc, hother⟩ := hw
      have hspace := hv.2 c (hle.subset hc)
      rw [hother] at hspace
      cases hspace
  · exact prefix_of_whiteFirst hx (h.not_space ha hspace v hv) hpre

/-- A run of white space is one lexeme before a text that begins with none. -/
theorem Unspaced.reads_run (h : Unspaced symbols) (hspace : space ∈ Text.run Text.isWhiteSpace)
    (hx : ∀ c ∈ x.head?, Text.isWhiteSpace c = false) :
    Reads (alternatives symbols) (space ++ x) .space space := by
  have hlongest : Longest (Text.run Text.isWhiteSpace) (space ++ x) space := by
    refine ⟨hspace, List.prefix_append space x, fun v hv hpre => ?_⟩
    rcases List.prefix_or_prefix_of_prefix hpre (List.prefix_append space x) with hle | ⟨u, rfl⟩
    · exact hle.length_le
    · have hu : u <+: x := (List.prefix_append_right_inj space).mp hpre
      cases u with
      | nil => simp
      | cons c u =>
          obtain ⟨y, rfl⟩ := hu
          have hc := hv.2 c (by simp)
          rw [hx c rfl] at hc
          cases hc
  -- white space is tried last, and no other lexeme begins with it
  have hlast : alternatives symbols =
      (alternatives symbols).dropLast ++ [(.space, Text.run Text.isWhiteSpace)] := rfl
  have hkinds : ∀ a ∈ (alternatives symbols).dropLast, a.1 ≠ .space := by
    simp [alternatives, plainAlternatives]
  rw [hlast]
  refine .of_append (fun a ha v hv hpre => ?_) (.first hlongest)
  have hmem := List.mem_of_mem_dropLast ha
  cases v with
  | nil => exact nil_notMem_alternatives h.nonempty a hmem hv
  | cons c v =>
      have hc := h.not_space hmem (hkinds a ha) _ hv c List.mem_cons_self
      obtain ⟨y, hy⟩ := hpre
      have hwhite := whiteFirst_append hspace x c (by rw [← hy]; rfl)
      rw [hc] at hwhite
      cases hwhite

/-- A text that begins with a space, if it is not empty. -/
def SpaceFirst (text : List Char) : Prop := ∀ c ∈ text.head?, c = ' '

theorem SpaceFirst.whiteFirst (h : SpaceFirst x) : WhiteFirst x := by
  intro c hc
  rw [h c hc]
  decide

/-- **A space ends a lexeme**, whatever it is. -/
theorem Alone.append (alone : Alone symbols kind w) (h : Unspaced symbols) (hkind : kind ≠ .space)
    (hw : w ≠ []) (hx : SpaceFirst x) : Reads (alternatives symbols) (w ++ x) kind w := by
  obtain ⟨c, hc⟩ := List.exists_mem_of_ne_nil w hw
  exact h.reads_before alone ⟨c, hc, h.word_not_space alone hkind c hc⟩ hx.whiteFirst

/-- A single space is a lexeme of its own before a text that begins with none. -/
theorem Unspaced.reads_space (h : Unspaced symbols)
    (hx : ∀ c ∈ x.head?, Text.isWhiteSpace c = false) :
    Reads (alternatives symbols) (' ' :: x) .space [' '] := by
  have hspace : [' '] ∈ Text.run Text.isWhiteSpace :=
    ⟨List.cons_ne_nil _ _, List.all_eq_true.mp (by decide)⟩
  exact h.reads_run hspace hx

end Lexeme

namespace Token

open Lexeme (Alone SpaceFirst Unspaced)

/-! ## Tokens after tokens -/

/-- The texts of some tokens with single spaces between them. -/
def spaced (tokens : List Token) : List Char := [' '].intercalate (tokens.map Token.text)

/-- What follows a token before which nothing else is written. -/
def spacedAfter (tokens : List Token) : List Char :=
  if tokens.isEmpty then [] else ' ' :: spaced tokens

theorem spaced_cons (t : Token) (tokens : List Token) :
    spaced (t :: tokens) = t.text ++ spacedAfter tokens := by
  cases tokens with
  | nil => simp [spaced, spacedAfter]
  | cons u tokens => simp [spaced, spacedAfter, List.intercalate]

theorem spacedAfter_spaceFirst (tokens : List Token) : SpaceFirst (spacedAfter tokens) := by
  rw [spacedAfter]
  split
  · rintro c ⟨⟩
  · rintro c ⟨⟩
    rfl

variable {lexicon : Lexicon} {last : Option Token} {t : Token}

/-- The text of a token is a symbol, and the token is what it stands for wherever it stands. -/
structure Symbolic (lexicon : Lexicon) (t : Token) : Prop where
  alone : Alone lexicon.symbols .symbol t.text
  other : lexicon.constants.contains t.text = false
  unsigned : ¬(t.text = ['+'] ∨ t.text = ['-'])
  read : ∀ last position, ofSymbol lexicon last t.text position = .ok t

/-- A lexicon in which what the tokens of a line are called can be read again: white space is no
part of a symbol, parentheses and separators are no symbols, and neither are the longer words that a
minus sign begins. -/
structure Legible (lexicon : Lexicon) : Prop extends Unspaced lexicon.symbols where
  leftParen : Alone lexicon.symbols .leftParen ['(']
  rightParen : Alone lexicon.symbols .rightParen [')']
  separator : Alone lexicon.symbols .separator [';']
  minus : ∀ s ∈ lexicon.symbols, ['-'] <+: s → s = ['-']
  negate : Symbolic lexicon (function negateSymbol)
  absolute : Symbolic lexicon (function absoluteSymbol)
  product : Symbolic lexicon (operator productSymbol)
  signs : ∀ symbol entry, symbol = ['+'] ∨ symbol = ['-'] →
    lexicon.registry.find? symbol = some entry → entry.isFunction = false

/-- **A token that is spelled by its text** after the one before it. -/
inductive Spells (lexicon : Lexicon) (last : Option Token) : Token → Prop
  | number {digits : List Char} (mem : digits ∈ NumberLiteral.grammar)
      (plain : NumberLiteral.canonical digits = digits) : Spells lexicon last (Token.number digits)
  | negative {digits : List Char} (mem : digits ∈ NumberLiteral.grammar)
      (plain : NumberLiteral.canonical digits = digits) (sign : ['-'] ∈ lexicon.symbols)
      (other : lexicon.constants.contains ['-'] = false) (expected : expectsOperand last = true) :
      Spells lexicon last (Token.number ('-' :: digits))
  | reference {name : List Char} (alone : Alone lexicon.symbols .word name) :
      Spells lexicon last (Token.reference name)
  | leftParen : Spells lexicon last Token.leftParen
  | rightParen : Spells lexicon last Token.rightParen
  | separator : Spells lexicon last Token.separator
  | constant {name : List Char} (alone : Alone lexicon.symbols .symbol name)
      (mem : lexicon.constants.contains name = true) : Spells lexicon last (Token.constant name)
  | symbol {t : Token} (alone : Alone lexicon.symbols .symbol t.text)
      (other : lexicon.constants.contains t.text = false)
      (unsigned : ¬((t.text = ['+'] ∨ t.text = ['-']) ∧ expectsOperand last = true))
      (read : ∀ position, ofSymbol lexicon last t.text position = .ok t) : Spells lexicon last t

/-- Each of some tokens is spelled by its text after the one before it. -/
inductive SpelledAfter (lexicon : Lexicon) : Option Token → List Token → Prop
  | nil {last : Option Token} : SpelledAfter lexicon last []
  | cons {last : Option Token} {t : Token} {tokens : List Token} (spells : Spells lexicon last t)
      (rest : SpelledAfter lexicon (some t) tokens) : SpelledAfter lexicon last (t :: tokens)

/-- Each token of a row is spelled after the one before it, if there is one. -/
theorem SpelledAfter.spells {tokens : List Token} (h : SpelledAfter lexicon last tokens) :
    ∀ {before after : List Token} {t : Token}, tokens = before ++ t :: after →
      Spells lexicon (before.getLast?.or last) t := by
  induction h with
  | nil => simp
  | cons spells _ ih =>
      intro before after t heq
      cases before with
      | nil =>
          obtain ⟨rfl, _⟩ := List.cons.inj heq
          exact spells
      | cons first before =>
          obtain ⟨rfl, hrest⟩ := List.cons.inj heq
          have hlast := ih hrest
          cases hbefore : before.getLast? <;> simpa [List.getLast?_cons, hbefore] using hlast

theorem Symbolic.spells (h : Symbolic lexicon t) (last : Option Token) : Spells lexicon last t :=
  .symbol h.alone h.other (fun hsign => h.unsigned hsign.1) (h.read last)

/-- Reading a symbol depends on its position only where it is a fault. -/
theorem ofSymbol_eq_ok {symbol : List Char} {position : Nat}
    (h : ofSymbol lexicon last symbol position = .ok t) :
    (t = operator symbol ∨ t = function symbol) ∧
      ∀ position', ofSymbol lexicon last symbol position' = .ok t := by
  refine ⟨?_, fun position' => ofSymbol_eq_ok_iff.mpr (ofSymbol_eq_ok_iff.mp h)⟩
  rcases ofSymbol_eq_ok_iff.mp h with ⟨-, -, rfl⟩ | ⟨-, entry, -, rfl⟩
  · exact .inl rfl
  · cases entry.isFunction with
    | true => exact .inr rfl
    | false => exact .inl rfl

/-- A function is read wherever its name stands. -/
theorem ofSymbol_function {symbol : List Char} {position : Nat} (hkind : t.kind = .function)
    (h : ofSymbol lexicon last symbol position = .ok t) :
    (∃ entry, lexicon.registry.find? symbol = some entry ∧ entry.isFunction = true) ∧
      ∀ last' position', ofSymbol lexicon last' symbol position' = .ok t := by
  rcases ofSymbol_eq_ok_iff.mp h with ⟨-, -, rfl⟩ | ⟨hother, entry, listed, rfl⟩
  · cases hkind
  · cases hfunction : entry.isFunction with
    | false =>
        rw [hfunction] at hkind
        cases hkind
    | true =>
        refine ⟨⟨entry, listed, hfunction⟩, fun last' position' => ?_⟩
        exact ofSymbol_eq_ok_iff.mpr (.inr ⟨hother, entry, listed, by rw [hfunction]⟩)

/-! ## The tokens of a line are spelled -/

theorem spells_canonical {digits : List Char} (h : Alone lexicon.symbols .number digits) :
    Spells lexicon last (Token.number (NumberLiteral.canonical digits)) :=
  .number (NumberLiteral.canonical_mem h.mem_grammar) (NumberLiteral.canonical_canonical digits)

/-- **The tokens of a turn are spelled** by their texts, if each of its lexemes is one by itself. -/
theorem Turn.spelled (legible : Legible lexicon) {bars bars' : Nat} {front rest : List Lexeme}
    {read tokens : List Token} (turn : Turn lexicon last bars rest front read bars')
    (halone : ∀ l ∈ front, Alone lexicon.symbols l.kind l.text)
    (h : SpelledAfter lexicon (read.getLast?.or last) tokens) :
    SpelledAfter lexicon last (read ++ tokens) := by
  cases turn with
  | space | plus => exact h
  | number => exact .cons (spells_canonical (halone _ List.mem_cons_self)) h
  | word => exact .cons (.reference (halone _ List.mem_cons_self)) h
  | leftParen => exact .cons .leftParen h
  | rightParen | closes => exact .cons .rightParen h
  | separator => exact .cons .separator h
  | opens =>
      -- a bar that opens an absolute value is written as the function that it stands for
      exact .cons (legible.absolute.spells last) (.cons .leftParen h)
  | constant text position hconstant =>
      exact .cons (.constant (halone _ List.mem_cons_self) hconstant) h
  | signed text position digits place hconstant hsign =>
      have hdigits : Alone lexicon.symbols .number digits :=
        halone ⟨.number, digits, place⟩ (List.mem_cons_of_mem _ List.mem_cons_self)
      refine .cons ?_ h
      rcases hsign with ⟨rfl | rfl, hexpected⟩
      · exact spells_canonical hdigits
      · exact .negative (NumberLiteral.canonical_mem hdigits.mem_grammar)
          (NumberLiteral.canonical_canonical digits) (halone _ List.mem_cons_self).mem_symbols
          (by simpa using hconstant) hexpected
  | minus =>
      -- a minus sign that no number follows is written as the function that it stands for
      exact .cons (legible.negate.spells last) h
  | symbol text position t hconstant hsign hsymbol =>
      obtain ⟨hkind, hread⟩ := ofSymbol_eq_ok hsymbol
      have htext : t.text = text := by
        rcases hkind with rfl | rfl <;> rfl
      subst htext
      exact .cons (.symbol (halone _ List.mem_cons_self) (by simpa using hconstant) hsign hread) h

/-- **The tokens of some lexemes are spelled** by their texts, if each lexeme is one by itself. -/
theorem Turns.spelled (legible : Legible lexicon) {bars : Nat} {lexemes : List Lexeme}
    {tokens : List Token} (turns : Turns lexicon last bars lexemes tokens) :
    (∀ l ∈ lexemes, Alone lexicon.symbols l.kind l.text) → SpelledAfter lexicon last tokens := by
  induction turns with
  | nil last bars => exact fun _ => .nil
  | turn first more ih =>
      intro halone
      rw [List.forall_mem_append] at halone
      exact first.spelled legible halone.1 (ih halone.2)

/-! ## Implied products are spelled -/

theorem Spells.after_product (legible : Legible lexicon) {left right : Token}
    (h : Spells lexicon (some left) right) (himplied : impliesProduct left right = true) :
    Spells lexicon (some (operator productSymbol)) right := by
  cases h with
  | number mem plain => exact .number mem plain
  | negative mem plain sign other _ => exact .negative mem plain sign other rfl
  | reference alone => exact .reference alone
  | leftParen => exact .leftParen
  | rightParen => exact .rightParen
  | separator => exact .separator
  | constant alone mem => exact .constant alone mem
  | symbol alone other unsigned read =>
      have hkind : right.kind = .function := by
        rcases (ofSymbol_eq_ok (read 0)).1 with hright | hright
        · exact absurd (congrArg Token.kind hright) (Grammar.kind_ne_of_impliesProduct himplied)
        · exact congrArg Token.kind hright
      obtain ⟨⟨entry, hfind, hfunction⟩, hread⟩ := ofSymbol_function hkind (read 0)
      refine .symbol alone other (fun hsign => ?_) (hread _)
      rw [legible.signs _ entry hsign.1 hfind] at hfunction
      cases hfunction

/-- **Implied products are spelled** like the tokens that they stand between. -/
theorem productsAfter_spelled (legible : Legible lexicon) (tokens : List Token) :
    ∀ left : Token, SpelledAfter lexicon (some left) tokens →
      SpelledAfter lexicon (some left) (productsAfter left tokens) := by
  induction tokens with
  | nil => exact fun left h => h
  | cons right rest ih =>
      intro left h
      obtain _ | ⟨spells, hrest⟩ := h
      rw [productsAfter]
      split
      · rename_i himplied
        exact .cons (legible.product.spells _)
          (.cons (spells.after_product legible himplied) (ih right hrest))
      · exact .cons spells (ih right hrest)

/-- No product is implied where products have been written out. -/
theorem productsAfter_productsAfter (tokens : List Token) : ∀ left : Token,
    productsAfter left (productsAfter left tokens) = productsAfter left tokens := by
  induction tokens with
  | nil => exact fun left => rfl
  | cons right rest ih =>
      intro left
      have hafter : impliesProduct left (operator productSymbol) = false := by
        simp [impliesProduct, startsOperand, operator]
      have hbefore : impliesProduct (operator productSymbol) right = false := by
        simp [impliesProduct, endsOperand, operator, productSymbol, factorialSymbol]
      cases himplied : impliesProduct left right <;>
        simp [productsAfter, himplied, hafter, hbefore, ih]

/-- **Writing out products twice** is the same as once. -/
theorem insertProducts_insertProducts (tokens : List Token) :
    insertProducts (insertProducts tokens) = insertProducts tokens := by
  cases tokens with
  | nil => rfl
  | cons t tokens => rw [insertProducts, insertProducts, productsAfter_productsAfter]

/-! ## Reading spelled tokens -/

/-- A token is read from its text before a text that has the lexemes `others`. -/
def ReadFrom (lexicon : Lexicon) (last : Option Token) (t : Token) (position : Nat)
    (x : List Char) (others : List Lexeme) : Prop :=
  ∃ lexemes, Lexeme.lexFrom lexicon.symbols position 0 (t.text ++ x) = .ok lexemes ∧
    ∀ bars, ofLexemesAfter lexicon last bars lexemes =
      (ofLexemesAfter lexicon (some t) bars others).map (t :: ·)

section

variable {x : List Char} {position : Nat} {others : List Lexeme}

/-- A token that is one lexeme is read before a space, as it is read before all other lexemes. -/
theorem read_lexeme (h : Unspaced lexicon.symbols) {kind : LexemeKind}
    (alone : Alone lexicon.symbols kind t.text) (hkind : kind ≠ .space) (hx : SpaceFirst x)
    (hread : ∀ position bars others,
      ofLexemesAfter lexicon last bars (⟨kind, t.text, position⟩ :: others) =
        (ofLexemesAfter lexicon (some t) bars others).map (t :: ·))
    (hothers : Lexeme.lexFrom lexicon.symbols (position + t.text.length) 0 x = .ok others) :
    ReadFrom lexicon last t position x others := by
  have hne := alone.ne_nil h.nonempty
  refine ⟨⟨kind, t.text, position⟩ :: others, ?_, fun bars => hread position bars others⟩
  rw [Lexeme.lexFrom_of_reads h.exist h.nonempty hne (alone.append h hkind hne hx), hothers]
  rfl

/-- A minus sign is a lexeme of its own, also before a number. -/
theorem reads_minus (legible : Legible lexicon) (sign : ['-'] ∈ lexicon.symbols) (x : List Char) :
    Lexeme.Reads (Lexeme.alternatives lexicon.symbols) ('-' :: x) .symbol ['-'] := by
  have hnumber : NumberLiteral.length ('-' :: x) = 0 := by
    rw [NumberLiteral.length_cons (by decide)]
    rfl
  refine .next (NumberLiteral.startsNone_grammar hnumber) (.first ⟨sign, ⟨x, rfl⟩, ?_⟩)
  intro v hv hpre
  cases v with
  | nil => exact Nat.zero_le 1
  | cons c v =>
      obtain ⟨rfl, _⟩ := List.cons_prefix_cons.mp hpre
      rw [legible.minus _ hv ⟨v, rfl⟩]

/-- A negative number is read from two lexemes, where an operand is expected. -/
theorem read_negative (legible : Legible lexicon) {digits : List Char}
    (mem : digits ∈ NumberLiteral.grammar) (plain : NumberLiteral.canonical digits = digits)
    (sign : ['-'] ∈ lexicon.symbols) (other : lexicon.constants.contains ['-'] = false)
    (expected : expectsOperand last = true) (hx : SpaceFirst x)
    (hothers : Lexeme.lexFrom lexicon.symbols (position + 1 + digits.length) 0 x = .ok others) :
    ReadFrom lexicon last (number ('-' :: digits)) position x others := by
  have halone : Alone lexicon.symbols .number digits := Lexeme.alone_number mem
  have hne := NumberLiteral.grammar_ne_nil mem
  have hdigits : Lexeme.lexFrom lexicon.symbols (position + 1) 0 (digits ++ x) =
      .ok (⟨.number, digits, position + 1⟩ :: others) := by
    rw [Lexeme.lexFrom_of_reads legible.exist legible.nonempty hne
      (halone.append legible.toUnspaced nofun hne hx), hothers]
    rfl
  refine ⟨⟨.symbol, ['-'], position⟩ :: ⟨.number, digits, position + 1⟩ :: others, ?_, ?_⟩
  · show Lexeme.lexFrom lexicon.symbols position 0 (['-'] ++ (digits ++ x)) = _
    rw [Lexeme.lexFrom_of_reads legible.exist legible.nonempty (List.cons_ne_nil _ _)
      (reads_minus legible sign (digits ++ x)), List.length_singleton, hdigits]
    rfl
  · intro bars
    rw [ofLexemesAfter, if_neg (by rw [other]; exact Bool.false_ne_true),
      if_pos ⟨.inr rfl, expected⟩]
    show (ofLexemesAfter lexicon (some (number ('-' :: NumberLiteral.canonical digits))) bars
      others).map (number ('-' :: NumberLiteral.canonical digits) :: ·) = _
    rw [plain]

/-- **A spelled token is read from its text**, if a space ends it. -/
theorem Spells.read (legible : Legible lexicon) (h : Spells lexicon last t) (hx : SpaceFirst x)
    (hothers : Lexeme.lexFrom lexicon.symbols (position + t.text.length) 0 x = .ok others) :
    ReadFrom lexicon last t position x others := by
  have hunspaced := legible.toUnspaced
  cases h with
  | @number digits mem plain =>
      refine read_lexeme hunspaced (Lexeme.alone_number mem) (by decide) hx
        (fun p bars rest => ?_) hothers
      show (ofLexemesAfter lexicon (some (Token.number (NumberLiteral.canonical digits))) bars
        rest).map (Token.number (NumberLiteral.canonical digits) :: ·) = _
      rw [plain]
  | @negative digits mem plain sign other expected =>
      refine read_negative legible mem plain sign other expected hx ?_
      rwa [Token.number, List.length_cons, Nat.add_comm digits.length, ← Nat.add_assoc] at hothers
  | reference alone => exact read_lexeme hunspaced alone (by decide) hx (fun _ _ _ => rfl) hothers
  | leftParen =>
      exact read_lexeme hunspaced legible.leftParen (by decide) hx (fun _ _ _ => rfl) hothers
  | rightParen =>
      exact read_lexeme hunspaced legible.rightParen (by decide) hx (fun _ _ _ => rfl) hothers
  | separator =>
      exact read_lexeme hunspaced legible.separator (by decide) hx (fun _ _ _ => rfl) hothers
  | @constant name alone mem =>
      refine read_lexeme hunspaced alone (by decide) hx (fun p bars rest => ?_) hothers
      show ofLexemesAfter lexicon last bars (⟨.symbol, name, p⟩ :: rest) = _
      rw [ofLexemesAfter, if_pos mem]
  | symbol alone other unsigned read =>
      refine read_lexeme hunspaced alone (by decide) hx (fun p bars rest => ?_) hothers
      rw [ofLexemesAfter, if_neg (by rw [other]; exact Bool.false_ne_true), if_neg unsigned, read p]
      show (ofLexemesAfter lexicon (some t) bars rest).bind _ = _
      cases ofLexemesAfter lexicon (some t) bars rest <;> rfl

end

/-- A spelled token begins with no white space. -/
theorem Spells.head_not_space (legible : Legible lexicon) (h : Spells lexicon last t)
    (x : List Char) : ∀ c ∈ (t.text ++ x).head?, Text.isWhiteSpace c = false := by
  have hword : ∀ {kind : LexemeKind} {w : List Char}, Alone lexicon.symbols kind w →
      kind ≠ .space → ∀ c ∈ (w ++ x).head?, Text.isWhiteSpace c = false := by
    intro kind w alone hkind c hc
    cases w with
    | nil => exact absurd rfl (alone.ne_nil legible.nonempty)
    | cons d w =>
        obtain rfl := Option.some.inj hc
        exact legible.word_not_space alone hkind d List.mem_cons_self
  cases h with
  | number mem _ => exact hword (Lexeme.alone_number mem) nofun
  | negative =>
      rintro c ⟨⟩
      decide
  | reference alone => exact hword alone nofun
  | leftParen => exact hword legible.leftParen nofun
  | rightParen => exact hword legible.rightParen nofun
  | separator => exact hword legible.separator nofun
  | constant alone _ => exact hword alone nofun
  | symbol alone _ _ _ => exact hword alone nofun

/-- **Spelled tokens are read from their texts** with spaces between them. -/
theorem SpelledAfter.read (legible : Legible lexicon) {last : Option Token} {tokens : List Token}
    (h : SpelledAfter lexicon last tokens) : ∀ position, ∃ lexemes,
      Lexeme.lexFrom lexicon.symbols position 0 (spaced tokens) = .ok lexemes ∧
        ∀ bars, ofLexemesAfter lexicon last bars lexemes = .ok tokens := by
  induction h with
  | nil => exact fun position => ⟨[], rfl, fun bars => rfl⟩
  | @cons last t tokens spells rest ih =>
      intro position
      -- a space comes between this token and the next one, if there is one
      have hafter : ∃ others, Lexeme.lexFrom lexicon.symbols (position + t.text.length) 0
          (spacedAfter tokens) = .ok others ∧
            ∀ bars, ofLexemesAfter lexicon (some t) bars others = .ok tokens := by
        obtain ⟨lexemes, hlex, hread⟩ := ih (position + t.text.length + 1)
        cases rest with
        | nil => exact ⟨[], rfl, fun bars => rfl⟩
        | @cons _ u tokens next _ =>
            have hhead := next.head_not_space legible (spacedAfter tokens)
            rw [← spaced_cons] at hhead
            have hspace : Lexeme.Reads (Lexeme.alternatives lexicon.symbols)
                ([' '] ++ spaced (u :: tokens)) .space [' '] := legible.reads_space hhead
            refine ⟨⟨.space, [' '], position + t.text.length⟩ :: lexemes, ?_, hread⟩
            show Lexeme.lexFrom lexicon.symbols _ 0 ([' '] ++ spaced (u :: tokens)) = _
            rw [Lexeme.lexFrom_of_reads legible.exist legible.nonempty (List.cons_ne_nil _ _)
              hspace, List.length_singleton, hlex]
            rfl
      obtain ⟨others, hothers, htokens⟩ := hafter
      obtain ⟨lexemes, hlex, hread⟩ := spells.read legible (spacedAfter_spaceFirst tokens) hothers
      refine ⟨lexemes, ?_, fun bars => ?_⟩
      · rw [spaced_cons]
        exact hlex
      · rw [hread, htokens]
        rfl

end Token

namespace Lexicon

variable {lexicon : Lexicon}

/-- The tokens of a line are spelled, and their products are written out. -/
theorem tokenize_spelled (legible : Token.Legible lexicon) {line : List Char} {tokens : List Token}
    (h : lexicon.tokenize line = .ok tokens) :
    Token.SpelledAfter lexicon none tokens ∧ Token.insertProducts tokens = tokens := by
  obtain ⟨lexemes, read, hlex, hturns, rfl⟩ := tokenize_eq_ok_iff.mp h
  have hcuts := (Lexeme.lex_eq_ok_iff legible.exist legible.nonempty).mp hlex
  have halone : ∀ l ∈ lexemes, Lexeme.Alone lexicon.symbols l.kind l.text := by
    intro l hl
    obtain ⟨before, after, rfl⟩ := List.append_of_mem hl
    exact (hcuts.read before l after rfl).alone
  have hspelled := hturns.spelled legible halone
  refine ⟨?_, Token.insertProducts_insertProducts read⟩
  cases hspelled with
  | nil => exact .nil
  | @cons _ t tokens spells rest =>
      exact .cons spells (Token.productsAfter_spelled legible tokens t rest)

/-- Spelled tokens are those of the line of their texts, if no product is implied between them. -/
theorem tokenize_of_spelled (legible : Token.Legible lexicon) {tokens : List Token}
    (hspelled : Token.SpelledAfter lexicon none tokens)
    (hproducts : Token.insertProducts tokens = tokens) :
    lexicon.tokenize (Token.spaced tokens) = .ok tokens := by
  obtain ⟨lexemes, hlex, hread⟩ := hspelled.read legible 0
  rw [tokenize, Lexeme.lex, hlex]
  show (Token.ofLexemes lexicon lexemes).bind _ = _
  rw [Token.ofLexemes, hread 0]
  exact congrArg Except.ok hproducts

/-- **Tokens are read again from their texts.** The texts of the tokens of a line, with single
spaces between them, are a line with the same tokens. -/
theorem tokenize_spaced_of_legible (legible : Token.Legible lexicon) {line : List Char}
    {tokens : List Token} (h : lexicon.tokenize line = .ok tokens) :
    lexicon.tokenize (Token.spaced tokens) = .ok tokens := by
  obtain ⟨hspelled, hproducts⟩ := tokenize_spelled legible h
  exact tokenize_of_spelled legible hspelled hproducts

/-! ## The built-in symbols -/

theorem builtin_legible : Token.Legible {} := by
  have exist : ({} : Lexicon).symbols ≠ [] := by decide
  have nonempty : [] ∉ ({} : Lexicon).symbols := by decide +kernel
  have alone : ∀ {kind : LexemeKind} {w : List Char},
      Lexeme.at? ({} : Lexicon).symbols w = some (kind, w.length) →
        Lexeme.Alone ({} : Lexicon).symbols kind w := Lexeme.alone_of_at? exist nonempty
  have unspaced : ({} : Lexicon).symbols.all (·.all fun c => !Text.isWhiteSpace c) = true := by
    decide +kernel
  refine {
    exist, nonempty
    unspaced := by simpa using unspaced
    leftParen := alone (by decide +kernel)
    rightParen := alone (by decide +kernel)
    separator := alone (by decide +kernel)
    minus := fun s hs hpre => ?_
    negate := ⟨alone (by decide +kernel), by decide, by decide, fun _ _ => rfl⟩
    absolute := ⟨alone (by decide +kernel), by decide, by decide, fun _ _ => rfl⟩
    product := ⟨alone (by decide +kernel), by decide, by decide, fun _ _ => rfl⟩
    signs := ?_ }
  · have htable : ∀ s ∈ ({} : Lexicon).symbols, ['-'].isPrefixOf s = true → s = ['-'] := by
      decide +kernel
    exact htable s hs (List.isPrefixOf_iff_prefix.mpr hpre)
  · rintro symbol entry (rfl | rfl) hfind
    · obtain rfl := Option.some.inj hfind
      rfl
    · obtain rfl := Option.some.inj hfind
      rfl

/-- **Token lists round-trip through text**: the texts of the tokens of a line, with single spaces
between them, are a line with just these tokens. -/
theorem tokenize_spaced (line : List Char) (tokens : List Token)
    (h : ({} : Lexicon).tokenize line = .ok tokens) :
    ({} : Lexicon).tokenize (Token.spaced tokens) = .ok tokens :=
  tokenize_spaced_of_legible builtin_legible h

/-- Signs, bars, implied products and grouped digits: `-.5|x|--2pi(1_000.)3` has the tokens of
`-0.5 * abs ( x ) - -2 * pi * ( 1000 ) * 3`. -/
theorem tokenize_spaced_signs :
    ∃ tokens, ({} : Lexicon).tokenize "-.5|x|--2pi(1_000.)3".toList = .ok tokens ∧
      Token.spaced tokens = "-0.5 * abs ( x ) - -2 * pi * ( 1000 ) * 3".toList ∧
      ({} : Lexicon).tokenize (Token.spaced tokens) = .ok tokens := by
  have h : ({} : Lexicon).tokenize "-.5|x|--2pi(1_000.)3".toList = .ok
      [.number "-0.5".toList, .operator ['*'], .function "abs".toList, .leftParen,
        .reference ['x'], .rightParen, .operator ['-'], .number "-2".toList, .operator ['*'],
        .constant "pi".toList, .operator ['*'], .leftParen, .number "1000".toList, .rightParen,
        .operator ['*'], .number ['3']] := by
    decide +kernel
  exact ⟨_, h, by decide, tokenize_spaced _ _ h⟩

end Lexicon

end DecimalCalc
