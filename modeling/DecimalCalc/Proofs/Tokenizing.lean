import DecimalCalc.Proofs.Lexemes
import DecimalCalc.Proofs.Outcome
import DecimalCalc.Proofs.TokenRules
import DecimalCalc.Proofs.TokenTurns

/-!
# Tokens of a line that is cut in two

The tokens of the lexemes before a place depend on those after it only through a number that follows
a sign. What is read after the place depends on the tokens before it only through what the last of
them leaves to be expected, and on the bars that are open (`ofLexemesAfter_append`). Nothing but
faults depends on positions (`ofLexemesAfter_congr`).
-/

set_option autoImplicit false

namespace DecimalCalc

namespace Token

variable {lexicon : Lexicon}

/-! ## Lexemes before and after a place -/

/-- The tokens of some lexemes, whatever other lexemes come next, if these do not start with a
number. -/
def Splits (lexicon : Lexicon) (last : Option Token) (bars : Nat) (lexemes : List Lexeme) : Prop :=
  (∃ failure, ∀ rest : List Lexeme, (∀ l ∈ rest.head?, l.kind ≠ .number) →
      ofLexemesAfter lexicon last bars (lexemes ++ rest) = .error failure) ∨
    ∃ tokens bars', ∀ rest : List Lexeme, (∀ l ∈ rest.head?, l.kind ≠ .number) →
      ofLexemesAfter lexicon last bars (lexemes ++ rest) =
        (ofLexemesAfter lexicon (tokens.getLast?.or last) bars' rest).map (tokens ++ ·)

/-- The tokens of the first lexemes come before those of the others. -/
theorem Splits.emit {last : Option Token} {bars bars' : Nat} {lexemes lexemes' : List Lexeme}
    (tokens : List Token) (h : Splits lexicon (tokens.getLast?.or last) bars' lexemes')
    (heq : ∀ rest : List Lexeme, (∀ l ∈ rest.head?, l.kind ≠ .number) →
      ofLexemesAfter lexicon last bars (lexemes ++ rest) =
        (ofLexemesAfter lexicon (tokens.getLast?.or last) bars' (lexemes' ++ rest)).map
          (tokens ++ ·)) :
    Splits lexicon last bars lexemes := by
  rcases h with ⟨failure, hfail⟩ | ⟨others, bars'', hread⟩
  · refine .inl ⟨failure, fun rest hrest => ?_⟩
    rw [heq rest hrest, hfail rest hrest]
    rfl
  · refine .inr ⟨tokens ++ others, bars'', fun rest hrest => ?_⟩
    rw [heq rest hrest, hread rest hrest, List.getLast?_append, Option.or_assoc, Except.map_map]
    simp only [List.append_assoc]

/-- **Lexemes are read in turn.** -/
theorem ofLexemesAfter_append (last : Option Token) (bars : Nat) (lexemes : List Lexeme) :
    Splits lexicon last bars lexemes := by
  induction last, bars, lexemes using turns lexicon with
  | nil last bars => exact .inr ⟨[], bars, fun rest _ => (map_nil_append _).symm⟩
  | stuck bars rest hstuck => exact .inl ⟨_, fun others _ => hstuck.eq bars (rest ++ others)⟩
  | @turn last bars bars' front read rest first ih =>
      refine ih.emit read fun others hothers => ?_
      -- a sign at the end of the first lexemes is still one that no number follows
      have hnext : (∀ l ∈ rest.head?, l.kind ≠ .number) →
          ∀ l ∈ (rest ++ others).head?, l.kind ≠ .number := by
        intro hrest
        cases rest with
        | nil => exact hothers
        | cons l rest => exact hrest
      rw [List.append_assoc]
      exact (first.before hnext).eq

/-! ## Lexemes wherever they stand -/

theorem toOption_map_congr {α β : Type} {result result' : Except Failure α}
    (h : result.toOption = result'.toOption) (f : α → β) :
    (result.map f).toOption = (result'.map f).toOption := by
  rw [Except.toOption_map, Except.toOption_map, h]

/-- Two tokens after which the same is expected. -/
def Alike (last last' : Option Token) : Prop :=
  expectsOperand last = expectsOperand last' ∧ last.any endsOperand = last'.any endsOperand

theorem alike_refl (last : Option Token) : Alike last last := ⟨rfl, rfl⟩

theorem ofSymbol_congr {last last' : Option Token} (h : Alike last last') (symbol : List Char)
    (position position' : Nat) :
    (ofSymbol lexicon last symbol position).toOption =
      (ofSymbol lexicon last' symbol position').toOption := by
  rw [ofSymbol, ofSymbol, h.2]
  split
  · split <;> rfl
  · rfl

/-- A turn is the same wherever its lexemes stand. -/
theorem Turn.unplaced {last last' : Option Token} {bars bars' : Nat} {front rest : List Lexeme}
    {read : List Token} (turn : Turn lexicon last bars rest front read bars')
    (h : Alike last last') : Turn lexicon last' bars (rest.map Lexeme.unplaced)
      (front.map Lexeme.unplaced) read bars' := by
  cases turn with
  | closes text position hbars => exact .closes text 0 (h.1 ▸ hbars)
  | opens text position hbars => exact .opens text 0 (h.1 ▸ hbars)
  | signed text position digits place hconstant hsign =>
      exact .signed text 0 digits 0 hconstant (h.1 ▸ hsign)
  | minus position hconstant hexpected hnext =>
      exact .minus 0 hconstant (h.1 ▸ hexpected) (head?_map_ne_number (fun _ => rfl) hnext)
  | plus position hconstant hexpected hnext =>
      exact .plus 0 hconstant (h.1 ▸ hexpected) (head?_map_ne_number (fun _ => rfl) hnext)
  | symbol text position t hconstant hsign hsymbol =>
      refine .symbol text 0 t hconstant (h.1 ▸ hsign) (Except.toOption_eq_some.mp ?_)
      rw [← ofSymbol_congr h text position 0, hsymbol]
      rfl
  | _ => constructor <;> assumption

theorem Alike.getLast?_or {last last' : Option Token} (h : Alike last last')
    (tokens : List Token) : Alike (tokens.getLast?.or last) (tokens.getLast?.or last') := by
  cases tokens.getLast? with
  | none => exact h
  | some t => exact alike_refl (some t)

/-- **Neither positions nor the token before matter** to the tokens of some lexemes, as long as the
same is expected. -/
theorem ofLexemesAfter_congr (last : Option Token) (bars : Nat) (lexemes : List Lexeme) :
    ∀ last', Alike last last' →
      (ofLexemesAfter lexicon last bars lexemes).toOption =
        (ofLexemesAfter lexicon last' bars (lexemes.map Lexeme.unplaced)).toOption := by
  induction last, bars, lexemes using turns lexicon with
  | nil last bars => exact fun last' h => rfl
  | @stuck last l failure bars rest hstuck =>
      intro last' h
      have hsymbol : (ofSymbol lexicon last l.text l.position).toOption =
          (ofSymbol lexicon last' l.text 0).toOption := ofSymbol_congr h l.text l.position 0
      rw [hstuck.fails] at hsymbol
      cases hfails : ofSymbol lexicon last' l.text 0 with
      | ok t => simp [hfails, Except.toOption] at hsymbol
      | error failure' =>
          have hstuck' : Stuck lexicon last' l.unplaced failure' :=
            ⟨hstuck.kind, hstuck.constant, h.1 ▸ hstuck.sign, hfails⟩
          rw [hstuck.eq, List.map_cons, hstuck'.eq]
          rfl
  | @turn last bars bars' front read rest first ih =>
      intro last' h
      rw [first.eq, List.map_append, (first.unplaced h).eq]
      exact toOption_map_congr (ih _ (h.getLast?_or read)) _

/-- The token before does not matter as long as the same is expected after it. -/
theorem ofLexemesAfter_alike {last last' : Option Token} (h : Alike last last') (bars : Nat)
    (lexemes : List Lexeme) : (ofLexemesAfter lexicon last bars lexemes).toOption =
      (ofLexemesAfter lexicon last' bars lexemes).toOption := by
  rw [ofLexemesAfter_congr last bars lexemes last' h,
    ofLexemesAfter_congr last' bars lexemes last' (alike_refl last')]

/-! ## Implied products before and after a place -/

theorem productsAfter_append {left t : Token} (us : List Token) (ts : List Token) :
    productsAfter left (ts ++ t :: us) = productsAfter left (ts ++ [t]) ++ productsAfter t us := by
  induction ts generalizing left with
  | nil => cases h : impliesProduct left t <;> simp [productsAfter, h]
  | cons u ts ih =>
      rw [List.cons_append, List.cons_append, productsAfter, productsAfter, ih]
      cases h : impliesProduct left u <;> simp

/-- A token that no product is implied before. -/
theorem productsAfter_concat {t : Token} (ts : List Token) : ∀ {left : Token},
    (∀ l ∈ (left :: ts).getLast?, impliesProduct l t = false) →
      productsAfter left (ts ++ [t]) = productsAfter left ts ++ [t] := by
  induction ts with
  | nil =>
      intro left h
      simp [productsAfter, h left rfl]
  | cons u ts ih =>
      intro left h
      rw [List.cons_append, productsAfter, productsAfter,
        ih fun l hl => h l (by rw [List.getLast?_cons_cons]; exact hl)]
      cases impliesProduct left u <;> simp

theorem insertProducts_append {ts us : List Token} {t : Token}
    (h : ∀ l ∈ ts.getLast?, impliesProduct l t = false) :
    insertProducts (ts ++ t :: us) = insertProducts ts ++ t :: productsAfter t us := by
  cases ts with
  | nil => rfl
  | cons left ts =>
      rw [List.cons_append, insertProducts, insertProducts, productsAfter_append,
        productsAfter_concat ts h]
      simp

theorem getLast?_productsAfter (ts : List Token) : ∀ left : Token,
    (left :: productsAfter left ts).getLast? = (left :: ts).getLast? := by
  induction ts with
  | nil => exact fun left => rfl
  | cons t ts ih =>
      intro left
      rw [productsAfter]
      split <;> simp only [List.getLast?_cons_cons, ih]

theorem getLast?_insertProducts (ts : List Token) :
    (insertProducts ts).getLast? = ts.getLast? := by
  cases ts with
  | nil => rfl
  | cons t ts => exact getLast?_productsAfter ts t

/-- What tokens that end no operand are followed by. -/
theorem productsAfter_congr {left left' : Token} (h : left.endsOperand = false)
    (h' : left'.endsOperand = false) (ts : List Token) :
    productsAfter left ts = productsAfter left' ts := by
  cases ts with
  | nil => rfl
  | cons t ts => simp [productsAfter, impliesProduct, h, h']

/-- No operand directly follows a closing parenthesis. -/
theorem head?_productsAfter_rightParen (ts : List Token) :
    ∀ t ∈ (productsAfter rightParen ts).head?, t.kind ≠ .number ∧ t.startsOperand = false := by
  intro t ht
  cases ts with
  | nil => cases ht
  | cons u ts =>
      rw [productsAfter] at ht
      cases h : impliesProduct rightParen u with
      | true =>
          rw [h, if_pos rfl] at ht
          obtain rfl := Option.some.inj ht
          exact ⟨by rintro ⟨⟩, rfl⟩
      | false =>
          rw [h] at ht
          obtain rfl : u = t := by simpa using ht
          have hends : rightParen.endsOperand = true := rfl
          rw [impliesProduct, hends, Bool.true_and] at h
          by_cases hkind : u.kind = .number
          · simp [hkind, rightParen] at h
          · exact ⟨hkind, by simpa [hkind] using h⟩

end Token

/-! ## Tokens of a line by its pieces -/

namespace Lexicon

theorem tokenize_toOption (lexicon : Lexicon) (line : List Char) :
    (lexicon.tokenize line).toOption = (Lexeme.pieces? lexicon.symbols 0 line).bind fun pieces =>
      (Token.ofLexemes lexicon pieces).toOption.map Token.insertProducts := by
  rw [tokenize, ← Lexeme.lex_pieces]
  cases Lexeme.lex lexicon.symbols line with
  | error failure => rfl
  | ok lexemes =>
      show ((Token.ofLexemes lexicon lexemes).map Token.insertProducts).toOption =
        (Token.ofLexemes lexicon (lexemes.map Lexeme.unplaced)).toOption.map Token.insertProducts
      have hplaces : (Token.ofLexemes lexicon lexemes).toOption =
          (Token.ofLexemes lexicon (lexemes.map Lexeme.unplaced)).toOption :=
        Token.ofLexemesAfter_congr none 0 lexemes none (Token.alike_refl none)
      rw [← hplaces]
      cases Token.ofLexemes lexicon lexemes <;> rfl

end Lexicon

end DecimalCalc
