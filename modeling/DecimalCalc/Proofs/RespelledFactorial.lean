import DecimalCalc.Proofs.Failures
import DecimalCalc.Proofs.Reordering
import DecimalCalc.Proofs.RespelledLexemes
import DecimalCalc.Proofs.SpacedTokens
import DecimalCalc.Proofs.Substitution

/-!
# A factorial that is spelled otherwise

A registry may hold a second operator that stands after its operand and does what the factorial
does. Reordering and running treat the two alike, as they ask the registry (`reorder_respelled`,
`evaluate_respelled_tokens`). Reading a line does not: only the factorial itself ends an operand. So
a line may be spelled with the other operator where nothing depends on that, that is where no sign,
no bar and nothing that an operand starts with comes next (`Calculator.evaluate_respelled`).
-/

set_option autoImplicit false

namespace DecimalCalc

open Text (respell Solitary)

/-! ## The registry -/

/-- The entry of an operator that does what the factorial does. -/
def factorialEntry (symbol : List Char) : Entry :=
  Entry.after symbol 5 Operation.factorial.action

/-- **A lexicon in which a character stands for the factorial too.** -/
structure Lexicon.Respells (lexicon : Lexicon) (p : Char) : Prop where
  exchangeable : Lexeme.Exchangeable p lexicon.symbols
  new : p ∉ ['!', '+', '-']
  constants : ∀ name ∈ lexicon.constants, '!' ∉ name ∧ p ∉ name
  factorial : lexicon.registry.find? factorialSymbol = some (factorialEntry factorialSymbol)
  other : lexicon.registry.find? [p] = some (factorialEntry [p])

theorem Builtin.nodup : (Builtin.entries.map Entry.symbol).Nodup := by
  decide +kernel

/-- A listed entry is found, as no other one has its symbol. -/
theorem Registry.find?_of_mem {r : Registry} (distinct : r.symbols.Nodup) {e : Entry}
    (hmem : e ∈ r.entries) : r.find? e.symbol = some e := by
  have hsome : (r.find? e.symbol).isSome = true := by
    rw [find?, List.find?_isSome]
    exact ⟨e, hmem, by simp⟩
  obtain ⟨found, hfound⟩ := Option.isSome_iff_exists.mp hsome
  have hsymbol : found.symbol = e.symbol := by simpa using List.find?_some hfound
  have hlisted : found ∈ r.entries := List.mem_of_find?_eq_some hfound
  rw [hfound, List.inj_on_of_nodup_map distinct hlisted hmem hsymbol]

variable {p : Char}

section Perm

variable {r : Registry} (fresh : ∀ s ∈ Registry.builtin.symbols ++ Constant.names.map Prod.fst, p ∉ s)
  (h : r.entries.Perm (factorialEntry [p] :: Builtin.entries))

include h in
theorem symbols_of_perm : r.symbols.Perm ([p] :: Registry.builtin.symbols) :=
  h.map Entry.symbol

include fresh h in
theorem nodup_of_perm : r.symbols.Nodup := by
  refine (symbols_of_perm h).nodup_iff.mpr (List.nodup_cons.mpr ⟨fun hmem => ?_, Builtin.nodup⟩)
  exact fresh [p] (List.mem_append_left _ hmem) List.mem_cons_self

include fresh h in
/-- Among all that is read as a symbol only two texts hold one of the two characters. -/
theorem exchangeable_of_perm (solitary : Solitary p) :
    Lexeme.Exchangeable p ({ registry := r } : Lexicon).symbols := by
  have hbuiltin : ∀ s ∈ Registry.builtin.symbols ++ Constant.names.map Prod.fst,
      s ≠ [] ∧ ('!' ∈ s → s = ['!']) := by decide +kernel
  have hmem : ∀ s, s ∈ ({ registry := r } : Lexicon).symbols ↔
      s = [p] ∨ s ∈ Registry.builtin.symbols ++ Constant.names.map Prod.fst := by
    intro s
    rw [Lexicon.symbols, List.mem_append, (symbols_of_perm h).mem_iff, List.mem_cons, or_assoc,
      ← List.mem_append]
  refine ⟨solitary, (hmem _).mpr (.inr (by decide +kernel)), (hmem _).mpr (.inl rfl), ?_, ?_⟩
  · intro s hs hheld
    rcases (hmem s).mp hs with rfl | hs
    · exact .inr rfl
    · exact .inl ((hbuiltin s hs).2 (hheld.resolve_right (fresh s hs)))
  · intro hnil
    rcases (hmem []).mp hnil with hs | hs
    · cases hs
    · exact (hbuiltin [] hs).1 rfl

include fresh h in
/-- **The built-in entries and a second factorial**, in any order. -/
theorem respells_of_perm (solitary : Solitary p) : ({ registry := r } : Lexicon).Respells p := by
  have hfactorial : factorialEntry factorialSymbol ∈ r.entries := by
    refine h.mem_iff.mpr (List.mem_cons_of_mem _ ?_)
    simp [Builtin.entries, factorialEntry]
  have hother : factorialEntry [p] ∈ r.entries := h.mem_iff.mpr List.mem_cons_self
  have hnames : ∀ name ∈ Constant.names.map Prod.fst, '!' ∉ name := by decide
  have hsigns : ∀ s ∈ ['!', '+', '-'].map fun c => [c], s ∈ Registry.builtin.symbols := by decide
  refine ⟨exchangeable_of_perm fresh h solitary, fun hmem => ?_, fun name hname => ?_, ?_, ?_⟩
  · exact fresh [p] (List.mem_append_left _ (hsigns _ (List.mem_map_of_mem hmem)))
      List.mem_cons_self
  · exact ⟨hnames name hname, fresh name (List.mem_append_right _ hname)⟩
  · exact Registry.find?_of_mem (nodup_of_perm fresh h) hfactorial
  · exact Registry.find?_of_mem (nodup_of_perm fresh h) hother

end Perm

/-! ## Tokens -/

namespace Token

/-- A token in the other spelling. -/
def respelled (p : Char) (t : Token) : Token :=
  if t = operator factorialSymbol then operator [p] else t

@[simp] theorem respelled_factorial : respelled p (operator factorialSymbol) = operator [p] :=
  if_pos rfl

theorem respelled_of_ne {t : Token} (h : t ≠ operator factorialSymbol) : respelled p t = t :=
  if_neg h

theorem respelled_of_kind {t : Token} (h : t.kind ≠ .operator) : respelled p t = t :=
  respelled_of_ne fun heq => h (heq ▸ rfl)

@[simp] theorem kind_respelled (t : Token) : (respelled p t).kind = t.kind := by
  rw [respelled]
  split
  · rename_i heq
    rw [heq]
    rfl
  · rfl

/-! ## What comes after a factorial -/

/-- **A lexeme that is read alike after any operator**: a number, a closing parenthesis, a separator,
or an operator that is no sign. -/
def detached (lexicon : Lexicon) (l : Lexeme) : Bool :=
  match l.kind with
  | .number | .rightParen | .separator => true
  | .symbol => !lexicon.constants.contains l.text && l.text != ['+'] && l.text != ['-'] &&
      (lexicon.registry.find? l.text).any fun entry => !entry.isFunction
  | _ => false

/-- **Each factorial is followed by such a lexeme**, perhaps after white space, or by nothing.
`after` is set where a factorial was the last lexeme before, white space apart. -/
def factorialsDetached (lexicon : Lexicon) : Bool → List Lexeme → Bool
  | _, [] => true
  | after, l :: rest =>
    if l.kind = .space then factorialsDetached lexicon after rest
    else (!after || detached lexicon l) &&
      factorialsDetached lexicon (l.kind == .symbol && l.text == factorialSymbol) rest

theorem factorialsDetached_cons {lexicon : Lexicon} {after : Bool} {kind : LexemeKind}
    {text : List Char} {position : Nat} {rest : List Lexeme}
    (h : factorialsDetached lexicon after (⟨kind, text, position⟩ :: rest) = true)
    (hspace : kind ≠ .space) :
    (after = true → detached lexicon ⟨kind, text, position⟩ = true) ∧
      factorialsDetached lexicon (kind == .symbol && text == factorialSymbol) rest = true := by
  rw [factorialsDetached, if_neg hspace, Bool.and_eq_true, Bool.or_eq_true] at h
  refine ⟨fun hafter => h.1.resolve_left ?_, h.2⟩
  rw [hafter]
  decide

/-- No operand starts right after a factorial, which follows `last`. -/
def FactorialsLoose : Option Token → List Token → Prop
  | _, [] => True
  | last, t :: rest =>
    (last = some (operator factorialSymbol) → t.startsOperand = false) ∧
      FactorialsLoose (some t) rest

/-! ## Lexemes to tokens -/

variable {lexicon : Lexicon} {last : Option Token} {bars : Nat}

/-- The lexemes of a line give the tokens, exchanged, after the exchange of lexemes. -/
def ReadsRespelled (p : Char) (lexicon : Lexicon) (last : Option Token) (bars : Nat)
    (lexemes : List Lexeme) (tokens : List Token) : Prop :=
  ofLexemesAfter lexicon (last.map (respelled p)) bars (lexemes.map (Lexeme.respelled p)) =
    .ok (tokens.map (respelled p)) ∧ FactorialsLoose last tokens

/-- A line holds the sign of the factorial in no other lexeme. -/
def OnlyFactorials (lexemes : List Lexeme) : Prop :=
  ∀ l ∈ lexemes, '!' ∈ l.text → l.kind = .symbol ∧ l.text = ['!']

/-- Lexemes other than the factorial are spelled as before. -/
theorem OnlyFactorials.map_respelled {lexemes : List Lexeme} (h : OnlyFactorials lexemes)
    (hother : ∀ l ∈ lexemes, l.kind = .symbol → l.text ≠ ['!']) :
    lexemes.map (Lexeme.respelled p) = lexemes := by
  refine (List.map_congr_left fun l hl => ?_).trans (List.map_id lexemes)
  have hno : '!' ∉ l.text := fun hmem => hother l hl (h l hl hmem).1 (h l hl hmem).2
  rw [Lexeme.respelled, Text.respell_of_notMem hno]
  rfl

theorem map_respelled_of_ne (h : last ≠ some (operator factorialSymbol)) :
    last.map (respelled p) = last := by
  cases last with
  | none => rfl
  | some t => exact congrArg some (respelled_of_ne fun heq => h (congrArg some heq))

/-- After a factorial no operand is expected. -/
theorem ne_of_expectsOperand (h : expectsOperand last = true) :
    last ≠ some (operator factorialSymbol) := by
  rintro rfl
  cases h

/-- The other spelling is read as an operator wherever it stands. -/
theorem ofSymbol_respelled (h : lexicon.Respells p) (last : Option Token) (position : Nat) :
    ofSymbol lexicon last [p] position = .ok (operator [p]) := by
  have hne : [p] ≠ factorialSymbol := by
    intro heq
    obtain rfl : p = '!' := (List.cons.inj heq).1
    exact h.new List.mem_cons_self
  rw [ofSymbol, if_neg hne, Registry.lookup, h.other]
  rfl

theorem eq_of_ofSymbol_factorial {position : Nat} {t : Token}
    (h : ofSymbol lexicon last factorialSymbol position = .ok t) :
    t = operator factorialSymbol := by
  rcases ofSymbol_eq_ok_iff.mp h with ⟨-, -, heq⟩ | ⟨hother, -⟩
  · exact heq
  · exact absurd rfl hother

/-- Another symbol is read alike after any token. -/
theorem ofSymbol_of_ne {symbol : List Char} (hne : symbol ≠ factorialSymbol)
    (last last' : Option Token) (position : Nat) :
    ofSymbol lexicon last symbol position = ofSymbol lexicon last' symbol position := by
  rw [ofSymbol, ofSymbol, if_neg hne, if_neg hne]

/-- An operator that is read right after a factorial starts no operand. -/
theorem startsOperand_of_detached {text : List Char} {position : Nat} {t : Token}
    (h : detached lexicon ⟨.symbol, text, position⟩ = true)
    (hsymbol : ofSymbol lexicon last text position = .ok t) : t.startsOperand = false := by
  rcases (ofSymbol_eq_ok hsymbol).1 with rfl | rfl
  · rfl
  · obtain ⟨⟨entry, hentry, hfunction⟩, _⟩ := ofSymbol_function rfl hsymbol
    simp [detached, hentry, hfunction] at h

theorem ne_factorial_of_ofSymbol {text : List Char} {position : Nat} {t : Token}
    (hne : text ≠ factorialSymbol) (h : ofSymbol lexicon last text position = .ok t) :
    some t ≠ some (operator factorialSymbol) := by
  rintro ⟨⟩
  rcases (ofSymbol_eq_ok h).1 with heq | heq
  · exact hne (congrArg Token.text heq).symm
  · cases heq

section

variable {bars' : Nat} {front rest : List Lexeme} {read tokens : List Token}

/-- **What comes right after a factorial is detached**, and so is what comes after the turn. -/
theorem Turn.detached (turn : Turn lexicon last bars rest front read bars') {after : Bool}
    (h : factorialsDetached lexicon after (front ++ rest) = true)
    (hafter : last = some (operator factorialSymbol) → after = true) :
    (last = some (operator factorialSymbol) →
        ∀ l ∈ front.head?, l.kind ≠ .space → Token.detached lexicon l = true) ∧
      ∃ after', factorialsDetached lexicon after' rest = true ∧
        (read.getLast?.or last = some (operator factorialSymbol) → after' = true) := by
  -- what stands first in a turn, other than space, is what comes right after a factorial
  have hfirst : ∀ {kind : LexemeKind} {text : List Char} {position : Nat} {more others : List Lexeme},
      factorialsDetached lexicon after (⟨kind, text, position⟩ :: others) = true → kind ≠ .space →
      (last = some (operator factorialSymbol) → ∀ l ∈ (⟨kind, text, position⟩ :: more).head?,
        l.kind ≠ .space → Token.detached lexicon l = true) ∧
      factorialsDetached lexicon (kind == .symbol && text == factorialSymbol) others = true := by
    intro kind text position more others hdetached hspace
    obtain ⟨hhead, hrest⟩ := factorialsDetached_cons hdetached hspace
    refine ⟨fun hlast l hl _ => ?_, hrest⟩
    obtain rfl := Option.some.inj hl
    exact hhead (hafter hlast)
  cases turn with
  | space => exact ⟨fun _ l hl hspace => absurd (Option.some.inj hl ▸ rfl) hspace, after, h, hafter⟩
  | signed text position digits place hconstant hsign =>
      obtain ⟨hhead, hmore⟩ := hfirst h nofun
      exact ⟨hhead, false, (factorialsDetached_cons hmore nofun).2, nofun⟩
  | plus position hconstant hexpected hrest =>
      obtain ⟨hhead, hmore⟩ := hfirst h nofun
      exact ⟨hhead, _, hmore, fun hlast => absurd hlast (ne_of_expectsOperand hexpected)⟩
  | symbol text position t hconstant hsign hsymbol =>
      obtain ⟨hhead, hmore⟩ := hfirst h nofun
      refine ⟨hhead, _, hmore, fun hlast => ?_⟩
      by_contra hother
      exact ne_factorial_of_ofSymbol (by simpa using hother) hsymbol hlast
  | _ =>
      obtain ⟨hhead, hmore⟩ := hfirst h nofun
      exact ⟨hhead, _, hmore, nofun⟩

/-- **No operand starts in a turn right after a factorial.** -/
theorem Turn.loose (turn : Turn lexicon last bars rest front read bars')
    (hnext : last = some (operator factorialSymbol) →
      ∀ l ∈ front.head?, l.kind ≠ .space → Token.detached lexicon l = true)
    (h : FactorialsLoose (read.getLast?.or last) tokens) : FactorialsLoose last (read ++ tokens) := by
  have hhead : ∀ {l : Lexeme}, front.head? = some l → l.kind ≠ .space →
      Token.detached lexicon l = false → last ≠ some (operator factorialSymbol) :=
    fun hl hspace hnot hlast => absurd (hnext hlast _ hl hspace) (by simp [hnot])
  cases turn with
  | space | plus => exact h
  | number | rightParen | separator | closes | signed => exact ⟨fun _ => rfl, h⟩
  | word | leftParen => exact ⟨fun hlast => absurd hlast (hhead rfl nofun rfl), h⟩
  | opens => exact ⟨fun hlast => absurd hlast (hhead rfl nofun rfl), nofun, h⟩
  | constant text position hconstant =>
      have hnot : Token.detached lexicon ⟨.symbol, text, position⟩ = false := by
        simp only [Token.detached, hconstant]
        rfl
      exact ⟨fun hlast => absurd hlast (hhead rfl nofun hnot), h⟩
  | minus position hconstant hexpected hrest =>
      exact ⟨fun hlast => absurd hlast (ne_of_expectsOperand hexpected), h⟩
  | symbol text position t hconstant hsign hsymbol =>
      exact ⟨fun hlast => startsOperand_of_detached (hnext hlast _ rfl nofun) hsymbol, h⟩

/-- The turn of the factorial in the other spelling. -/
theorem turn_other (h : lexicon.Respells p) (last : Option Token) (bars : Nat)
    (rest : List Lexeme) (position : Nat) :
    Turn lexicon last bars rest [⟨.symbol, [p], position⟩] [operator [p]] bars := by
  have hnew := h.new
  simp only [List.mem_cons, List.not_mem_nil, or_false, not_or] at hnew
  obtain ⟨_, hplus, hminus⟩ := hnew
  refine .symbol [p] position _ ?_ ?_ (ofSymbol_respelled h last position)
  · intro hmem
    exact (h.constants [p] (by simpa using hmem)).2 List.mem_cons_self
  · simp [hplus, hminus]

/-- **A turn right after a factorial** may as well be one right after the other operator. -/
theorem Turn.after_other
    (turn : Turn lexicon (some (operator factorialSymbol)) bars rest front read bars')
    (hother : read ≠ [operator factorialSymbol])
    (hnext : ∀ l ∈ front.head?, l.kind ≠ .space → Token.detached lexicon l = true) :
    Turn lexicon (some (operator [p])) bars rest front read bars' := by
  cases turn with
  | space | number | rightParen | separator => constructor
  | word | leftParen | closes | opens => cases hnext _ rfl nofun
  | constant text position hconstant =>
      have hdetached := hnext _ rfl nofun
      simp only [Token.detached, hconstant] at hdetached
      cases hdetached
  | signed text position digits place hconstant hsign => cases hsign.2
  | minus position hconstant hexpected | plus position hconstant hexpected => cases hexpected
  | symbol text position t hconstant hsign hsymbol =>
      have hdetached := hnext _ rfl nofun
      simp only [Token.detached, Bool.and_eq_true, bne_iff_ne] at hdetached
      have htext : text ≠ factorialSymbol := by
        rintro rfl
        exact hother (congrArg ([·]) (eq_of_ofSymbol_factorial hsymbol))
      refine .symbol text position t hconstant ?_ ?_
      · rintro ⟨hplus | hminus, _⟩
        · exact hdetached.1.1.2 hplus
        · exact hdetached.1.2 hminus
      · rw [← hsymbol]
        exact ofSymbol_of_ne htext _ _ position

/-- Only the factorial's own turn has anything to do with it. -/
theorem Turn.no_factorial (h : lexicon.Respells p)
    (turn : Turn lexicon last bars rest front read bars') (hother : read ≠ [operator factorialSymbol]) :
    (∀ l ∈ front, l.kind = .symbol → l.text ≠ ['!']) ∧ read.map (respelled p) = read := by
  cases turn with
  | constant text position hconstant =>
      have hmem : text ∈ lexicon.constants := by simpa using hconstant
      refine ⟨List.forall_mem_singleton.mpr fun _ htext => ?_, rfl⟩
      obtain rfl : text = ['!'] := htext
      exact (h.constants _ hmem).1 List.mem_cons_self
  | signed text position digits place hconstant hsign =>
      refine ⟨List.forall_mem_cons.mpr ⟨fun _ htext => ?_, List.forall_mem_singleton.mpr nofun⟩, rfl⟩
      obtain rfl : text = ['!'] := htext
      exact absurd hsign.1 (by decide)
  | minus | plus => exact ⟨List.forall_mem_singleton.mpr fun _ => nofun, rfl⟩
  | symbol text position t hconstant hsign hsymbol =>
      have htext : text ≠ factorialSymbol := by
        rintro rfl
        exact hother (congrArg ([·]) (eq_of_ofSymbol_factorial hsymbol))
      have ht : t ≠ operator factorialSymbol :=
        fun heq => ne_factorial_of_ofSymbol htext hsymbol (congrArg some heq)
      exact ⟨List.forall_mem_singleton.mpr fun _ => htext, congrArg ([·]) (respelled_of_ne ht)⟩
  | _ => exact ⟨List.forall_mem_singleton.mpr nofun, rfl⟩

/-- **A turn is one in the other spelling too**, if what comes right after a factorial is detached. -/
theorem Turn.respelled (h : lexicon.Respells p)
    (turn : Turn lexicon last bars rest front read bars') (honly : OnlyFactorials front)
    (hnext : last = some (operator factorialSymbol) →
      ∀ l ∈ front.head?, l.kind ≠ .space → Token.detached lexicon l = true) :
    Turn lexicon (last.map (Token.respelled p)) bars (rest.map (Lexeme.respelled p))
      (front.map (Lexeme.respelled p)) (read.map (Token.respelled p)) bars' := by
  -- the turn of a factorial is exchanged, and all others stay as they are
  by_cases hread : read = [operator factorialSymbol]
  · cases turn with
    | symbol text position t hconstant hsign hsymbol =>
        obtain rfl : t = operator factorialSymbol := List.singleton_inj.mp hread
        obtain rfl : factorialSymbol = text := by
          rcases (ofSymbol_eq_ok hsymbol).1 with heq | heq
          · exact congrArg Token.text heq
          · cases heq
        exact turn_other h (last.map (Token.respelled p)) bars _ position
    | _ => cases hread
  · obtain ⟨hfront, hread'⟩ := turn.no_factorial h hread
    have hrest : (∀ l ∈ rest.head?, l.kind ≠ .number) →
        ∀ l ∈ (rest.map (Lexeme.respelled p)).head?, l.kind ≠ .number :=
      head?_map_ne_number fun _ => rfl
    rw [honly.map_respelled hfront, hread']
    by_cases hlast : last = some (operator factorialSymbol)
    · subst hlast
      rw [Option.map_some, respelled_factorial]
      exact (turn.after_other hread (hnext rfl)).before hrest
    · rw [map_respelled_of_ne hlast]
      exact turn.before hrest

/-- **Lexemes give the same tokens in either spelling**, if each factorial is detached from what
comes next. -/
theorem Turns.respelled {lexemes : List Lexeme} (h : lexicon.Respells p)
    (turns : Turns lexicon last bars lexemes tokens) : ∀ after : Bool, OnlyFactorials lexemes →
      factorialsDetached lexicon after lexemes = true →
      (last = some (operator factorialSymbol) → after = true) →
        ReadsRespelled p lexicon last bars lexemes tokens := by
  induction turns with
  | nil last bars => exact fun _ _ _ _ => ⟨rfl, trivial⟩
  | @turn last bars bars' front rest read tokens first more ih =>
      intro after honly hdetached hafter
      obtain ⟨hnext, after', hrest, hafter'⟩ := first.detached hdetached hafter
      have hfirst := first.respelled h (fun l hl => honly l (List.mem_append_left _ hl)) hnext
      obtain ⟨hread, hloose⟩ :=
        ih after' (fun l hl => honly l (List.mem_append_right _ hl)) hrest hafter'
      refine ⟨?_, first.loose hnext hloose⟩
      rw [List.map_append, hfirst.eq, List.getLast?_map, ← Option.map_or, hread, List.map_append]
      rfl

end

/-! ## Implied products -/

/-- A product is implied between two tokens in either spelling, if no operand starts right after a
factorial. -/
theorem impliesProduct_respelled {left right : Token}
    (hloose : left = operator factorialSymbol → right.startsOperand = false) :
    impliesProduct (respelled p left) (respelled p right) = impliesProduct left right := by
  have hstarts : (respelled p right).startsOperand = right.startsOperand := by
    simp only [startsOperand, kind_respelled]
  by_cases hleft : left = operator factorialSymbol
  · -- after either operator a product is implied before nothing
    subst hleft
    have hnone : ∀ symbol, impliesProduct (operator symbol) (respelled p right) = false := by
      intro symbol
      rw [impliesProduct, hstarts, hloose rfl]
      split <;> simp [operator]
    have hnone' : impliesProduct (operator factorialSymbol) right = false := by
      rw [impliesProduct, hloose rfl]
      split <;> simp [operator]
    rw [respelled_factorial, hnone, hnone']
  · rw [respelled_of_ne hleft, impliesProduct, impliesProduct, hstarts, kind_respelled]

theorem productsAfter_respelled (tokens : List Token) : ∀ left : Token,
    FactorialsLoose (some left) tokens →
      productsAfter (respelled p left) (tokens.map (respelled p)) =
        (productsAfter left tokens).map (respelled p) := by
  induction tokens with
  | nil => exact fun left _ => rfl
  | cons right rest ih =>
      intro left h
      obtain ⟨hloose, hrest⟩ := h
      have hproduct : respelled p (operator productSymbol) = operator productSymbol :=
        respelled_of_ne (by decide)
      rw [List.map_cons, productsAfter, productsAfter, ih right hrest,
        impliesProduct_respelled fun heq => hloose (congrArg some heq)]
      split <;> simp [hproduct]

theorem insertProducts_respelled {tokens : List Token} (h : FactorialsLoose none tokens) :
    insertProducts (tokens.map (respelled p)) = (insertProducts tokens).map (respelled p) := by
  cases tokens with
  | nil => rfl
  | cons first rest => exact congrArg (respelled p first :: ·) (productsAfter_respelled rest first h.2)

end Token

/-- **The tokens of a line in the other spelling.** -/
theorem Lexicon.tokenize_respelled {lexicon : Lexicon} (h : lexicon.Respells p) {line : List Char}
    (hp : p ∉ line) {lexemes : List Lexeme} (hlex : Lexeme.lex lexicon.symbols line = .ok lexemes)
    (detached : Token.factorialsDetached lexicon false lexemes = true) {tokens : List Token}
    (htokens : lexicon.tokenize line = .ok tokens) :
    lexicon.tokenize (respell p line) = .ok (tokens.map (Token.respelled p)) := by
  obtain ⟨lexemes', read, hlex', hturns, rfl⟩ := tokenize_eq_ok_iff.mp htokens
  obtain rfl := Except.ok.inj (hlex.symm.trans hlex')
  have honly : Token.OnlyFactorials lexemes :=
    fun l hl hmem => Lexeme.eq_factorial_of_mem h.exchangeable hp hlex hl hmem
  obtain ⟨hrespelled, hloose⟩ := hturns.respelled h false honly detached nofun
  refine tokenize_eq_ok_iff.mpr ⟨lexemes.map (Lexeme.respelled p), _, ?_,
    Token.ofLexemesAfter_eq_ok_iff.mp hrespelled, Token.insertProducts_respelled hloose⟩
  rw [Lexeme.lex_respell h.exchangeable hp, hlex]
  rfl

/-! ## Reordering and running -/

namespace ReversePolish

open Token (respelled)

variable {lexicon : Lexicon}

theorem outranks_factorialEntry (symbol symbol' : List Char) (later : Entry) :
    outranks (factorialEntry symbol) later = outranks (factorialEntry symbol') later := rfl

/-- What waits yields in either spelling. -/
theorem yieldsTo_respelled (h : lexicon.Respells p) (later : Entry) (t : Token) :
    yieldsTo lexicon.registry later (respelled p t) = yieldsTo lexicon.registry later t := by
  by_cases ht : t = Token.operator factorialSymbol
  · subst ht
    have hother : lexicon.registry.find? (Token.operator [p]).text = some (factorialEntry [p]) :=
      h.other
    have hfactorial : lexicon.registry.find? (Token.operator factorialSymbol).text =
        some (factorialEntry factorialSymbol) := h.factorial
    rw [Token.respelled_factorial]
    simp only [yieldsTo, hother, hfactorial]
    exact outranks_factorialEntry [p] factorialSymbol later
  · rw [Token.respelled_of_ne ht]

theorem comp_yieldsTo (h : lexicon.Respells p) (later : Entry) :
    yieldsTo lexicon.registry later ∘ respelled p = yieldsTo lexicon.registry later :=
  funext (yieldsTo_respelled h later)

theorem aboveParen_respelled (stack : List Token) :
    aboveParen (stack.map (respelled p)) = (aboveParen stack).map (respelled p) := by
  simp only [aboveParen, List.takeWhile_map, Function.comp_def, Token.kind_respelled]

theorem fromParen_respelled (stack : List Token) :
    fromParen (stack.map (respelled p)) = (fromParen stack).map (respelled p) := by
  simp only [fromParen, List.dropWhile_map, Function.comp_def, Token.kind_respelled]

theorem called_respelled (stack : List Token) :
    called (stack.map (respelled p)) = (called stack).map (respelled p) := by
  cases stack with
  | nil => rfl
  | cons t stack =>
      rw [List.map_cons, called, called, Token.kind_respelled]
      split <;> rfl

theorem belowCall_respelled (stack : List Token) :
    belowCall (stack.map (respelled p)) = (belowCall stack).map (respelled p) := by
  cases stack with
  | nil => rfl
  | cons t stack =>
      rw [List.map_cons, belowCall, belowCall, Token.kind_respelled]
      split <;> rfl

/-- What a step writes out and leaves, exchanged. -/
def exchanged (p : Char) (result : List Token × List Token) : List Token × List Token :=
  (result.1.map (respelled p), result.2.map (respelled p))

theorem step_factorial (h : lexicon.Respells p) (stack : List Token) :
    step lexicon.registry (stack.map (respelled p)) (Token.operator [p]) =
      (step lexicon.registry stack (Token.operator factorialSymbol)).map (exchanged p) := by
  rw [step_after h.other rfl, step_after h.factorial rfl]
  simp [Except.map, exchanged]

/-- **A step in the other spelling.** -/
theorem step_respelled (h : lexicon.Respells p) (stack : List Token) (t : Token) :
    step lexicon.registry (stack.map (respelled p)) (respelled p t) =
      (step lexicon.registry stack t).map (exchanged p) := by
  by_cases ht : t = Token.operator factorialSymbol
  · subst ht
    rw [Token.respelled_factorial]
    exact step_factorial h stack
  have hsame : respelled p t = t := Token.respelled_of_ne ht
  rw [hsame]
  have hfrom := fromParen_respelled (p := p) stack
  cases hkind : t.kind with
  | number =>
      rw [step_of_number hkind, step_of_number hkind]
      simp [Except.map, exchanged, hsame]
  | function | leftParen =>
      have hwaits : t.kind = .function ∨ t.kind = .leftParen := by simp [hkind]
      rw [step_of_waits hwaits, step_of_waits hwaits]
      simp [Except.map, exchanged, hsame]
  | operator =>
      rw [step_of_operator hkind, step_of_operator hkind, Except.map_map]
      refine congrArg (Except.map · _) (funext fun entry => ?_)
      split
      · simp [exchanged, hsame]
      · simp [exchanged, hsame, List.takeWhile_map, List.dropWhile_map, comp_yieldsTo h]
  | rightParen =>
      cases hstack : fromParen stack with
      | nil =>
          rw [hstack] at hfrom
          rw [step_of_unmatched hkind hfrom, step_of_unmatched hkind hstack]
          rfl
      | cons paren below =>
          rw [hstack, List.map_cons] at hfrom
          rw [step_of_rightParen hkind hfrom, step_of_rightParen hkind hstack,
            aboveParen_respelled, called_respelled, belowCall_respelled, ← List.map_append]
          rfl
  | separator =>
      cases hstack : fromParen stack with
      | nil =>
          rw [hstack] at hfrom
          rw [step_of_misplaced hkind hfrom, step_of_misplaced hkind hstack]
          rfl
      | cons paren below =>
          rw [hstack, List.map_cons] at hfrom
          rw [step_of_separator hkind hfrom, step_of_separator hkind hstack, aboveParen_respelled]
          rfl
  | reference | constant | string =>
      rw [step_of_unexpected (by simp [hkind]), step_of_unexpected (by simp [hkind])]
      rfl

theorem finish_respelled (stack : List Token) :
    finish (stack.map (respelled p)) = (finish stack).map (List.map (respelled p)) := by
  rw [finish, finish, List.find?_map]
  have hkind : ((fun t : Token => t.kind == .leftParen) ∘ respelled p) =
      fun t => t.kind == .leftParen := funext fun t => by simp
  rw [hkind]
  cases hfind : stack.find? fun t => t.kind == .leftParen with
  | none => rfl
  | some t =>
      have ht : t.kind = .leftParen := by simpa using List.find?_some hfind
      have hsame : respelled p t = t := Token.respelled_of_kind (by simp [ht])
      simp [hsame, Except.map]

theorem reorderFrom_respelled (h : lexicon.Respells p) (tokens : List Token) : ∀ stack,
    reorderFrom lexicon.registry (stack.map (respelled p)) (tokens.map (respelled p)) =
      (reorderFrom lexicon.registry stack tokens).map (List.map (respelled p)) := by
  induction tokens with
  | nil => exact fun stack => finish_respelled stack
  | cons t tokens ih =>
      intro stack
      rw [List.map_cons, reorderFrom_cons, reorderFrom_cons, step_respelled h, Except.bind_map,
        Except.map_bind]
      refine congrArg _ (funext fun result => ?_)
      simp only [exchanged, ih, Except.map_map, List.map_append]

/-- **The order is the same in either spelling.** -/
theorem reorder_respelled (h : lexicon.Respells p) (tokens : List Token) :
    reorder lexicon.registry (tokens.map (respelled p)) =
      (reorder lexicon.registry tokens).map (List.map (respelled p)) :=
  reorderFrom_respelled h tokens []

end ReversePolish

namespace Machine

open Token (respelled)

variable {lexicon : Lexicon} {s : Settings}

/-- **A step of the machine** is the same in either spelling. -/
theorem step_respelled (h : lexicon.Respells p) (stack : List Value) (t : Token) :
    step lexicon.registry s stack (respelled p t) = step lexicon.registry s stack t := by
  by_cases ht : t = Token.operator factorialSymbol
  · subst ht
    have hother : lexicon.registry.lookup (Token.operator [p]).text = .ok (factorialEntry [p]) :=
      Registry.lookup_eq_ok.mpr h.other
    have hfactorial : lexicon.registry.lookup (Token.operator factorialSymbol).text =
        .ok (factorialEntry factorialSymbol) := Registry.lookup_eq_ok.mpr h.factorial
    rw [Token.respelled_factorial, step_symbol (.inl rfl), step_symbol (.inl rfl), hother,
      hfactorial]
    rfl
  · rw [Token.respelled_of_ne ht]

theorem evaluate_respelled_tokens (h : lexicon.Respells p) (tokens : List Token) :
    evaluate lexicon.registry s (tokens.map (respelled p)) =
      evaluate lexicon.registry s tokens := by
  have hsteps : List.Forall₂ (fun t t' => ∀ stack,
      step lexicon.registry s stack t = step lexicon.registry s stack t')
      (tokens.map (respelled p)) tokens :=
    List.forall₂_map_left_iff.mpr (List.forall₂_same.mpr fun t _ stack =>
      step_respelled h stack t)
  rw [evaluate, evaluate, run_congr hsteps]

end Machine

/-! ## Lines -/

namespace Calculator

open Token (respelled)

variable {c : Calculator} {valueOf : List Char → Drawing Failure Number}

theorem substituteToken_respelled (t : Token) :
    c.substituteToken valueOf (respelled p t) =
      (c.substituteToken valueOf t).map (respelled p) := by
  by_cases ht : t = Token.operator factorialSymbol
  · subst ht
    rw [substituteToken_of_not_atom (t := Token.operator factorialSymbol) rfl,
      Token.respelled_factorial]
    rfl
  · have hkept : ∀ t', (c.substituteToken valueOf t).Yields t' → respelled p t' = t' := by
      intro t' hresult
      rcases substituteToken_cases hresult with ⟨rfl, _⟩ | ⟨_, hnumber⟩
      · exact Token.respelled_of_ne ht
      · exact Token.respelled_of_kind (by simp [hnumber])
    rw [Token.respelled_of_ne ht, Drawing.map_eq_bind,
      Drawing.bind_congr fun t' ht' => congrArg Drawing.ok (hkept t' ht'), Drawing.bind_ok]

theorem substitute_respelled (tokens : List Token) :
    c.substitute valueOf (tokens.map (respelled p)) =
      (c.substitute valueOf tokens).map (List.map (respelled p)) := by
  induction tokens with
  | nil => rfl
  | cons t tokens ih =>
      rw [List.map_cons, substitute_cons, substitute_cons, substituteToken_respelled, ih,
        Drawing.bind_map, Drawing.map_bind]
      refine congrArg _ (funext fun t' => ?_)
      simp only [Drawing.map_map, List.map_cons]

/-- **Tokens that are exchanged have the same value.** -/
theorem evaluateWith_respelled (h : c.lexicon.Respells p) {line : List Char}
    {tokens : List Token} (htokens : c.tokenize line = .ok tokens)
    (hrespelled : c.tokenize (respell p line) = .ok (tokens.map (respelled p))) :
    c.evaluateWith valueOf (respell p line) = c.evaluateWith valueOf line := by
  have hblank : (respell p line).all Text.isBlank = line.all Text.isBlank :=
    Text.all_respell h.exchangeable.solitary.blank Text.solitary_factorial.blank
  -- reading, substituting and reordering each commute with the exchange
  have hpolish : c.reversePolishWith valueOf (respell p line) =
      (c.reversePolishWith valueOf line).map (List.map (respelled p)) := by
    rw [reversePolishWith, reversePolishWith, htokens, hrespelled]
    show (c.substitute valueOf (tokens.map (respelled p))).bind _ =
      ((c.substitute valueOf tokens).bind _).map _
    rw [substitute_respelled, Drawing.bind_map, Drawing.map_bind]
    refine congrArg _ (funext fun replaced => ?_)
    have hreorder : ReversePolish.reorder c.registry (replaced.map (respelled p)) =
        (ReversePolish.reorder c.registry replaced).map (List.map (respelled p)) :=
      ReversePolish.reorder_respelled h replaced
    rw [hreorder]
    cases ReversePolish.reorder c.registry replaced <;> rfl
  rw [evaluateWith, evaluateWith, hblank, hpolish]
  split
  · rfl
  · show ((c.reversePolishWith valueOf line).map _).bind _ = (c.reversePolishWith valueOf line).bind _
    rw [Drawing.bind_map]
    refine congrArg _ (funext fun polish => ?_)
    exact Machine.evaluate_respelled_tokens h polish

/-- A line that cannot be read, unless it is blank, is reported as it is. -/
theorem evaluate_of_lex_error {line : List Char} {failure : Failure}
    (hlex : Lexeme.lex c.lexicon.symbols line = .error failure)
    (hblank : line.all Text.isBlank = false) (vars : Variables) :
    c.evaluate line vars = .error failure := by
  rw [evaluate, compute, evaluateWith, hblank, reversePolishWith, tokenize, Lexicon.tokenize, hlex]
  rfl

/-- **A second factorial.** The registry holds the built-in entries, in any order, and one more
operator that does what the factorial does and is spelled with a character of its own, which does not
stand in the line. If no factorial of the line is misplaced and each is detached from what comes
next, the line may be spelled with the other operator: it has the same outcome, or it is unreadable
at the same place in both spellings. -/
theorem evaluate_respelled (c : Calculator) (p : Char) (solitary : Solitary p)
    (fresh : ∀ s ∈ Registry.builtin.symbols ++ Constant.names.map Prod.fst, p ∉ s)
    (hregistry : c.registry.entries.Perm
      (Entry.after [p] 5 Operation.factorial.action :: Builtin.entries))
    (line : List Char) (hp : p ∉ line)
    (detached : ∀ lexemes, Lexeme.lex c.lexicon.symbols line = .ok lexemes →
      Token.factorialsDetached c.lexicon false lexemes = true)
    (placed : ∀ position, c.tokenize line ≠ .error (.fault (.misplacedFactorial position)))
    (vars : Variables) :
    c.evaluate (respell p line) vars = c.evaluate line vars ∨
      ∃ rest position, c.evaluate line vars = .error (.fault (.unreadable rest position)) ∧
        c.evaluate (respell p line) vars =
          .error (.fault (.unreadable (respell p rest) position)) := by
  have h : c.lexicon.Respells p := respells_of_perm fresh hregistry solitary
  have hblank : (respell p line).all Text.isBlank = line.all Text.isBlank :=
    Text.all_respell solitary.blank Text.solitary_factorial.blank
  cases hlex : Lexeme.lex c.lexicon.symbols line with
  | ok lexemes =>
      -- the line has tokens, for nothing but a factorial can be wrong with its lexemes
      refine .inl ?_
      cases htokens : c.tokenize line with
      | ok tokens =>
          have hrespelled := Lexicon.tokenize_respelled h hp hlex (detached lexemes hlex) htokens
          rw [evaluate, evaluate, compute, compute, evaluateWith_respelled h htokens hrespelled]
      | error failure =>
          obtain ⟨position, rfl⟩ :=
            Lexicon.tokenize_misplaced h.exchangeable.exist hlex failure htokens
          exact absurd htokens (placed position)
  | error failure =>
      have hlex' := Lexeme.lex_respell h.exchangeable hp
      rw [hlex] at hlex'
      cases hline : line.all Text.isBlank with
      | true =>
          refine .inl ?_
          rw [evaluate, evaluate, compute, compute, evaluateWith, evaluateWith, hblank, hline]
          rfl
      | false =>
          obtain ⟨cut, rest, _, _, _, rfl⟩ :=
            (Lexeme.lex_eq_error_iff h.exchangeable.exist h.exchangeable.nonempty).mp hlex
          refine .inr ⟨_, _, evaluate_of_lex_error hlex hline vars, ?_⟩
          exact evaluate_of_lex_error hlex' (hblank.trans hline) vars

/-- The built-in symbols, and `?` for a second factorial. -/
def withSecondFactorial : Calculator :=
  { registry := ⟨Builtin.entries ++ [Entry.after ['?'] 5 Operation.factorial.action], false⟩ }

/-- `x!! * 2 - |(3!)|` may be spelled with `?`: a parenthesis is closed before the bar, and an
operator other than a sign comes after the two factorials of `x`. -/
theorem evaluate_respelled_twice :
    let vars : Variables := ⟨[(['x'], .number (.finite ⟨false, 3, 0⟩))]⟩
    respell '?' "x!! * 2 - |(3!)|".toList = "x?? * 2 - |(3?)|".toList ∧
      withSecondFactorial.evaluate "x?? * 2 - |(3?)|".toList vars =
        .ok ⟨.finite ⟨false, 1434, 0⟩, none⟩ := by
  intro vars
  have hrespell : respell '?' "x!! * 2 - |(3!)|".toList = "x?? * 2 - |(3?)|".toList := by decide
  have hvalue : withSecondFactorial.evaluate "x!! * 2 - |(3!)|".toList vars =
      .ok ⟨.finite ⟨false, 1434, 0⟩, none⟩ := by decide +kernel
  have hdetached : ∀ lexemes, Lexeme.lex withSecondFactorial.lexicon.symbols
      "x!! * 2 - |(3!)|".toList = .ok lexemes →
        Token.factorialsDetached withSecondFactorial.lexicon false lexemes = true := by
    have hall : (Lexeme.lex withSecondFactorial.lexicon.symbols
        "x!! * 2 - |(3!)|".toList).toOption.all
          (Token.factorialsDetached withSecondFactorial.lexicon false) = true := by decide +kernel
    intro lexemes hlex
    rw [hlex] at hall
    exact hall
  have hplaced : ∀ position, withSecondFactorial.tokenize "x!! * 2 - |(3!)|".toList ≠
      .error (.fault (.misplacedFactorial position)) := by
    have hsome : (withSecondFactorial.tokenize "x!! * 2 - |(3!)|".toList).toOption.isSome = true := by
      decide +kernel
    intro position htokens
    rw [htokens] at hsome
    cases hsome
  have hsolitary : Solitary '?' := ⟨by decide, by decide, by decide, by decide⟩
  rcases evaluate_respelled withSecondFactorial '?' hsolitary (by decide +kernel)
      List.perm_append_comm "x!! * 2 - |(3!)|".toList (by decide) hdetached hplaced vars
    with heq | ⟨rest, position, herror, _⟩
  · rw [hrespell] at heq
    exact ⟨hrespell, heq.trans hvalue⟩
  · rw [hvalue] at herror
    cases herror

/-- **A second factorial that is read differently.** After it a sign belongs to the number that
comes next, a bar opens where it would close, and no product is implied; and where a factorial is
misplaced, nothing is wrong with the line until it is run. -/
theorem evaluate_attached_factorials :
    withSecondFactorial.evaluate "5!-3".toList = .ok ⟨.finite ⟨false, 117, 0⟩, none⟩ ∧
      withSecondFactorial.evaluate "5?-3".toList = .error (.fault (.notOneResult 2)) ∧
      withSecondFactorial.evaluate "|3!|".toList = .ok ⟨.finite ⟨false, 6, 0⟩, none⟩ ∧
      withSecondFactorial.evaluate "|3?|".toList =
        .error (.fault (.mismatchedParentheses .leftParen)) ∧
      withSecondFactorial.evaluate "3!(2)".toList = .ok ⟨.finite ⟨false, 12, 0⟩, none⟩ ∧
      withSecondFactorial.evaluate "3?(2)".toList = .error (.fault (.notOneResult 2)) ∧
      withSecondFactorial.evaluate "!3".toList = .error (.fault (.misplacedFactorial 0)) ∧
      withSecondFactorial.evaluate "?3".toList = .error (.fault (.tooFewOperands 0 1)) := by
  decide +kernel

end Calculator

end DecimalCalc
