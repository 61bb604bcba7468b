import DecimalCalc.Proofs.CharacterClasses
import DecimalCalc.Proofs.MaximalMunch

/-!
# Lexemes of a line that is spelled otherwise

A factorial may be spelled with another character, if that stands in no number, no word and no other
symbol. Where the lexer cuts a line does not depend on this: what a lexeme may be is the same before
and after the exchange (`Blind`), so the lexemes of the new line are those of the old one, exchanged
(`lex_respell`).
-/

set_option autoImplicit false

namespace DecimalCalc

namespace Text

/-- Puts another character in the place of each factorial sign. -/
def respell (p : Char) (text : List Char) : List Char := text.map fun c => if c = '!' then p else c

/-- **A character that stands by itself**: no part of a number, a word, white space or a sign of
punctuation. -/
structure Solitary (c : Char) : Prop where
  letter : isLetter c = false
  digit : isDigit c = false
  blank : isBlank c = false
  other : c ∉ ['_', '.', '(', ')', ';', ',', '|']

theorem solitary_factorial : Solitary '!' :=
  ⟨by decide, by decide, by decide, by decide⟩

variable {p : Char} {text v w : List Char}

theorem respell_of_notMem (h : '!' ∉ text) : respell p text = text := by
  have hsame : ∀ c ∈ text, (if c = '!' then p else c) = c := by
    intro c hc
    rw [if_neg (ne_of_mem_of_not_mem hc h)]
  exact List.map_congr_left hsame |>.trans (List.map_id text)

theorem mem_respell (h : '!' ∈ text) : p ∈ respell p text :=
  List.mem_map.mpr ⟨'!', h, if_pos rfl⟩

theorem length_respell (text : List Char) : (respell p text).length = text.length :=
  List.length_map _

theorem prefix_respell (h : v <+: respell p text) : ∃ u, u <+: text ∧ respell p u = v := by
  obtain ⟨u, hu, heq⟩ := List.prefix_map_iff.mp h
  exact ⟨u, hu, heq.symm⟩

/-- A class of characters that both spellings are outside of. -/
theorem any_respell {P : Char → Bool} (hp : P p = false) (hfactorial : P '!' = false) (c : Char) :
    P (if c = '!' then p else c) = P c := by
  split
  · rename_i heq
    rw [hp, heq, hfactorial]
  · rfl

/-- Blanks are cut off both spellings alike. -/
theorem strip_respell (hp : Solitary p) (text : List Char) :
    strip (respell p text) = respell p (strip text) := by
  have hblank : (isBlank ∘ fun c => if c = '!' then p else c) = isBlank :=
    funext (any_respell hp.blank solitary_factorial.blank)
  simp only [strip, respell, List.dropWhile_map, ← List.map_reverse, hblank]

theorem all_respell {P : Char → Bool} (hp : P p = false) (hfactorial : P '!' = false) :
    (respell p text).all P = text.all P := by
  rw [respell, List.all_map]
  exact congrArg text.all (funext (any_respell hp hfactorial))

end Text

open Text (respell Solitary)

/-! ## Languages -/

/-- **A language that is blind for the exchange**: it neither makes a word nor unmakes one. -/
def Blind (p : Char) (L : Language Char) : Prop := ∀ v, p ∉ v → (respell p v ∈ L ↔ v ∈ L)

variable {p : Char} {L : Language Char} {text w : List Char}

/-- A language is blind for characters that none of its words holds. -/
theorem blind_of_unmentioned (hfactorial : ∀ w ∈ L, '!' ∉ w) (hp : ∀ w ∈ L, p ∉ w) :
    Blind p L := by
  intro v hv
  by_cases hmem : '!' ∈ v
  · constructor
    · exact fun hword => absurd (Text.mem_respell hmem) (hp _ hword)
    · exact fun hword => absurd hmem (hfactorial v hword)
  · rw [Text.respell_of_notMem hmem]

theorem notMem_of_starts {u : List Char} (hp : p ∉ text) (h : u <+: text) : p ∉ u :=
  fun hmem => hp (h.subset hmem)

theorem Blind.startsNone (blind : Blind p L) (hp : p ∉ text) (h : StartsNone L text) :
    StartsNone L (respell p text) := by
  intro v hv hpre
  obtain ⟨u, hu, rfl⟩ := Text.prefix_respell hpre
  exact h u ((blind u (notMem_of_starts hp hu)).mp hv) hu

theorem Blind.longest (blind : Blind p L) (hp : p ∉ text) (h : Longest L text w) :
    Longest L (respell p text) (respell p w) := by
  refine ⟨?_, h.starts.map _, ?_⟩
  · exact (blind w (notMem_of_starts hp h.starts)).mpr h.mem
  · intro v hv hpre
    obtain ⟨u, hu, rfl⟩ := Text.prefix_respell hpre
    rw [Text.length_respell, Text.length_respell]
    exact h.bound u ((blind u (notMem_of_starts hp hu)).mp hv) hu

/-! ## What a lexeme may be -/

namespace NumberLiteral

theorem notMem_grammar {c : Char} (hc : Solitary c) : ∀ w ∈ grammar, c ∉ w := by
  intro w hw hmem
  rcases mem_grammar_chars w hw c hmem with (hdigit | rfl) | rfl
  · rw [hc.digit] at hdigit
    cases hdigit
  · exact hc.other (by decide)
  · exact hc.other (by decide)

end NumberLiteral

namespace Lexeme

variable {symbols : List (List Char)} {kind : LexemeKind}

theorem notMem_run {P : Char → Bool} {c : Char} (hc : P c = false) : ∀ w ∈ Text.run P, c ∉ w := by
  intro w hw hmem
  rw [hw.2 c hmem] at hc
  cases hc

theorem notMem_one {P : Char → Bool} {c : Char} (hc : P c = false) : ∀ w ∈ Text.one P, c ∉ w := by
  rintro _ ⟨d, hd, rfl⟩ hmem
  rw [List.mem_singleton.mp hmem, hd] at hc
  cases hc

/-- A solitary character is no part of what is neither a number nor a symbol. -/
theorem notMem_plain {c : Char} (hc : Solitary c) :
    ∀ a ∈ plainAlternatives, ∀ w ∈ a.2, c ∉ w := by
  have hspace : Text.isWhiteSpace c = false := by
    by_contra hspace
    have hblank := Text.isBlank_of_isWhiteSpace (Bool.eq_true_of_not_eq_false hspace)
    rw [hc.blank] at hblank
    cases hblank
  have hother := hc.other
  simp only [List.mem_cons, List.not_mem_nil, or_false, not_or] at hother
  obtain ⟨_, _, hleft, hright, hsemicolon, hcomma, hbar⟩ := hother
  simp only [plainAlternatives, List.forall_mem_cons]
  exact ⟨notMem_run hc.letter, notMem_one (by simpa using hleft), notMem_one (by simpa using hright),
    notMem_one (by simp [hsemicolon, hcomma]), notMem_one (by simpa using hbar),
    notMem_run hspace, fun a ha => absurd ha List.not_mem_nil⟩

/-- **Symbols among which a character may stand for the factorial**: both are symbols by themselves,
and no other symbol holds one of them. -/
structure Exchangeable (p : Char) (symbols : List (List Char)) : Prop where
  solitary : Solitary p
  factorial : ['!'] ∈ symbols
  other : [p] ∈ symbols
  alone : ∀ s ∈ symbols, '!' ∈ s ∨ p ∈ s → s = ['!'] ∨ s = [p]
  nonempty : [] ∉ symbols

theorem Exchangeable.exist (h : Exchangeable p symbols) : symbols ≠ [] :=
  List.ne_nil_of_mem h.factorial

theorem Exchangeable.blind_listed (h : Exchangeable p symbols) : Blind p (listed symbols) := by
  intro v hv
  by_cases hmem : '!' ∈ v
  · constructor
    · -- only the factorial becomes the other symbol
      intro hword
      have hlength : (respell p v).length = 1 := by
        rcases h.alone _ hword (.inr (Text.mem_respell hmem)) with heq | heq <;> rw [heq] <;> rfl
      obtain ⟨c, rfl⟩ := List.length_eq_one_iff.mp ((Text.length_respell v).symm.trans hlength)
      obtain rfl := List.mem_singleton.mp hmem
      exact h.factorial
    · intro hword
      rcases h.alone v hword (.inl hmem) with rfl | rfl
      · exact h.other
      · exact absurd List.mem_cons_self hv
  · rw [Text.respell_of_notMem hmem]

theorem Exchangeable.blind (h : Exchangeable p symbols) :
    ∀ a ∈ alternatives symbols, Blind p a.2 := by
  rw [alternatives, List.forall_mem_cons, List.forall_mem_cons]
  refine ⟨?_, h.blind_listed, fun a ha => ?_⟩
  · exact blind_of_unmentioned (NumberLiteral.notMem_grammar Text.solitary_factorial)
      (NumberLiteral.notMem_grammar h.solitary)
  · exact blind_of_unmentioned (notMem_plain Text.solitary_factorial a ha)
      (notMem_plain h.solitary a ha)

/-! ## Cutting -/

theorem Reads.respell {others : List (LexemeKind × Language Char)} (hp : p ∉ text)
    (h : Reads others text kind w) (blind : ∀ a ∈ others, Blind p a.2) :
    Reads others (Text.respell p text) kind (Text.respell p w) := by
  induction h with
  | first longest => exact .first ((blind _ List.mem_cons_self).longest hp longest)
  | next none _ ih =>
      have hfirst := (blind _ List.mem_cons_self).startsNone hp none
      exact .next hfirst (ih hp fun a ha => blind a (List.mem_cons_of_mem _ ha))

/-- **The lexeme at the start of a text** is as long in either spelling. -/
theorem at?_respell (h : Exchangeable p symbols) (hp : p ∉ text) :
    at? symbols (respell p text) = at? symbols text := by
  have hchooses := at?_chooses h.exist h.nonempty text
  cases hat : at? symbols text with
  | some choice =>
      rw [hat] at hchooses
      obtain ⟨w, read, _, hlength⟩ := hchooses
      rw [at?_of_reads h.exist h.nonempty (read.respell hp h.blind), Text.length_respell, hlength]
  | none =>
      rw [hat] at hchooses
      have hunread : Unread (alternatives symbols) (respell p text) :=
        fun a ha => (h.blind a ha).startsNone hp (hchooses a ha)
      have hchooses' := at?_chooses h.exist h.nonempty (respell p text)
      cases hat' : at? symbols (respell p text) with
      | none => rfl
      | some choice =>
          rw [hat'] at hchooses'
          obtain ⟨w, read, _⟩ := hchooses'
          exact absurd hunread read.not_unread

/-- A lexeme in the other spelling. -/
def respelled (p : Char) (l : Lexeme) : Lexeme := { l with text := respell p l.text }

/-- What cannot be read, in the other spelling. -/
def respelledFailure (p : Char) : Failure → Failure
  | .fault (.unreadable rest position) => .fault (.unreadable (respell p rest) position)
  | failure => failure

theorem lexFrom_respell (h : Exchangeable p symbols) (text : List Char) (hp : p ∉ text) :
    ∀ position skip, lexFrom symbols position skip (respell p text) =
      ((lexFrom symbols position skip text).map (List.map (respelled p))).mapError
        (respelledFailure p) := by
  induction text with
  | nil => exact fun position skip => by cases skip <;> rfl
  | cons c rest ih =>
      intro position skip
      have hrest := ih fun hmem => hp (List.mem_cons_of_mem c hmem)
      cases skip with
      | succ skip => exact hrest (position + 1) skip
      | zero =>
          have hat : at? symbols (respell p (c :: rest)) = at? symbols (c :: rest) :=
            at?_respell h hp
          have hcons : respell p (c :: rest) =
              (if c = '!' then p else c) :: respell p rest := rfl
          have hstrip := Text.strip_respell h.solitary (c :: rest)
          rw [hcons] at hat hstrip ⊢
          rw [lexFrom, lexFrom, hat]
          cases hread : at? symbols (c :: rest) with
          | none =>
              simp only [hstrip]
              rfl
          | some choice =>
              obtain ⟨kind, n⟩ := choice
              cases n with
              | zero => rfl
              | succ more =>
                  -- what comes behind the first character is cut alike
                  show (lexFrom symbols (position + 1) more (respell p rest)).bind _ =
                    (((lexFrom symbols (position + 1) more rest).bind _).map _).mapError _
                  rw [hrest (position + 1) more]
                  cases lexFrom symbols (position + 1) more rest with
                  | error failure => rfl
                  | ok others =>
                      have htake : (respell p (c :: rest)).take (more + 1) =
                          respell p ((c :: rest).take (more + 1)) := List.map_take.symm
                      show Except.ok (Lexeme.mk kind _ position :: _) = _
                      rw [← hcons, htake]
                      rfl

/-- **The lexemes of a line in the other spelling** are those of the line, exchanged, and the line
is unreadable in both or in neither. -/
theorem lex_respell (h : Exchangeable p symbols) {line : List Char} (hp : p ∉ line) :
    lex symbols (respell p line) =
      ((lex symbols line).map (List.map (respelled p))).mapError (respelledFailure p) :=
  lexFrom_respell h line hp 0 0

/-- Only the factorial holds its sign. -/
theorem eq_factorial_of_mem (h : Exchangeable p symbols) {line : List Char} (hp : p ∉ line)
    {lexemes : List Lexeme} (hlex : lex symbols line = .ok lexemes) {l : Lexeme} (hl : l ∈ lexemes)
    (hmem : '!' ∈ l.text) : l.kind = .symbol ∧ l.text = ['!'] := by
  have hcuts := (lex_eq_ok_iff h.exist h.nonempty).mp hlex
  obtain ⟨before, after, rfl⟩ := List.append_of_mem hl
  obtain ⟨L, hL, hword⟩ := (hcuts.read before l after rfl).exists_mem
  rw [alternatives, List.mem_cons, List.mem_cons] at hL
  rcases hL with hL | hL | hL
  · obtain ⟨_, rfl⟩ := Prod.mk.inj hL
    exact absurd hmem (NumberLiteral.notMem_grammar Text.solitary_factorial _ hword)
  · obtain ⟨hkind, rfl⟩ := Prod.mk.inj hL
    refine ⟨hkind, (h.alone _ hword (.inl hmem)).resolve_right fun heq => hp ?_⟩
    -- the other symbol does not stand in the line
    rw [← hcuts.joined]
    simp [heq]
  · exact absurd hmem (notMem_plain Text.solitary_factorial _ hL _ hword)

end Lexeme

end DecimalCalc
