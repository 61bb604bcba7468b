import DecimalCalc.Expression.TokenList
import DecimalCalc.Proofs.Outcome
import Mathlib.Data.List.Basic
import Mathlib.Data.List.TakeWhile

/-!
# Where lexemes end

What a lexeme is depends on all the text that follows, as the longest is taken. `piecesBefore?` cuts
the part of a text before a place where one lexeme ends and the next begins. The lexemes of that
part stay the same when what follows is exchanged for another text that cannot prolong the last of
them (`piecesBefore?_congr`). Positions, which only faults mention, are left out of the pieces.
-/

set_option autoImplicit false

namespace DecimalCalc

/-! ## Number literals -/

namespace NumberLiteral

/-- A character that cannot go on a number. -/
def Stops (c : Char) : Prop := Text.isDigit c = false ∧ c ≠ '_' ∧ c ≠ '.'

instance (c : Char) : Decidable (Stops c) := inferInstanceAs (Decidable (_ ∧ _))

/-- A text that cannot go on a number. -/
def StopsAt (text : List Char) : Prop := ∀ c ∈ text.head?, Stops c

theorem StopsAt.not_digit {c : Char} {text : List Char} (h : StopsAt (c :: text)) :
    Text.isDigit c = false := (h c rfl).1

theorem integralRest_cons {c : Char} (hc : c ≠ '_') (rest : List Char) :
    integralRest (c :: rest) = if Text.isDigit c then 1 + integralRest rest else 0 := by
  rw [integralRest]
  intro a b d rest h
  exact absurd h hc

/-- An underscore without a group of three digits is no part of a number. -/
theorem integralRest_underscore {text : List Char}
    (h : ∀ a b c rest, text = a :: b :: c :: rest →
      (Text.isDigit a && Text.isDigit b && Text.isDigit c) = false) :
    integralRest ('_' :: text) = 0 := by
  have hdigit : Text.isDigit '_' = false := by decide
  match text with
  | [] => simp [integralRest, hdigit]
  | [_] => simp [integralRest, hdigit]
  | [_, _] => simp [integralRest, hdigit]
  | a :: b :: c :: rest => simp [integralRest, h a b c rest rfl]

theorem integralRest_append {x : List Char} (hx : StopsAt x) (w : List Char) :
    integralRest (w ++ x) = integralRest w := by
  fun_induction integralRest w with
  | case1 a b c rest hdigits ih => simp [integralRest, hdigits, ih]
  | case2 a b c rest hdigits => simp [integralRest, hdigits]
  | case3 c rest hgroup hdigit ih =>
      have hc : c ≠ '_' := by
        rintro rfl
        exact absurd hdigit (by decide)
      rw [List.cons_append, integralRest_cons hc, if_pos hdigit, ih]
  | case4 c rest hgroup hdigit =>
      by_cases hc : c = '_'
      · -- an underscore that no group of digits follows ends the number
        subst hc
        refine integralRest_underscore fun a b d rest' h => ?_
        -- one of the three would stand in the text that stops a number
        match rest with
        | [] =>
            obtain rfl : x = a :: b :: d :: rest' := h
            simp [hx.not_digit]
        | [_] =>
            obtain ⟨rfl, rfl⟩ := List.cons.inj h
            simp [hx.not_digit]
        | [_, _] =>
            obtain ⟨rfl, rfl, rfl⟩ : _ = a ∧ _ = b ∧ x = d :: rest' := by simpa using h
            simp [hx.not_digit]
        | _ :: _ :: _ :: _ => exact (hgroup _ _ _ _ rfl rfl).elim
      · rw [List.cons_append, integralRest_cons hc, if_neg hdigit]
  | case5 =>
      cases x with
      | nil => rfl
      | cons c x =>
          obtain ⟨hdigit, hc, _⟩ := hx c rfl
          rw [List.nil_append, integralRest_cons hc, hdigit]
          rfl

theorem fractionRest_cons {c : Char} (hc : c ≠ '_') (rest : List Char) :
    fractionRest (c :: rest) = if Text.isDigit c then 1 + fractionRest rest else 0 := by
  rw [fractionRest]
  intro d rest h
  exact absurd h hc

theorem fractionRest_append {x : List Char} (hx : StopsAt x) (w : List Char) :
    fractionRest (w ++ x) = fractionRest w := by
  fun_induction fractionRest w with
  | case1 c rest hdigit ih => simp [fractionRest, hdigit, ih]
  | case2 c rest hdigit => simp [fractionRest, hdigit]
  | case3 c rest hgroup hdigit ih =>
      have hc : c ≠ '_' := by
        rintro rfl
        exact absurd hdigit (by decide)
      rw [List.cons_append, fractionRest_cons hc, if_pos hdigit, ih]
  | case4 c rest hgroup hdigit =>
      by_cases hc : c = '_'
      · -- the digit after the underscore would stand in the text that stops a number
        subst hc
        match rest, x with
        | [], [] => simp [fractionRest, hdigit]
        | [], d :: x => simp [fractionRest, hx.not_digit]
        | _ :: _, _ => exact (hgroup _ _ rfl rfl).elim
      · rw [List.cons_append, fractionRest_cons hc, if_neg hdigit]
  | case5 =>
      cases x with
      | nil => rfl
      | cons c x =>
          obtain ⟨hdigit, hc, _⟩ := hx c rfl
          rw [List.nil_append, fractionRest_cons hc, hdigit]
          rfl

theorem fractionLength_append {x : List Char} (hx : StopsAt x) (w : List Char) :
    fractionLength (w ++ x) = fractionLength w := by
  cases w with
  | nil =>
      cases x with
      | nil => rfl
      | cons c x => simp [fractionLength, hx.not_digit]
  | cons c w => simp only [List.cons_append, fractionLength, fractionRest_append hx]

theorem pointLength_append {x : List Char} (hx : StopsAt x) (w : List Char) :
    pointLength (w ++ x) = pointLength w := by
  have hpoint : ∀ {c : Char} {rest : List Char}, c ≠ '.' → pointLength (c :: rest) = 0 := by
    intro c rest hc
    rw [pointLength]
    intro rest h
    exact hc (List.cons.inj h).1
  cases w with
  | nil =>
      cases x with
      | nil => rfl
      | cons c x => exact hpoint (hx c rfl).2.2
  | cons c w =>
      by_cases hc : c = '.'
      · subst hc
        simp only [List.cons_append, pointLength, fractionLength_append hx]
      · rw [List.cons_append, hpoint hc, hpoint hc]

theorem integralRest_le (w : List Char) : integralRest w ≤ w.length := by
  fun_induction integralRest w with
  | case1 a b c rest hdigits ih =>
      simp only [List.length_cons]
      omega
  | case3 c rest hgroup hdigit ih =>
      rw [List.length_cons]
      omega
  | _ => omega

theorem fractionRest_le (w : List Char) : fractionRest w ≤ w.length := by
  fun_induction fractionRest w with
  | case1 c rest hdigit ih =>
      simp only [List.length_cons]
      omega
  | case3 c rest hgroup hdigit ih =>
      rw [List.length_cons]
      omega
  | _ => omega

theorem fractionLength_le (w : List Char) : fractionLength w ≤ w.length := by
  cases w with
  | nil => exact Nat.le_refl 0
  | cons c w =>
      have hrest := fractionRest_le w
      rw [fractionLength, List.length_cons]
      split <;> omega

theorem pointLength_le (w : List Char) : pointLength w ≤ w.length := by
  rw [pointLength.eq_def]
  split
  · rename_i rest
    have hrest := fractionLength_le rest
    rw [List.length_cons]
    omega
  · exact Nat.zero_le _

theorem length_cons {c : Char} (hc : c ≠ '.') (rest : List Char) :
    length (c :: rest) = if Text.isDigit c then 1 + integralRest rest +
      pointLength ((c :: rest).drop (1 + integralRest rest)) else 0 := by
  rw [length]
  intro h
  exact absurd h hc

/-- **A number ends where a text begins that cannot go it on.** -/
theorem length_append {x : List Char} (hx : StopsAt x) (w : List Char) :
    length (w ++ x) = length w := by
  cases w with
  | nil =>
      cases x with
      | nil => rfl
      | cons c x =>
          obtain ⟨hdigit, _, hc⟩ := hx c rfl
          rw [List.nil_append, length_cons hc, hdigit]
          rfl
  | cons c w =>
      by_cases hc : c = '.'
      · subst hc
        simp only [List.cons_append, length, fractionLength_append hx]
      · have hle : 1 + integralRest w ≤ (c :: w).length := by
          have h := integralRest_le w
          rw [List.length_cons]
          omega
        rw [List.cons_append, length_cons hc, length_cons hc, integralRest_append hx,
          ← List.cons_append, List.drop_append_of_le_length hle, pointLength_append hx]

theorem length_le (w : List Char) : length w ≤ w.length := by
  cases w with
  | nil => exact Nat.le_refl 0
  | cons c w =>
      by_cases hc : c = '.'
      · subst hc
        have hrest := fractionLength_le w
        rw [length, List.length_cons]
        split <;> omega
      · have hintegral := integralRest_le w
        have hpoint := pointLength_le ((c :: w).drop (1 + integralRest w))
        rw [List.length_drop, List.length_cons] at hpoint
        rw [length_cons hc, List.length_cons]
        split <;> omega

end NumberLiteral

namespace Lexeme

variable {symbols : List (List Char)}

/-! ## The longest symbol -/

/-- **The longest of some symbols** that a text starts with, if there is one. -/
def IsLongest (symbols : List (List Char)) (text : List Char) : Option (List Char) → Prop
  | none => ∀ t ∈ symbols, ¬t <+: text
  | some s => s ∈ symbols ∧ s <+: text ∧ ∀ t ∈ symbols, t <+: text → t.length ≤ s.length

variable {text : List Char} {best : Option (List Char)}

/-- The longest of some symbols, or one more that is even longer. -/
theorem IsLongest.longer (h : IsLongest symbols text best) {symbol : List Char}
    (hstarts : symbol <+: text) : IsLongest (symbols ++ [symbol]) text (longer best symbol) := by
  cases best with
  | none =>
      refine ⟨by simp [Lexeme.longer], hstarts, List.forall_mem_append.mpr ⟨?_, ?_⟩⟩
      · exact fun t ht hpre => absurd hpre (h t ht)
      · exact List.forall_mem_singleton.mpr fun _ => Nat.le_refl _
  | some b =>
      obtain ⟨hmem, hpre, hall⟩ := h
      rw [Lexeme.longer]
      split
      · refine ⟨by simp, hstarts, List.forall_mem_append.mpr ⟨fun t ht hpre => ?_, by simp⟩⟩
        exact (hall t ht hpre).trans (by omega)
      · refine ⟨List.mem_append_left _ hmem, hpre, List.forall_mem_append.mpr ⟨hall, ?_⟩⟩
        exact List.forall_mem_singleton.mpr fun _ => by omega

/-- A symbol that the text does not start with changes nothing. -/
theorem IsLongest.skip (h : IsLongest symbols text best) {symbol : List Char}
    (hstarts : ¬symbol <+: text) : IsLongest (symbols ++ [symbol]) text best := by
  cases best with
  | none => exact List.forall_mem_append.mpr ⟨h, by simpa using hstarts⟩
  | some b =>
      obtain ⟨hmem, hpre, hall⟩ := h
      refine ⟨List.mem_append_left _ hmem, hpre, ?_⟩
      exact List.forall_mem_append.mpr ⟨hall, by simp [hstarts]⟩

/-- **The symbol that is read** is the longest one. -/
theorem longestSymbol?_isLongest (symbols : List (List Char)) (text : List Char) :
    IsLongest symbols text (longestSymbol? symbols text) := by
  -- the symbols seen so far are those to the left, by induction on the others
  have hfold : ∀ {seen : List (List Char)} {best : Option (List Char)}, IsLongest seen text best →
      IsLongest (seen ++ symbols) text (symbols.foldl (fun best symbol =>
        if symbol.isPrefixOf text then some (longer best symbol) else best) best) := by
    induction symbols with
    | nil =>
        intro seen best h
        rwa [List.append_nil]
    | cons symbol symbols ih =>
        intro seen best h
        rw [List.foldl_cons, List.append_cons]
        refine ih ?_
        split
        · rename_i hstarts
          exact h.longer (List.isPrefixOf_iff_prefix.mp hstarts)
        · rename_i hstarts
          exact h.skip fun hpre => hstarts (List.isPrefixOf_iff_prefix.mpr hpre)
  have hnone : IsLongest [] text none := nofun
  exact hfold hnone

theorem longestSymbol?_eq_none_iff :
    longestSymbol? symbols text = none ↔ ∀ t ∈ symbols, ¬t <+: text := by
  have hlongest := longestSymbol?_isLongest symbols text
  cases h : longestSymbol? symbols text with
  | none =>
      rw [h] at hlongest
      exact iff_of_true rfl hlongest
  | some s =>
      rw [h] at hlongest
      obtain ⟨hs, hpre, -⟩ := hlongest
      exact ⟨nofun, fun h => absurd hpre (h s hs)⟩

/-- **The symbol that is read is the longest of those that the text starts with.** -/
theorem longestSymbol?_eq_some_iff {s : List Char} :
    longestSymbol? symbols text = some s ↔
      s ∈ symbols ∧ s <+: text ∧ ∀ t ∈ symbols, t <+: text → t.length ≤ s.length := by
  have hlongest := longestSymbol?_isLongest symbols text
  cases h : longestSymbol? symbols text with
  | none =>
      rw [h] at hlongest
      exact ⟨nofun, fun ⟨hs, hpre, _⟩ => absurd hpre (hlongest s hs)⟩
  | some u =>
      rw [h] at hlongest
      obtain ⟨hu, hpre, hall⟩ := hlongest
      constructor
      · intro heq
        obtain rfl := Option.some.inj heq
        exact ⟨hu, hpre, hall⟩
      · rintro ⟨hs, hpre', hall'⟩
        have hlength : u.length = s.length := Nat.le_antisymm (hall' u hu hpre) (hall s hs hpre')
        rw [List.IsPrefix.eq_of_length (List.prefix_of_prefix_length_le hpre hpre' hlength.le)
          hlength]

/-! ## Texts that begin a lexeme of their own -/

/-- A text that goes on neither a number nor white space, and goes on a symbol only where the part
of the symbol before it is a word that no symbol begins. -/
structure Opens (symbols : List (List Char)) (x : List Char) : Prop where
  number : NumberLiteral.StopsAt x
  space : ∀ c ∈ x.head?, Text.isWhiteSpace c = false
  symbol : ∀ c ∈ x.head?, ∀ w v, w ++ c :: v ∈ symbols → w ≠ [] →
    Text.isLetter c = true ∧ (∀ d ∈ w, Text.isLetter d = true) ∧ ∀ t ∈ symbols, ¬t <+: w

theorem opens_nil : Opens symbols [] :=
  ⟨nofun, nofun, nofun⟩

theorem takeWhile_append_congr {P : Char → Bool} {x y : List Char} (w : List Char)
    (hlength : ((w ++ x).takeWhile P).length ≤ w.length)
    (h : ((w ++ x).takeWhile P).length = w.length → y.head?.any P = true → x.head?.any P = true) :
    (w ++ y).takeWhile P = (w ++ x).takeWhile P := by
  induction w with
  | nil =>
      have hx : x.takeWhile P = [] := List.eq_nil_of_length_eq_zero (Nat.le_zero.mp hlength)
      have hnone : ∀ {z : List Char}, z.takeWhile P = [] ↔ z.head?.any P = false := by
        intro z
        cases z with
        | nil => simp
        | cons c z => by_cases hc : P c = true <;> simp [hc]
      -- a run that ends with the first text does not go on in the other one
      have hy : y.takeWhile P = [] := by
        rw [hnone] at hx ⊢
        by_contra hne
        have hreach : (([] ++ x).takeWhile P).length = ([] : List Char).length :=
          Nat.le_zero.mp hlength
        exact absurd (h hreach (by simpa using hne)) (by simp [hx])
      rw [List.nil_append, List.nil_append, hx, hy]
  | cons c w ih =>
      by_cases hc : P c = true
      · simp only [List.cons_append, List.takeWhile_cons_of_pos hc, List.length_cons] at hlength h ⊢
        rw [ih (by omega) fun hreach => h (by omega)]
      · simp only [List.cons_append, List.takeWhile_cons_of_neg hc]

/-- The kind of a word is settled by the letters at the start of a text. -/
theorem plainAt?_word {c : Char} (hc : Text.isLetter c = true) (rest : List Char) :
    plainAt? (c :: rest) = some (.word, 1 + (rest.takeWhile Text.isLetter).length) := by
  simp [plainAt?, hc]

/-- What a text starts with, if it is neither a number nor a symbol, ends where two texts begin that
cannot go it on. -/
theorem plainAt?_congr {x y w : List Char} (hy : Opens symbols y) (hw : w ≠ [])
    {kind : LexemeKind} {n : Nat} (h : plainAt? (w ++ x) = some (kind, n)) (hn : n ≤ w.length)
    (hletter : kind = .word → n = w.length →
      y.head?.any Text.isLetter = true → x.head?.any Text.isLetter = true) :
    plainAt? (w ++ y) = some (kind, n) := by
  cases w with
  | nil => exact absurd rfl hw
  | cons c w =>
      rw [List.length_cons] at hn
      rw [List.cons_append, plainAt?] at h ⊢
      by_cases hword : Text.isLetter c = true
      · rw [if_pos hword] at h ⊢
        obtain ⟨rfl, rfl⟩ := Prod.mk.inj (Option.some.inj h)
        rw [takeWhile_append_congr w (by omega) fun hreach =>
          hletter rfl (by rw [List.length_cons]; omega)]
      · rw [if_neg hword] at h ⊢
        split_ifs at h ⊢ with hleft hright hseparator hbar hspace
        · exact h
        · exact h
        · exact h
        · exact h
        · obtain ⟨rfl, rfl⟩ := Prod.mk.inj (Option.some.inj h)
          -- white space would go on, but none opens the other text
          have hnone : y.head?.any Text.isWhiteSpace = true →
              x.head?.any Text.isWhiteSpace = true := by
            intro hany
            cases hhead : y.head? with
            | none => simp [hhead] at hany
            | some d => simp [hhead, hy.space d hhead] at hany
          rw [takeWhile_append_congr w (by omega) fun _ => hnone]

/-- A symbol that reaches into a text follows letters that no symbol begins. -/
theorem Opens.across {y w t : List Char} (hy : Opens symbols y) (hw : w ≠ []) (ht : t ∈ symbols)
    (hpre : t <+: w ++ y) (hlong : ¬t <+: w) :
    y.head?.any Text.isLetter = true ∧ (∀ d ∈ w, Text.isLetter d = true) ∧
      ∀ u ∈ symbols, ¬u <+: w := by
  have hword : w <+: t :=
    (List.prefix_or_prefix_of_prefix hpre (List.prefix_append w y)).resolve_left hlong
  obtain ⟨v, rfl⟩ := hword
  have hv : v <+: y := (List.prefix_append_right_inj w).mp hpre
  cases v with
  | nil => exact absurd (by simp) hlong
  | cons c v =>
      obtain ⟨rest, rfl⟩ := hv
      obtain ⟨hc, hletters, hnone⟩ := hy.symbol c rfl w v ht hw
      exact ⟨by simpa using hc, hletters, hnone⟩

theorem longestSymbol?_congr {x y w : List Char} (hy : Opens symbols y) (hw : w ≠ [])
    {s : List Char} (h : longestSymbol? symbols (w ++ x) = some s) (hs : s.length ≤ w.length) :
    longestSymbol? symbols (w ++ y) = some s := by
  obtain ⟨hmem, hpre, hall⟩ := longestSymbol?_eq_some_iff.mp h
  have hsw : s <+: w := List.prefix_of_prefix_length_le hpre (List.prefix_append w x) hs
  refine longestSymbol?_eq_some_iff.mpr ⟨hmem, hsw.trans (List.prefix_append w y), ?_⟩
  intro t ht htpre
  by_cases htw : t <+: w
  · exact hall t ht (htw.trans (List.prefix_append w x))
  · -- a symbol that reached into `y` would follow letters that no symbol begins, but `s` does
    exact absurd hsw ((hy.across hw ht htpre htw).2.2 s hmem)

theorem longestSymbol?_congr_none {x y w : List Char} (hy : Opens symbols y) (hw : w ≠ [])
    (h : longestSymbol? symbols (w ++ x) = none) {kind : LexemeKind} {n : Nat}
    (hplain : plainAt? (w ++ x) = some (kind, n)) (hn : n ≤ w.length)
    (hletter : kind = .word → n = w.length →
      y.head?.any Text.isLetter = true → x.head?.any Text.isLetter = true) :
    longestSymbol? symbols (w ++ y) = none := by
  refine longestSymbol?_eq_none_iff.mpr fun t ht htpre => ?_
  by_cases htw : t <+: w
  · exact longestSymbol?_eq_none_iff.mp h t ht (htw.trans (List.prefix_append w x))
  · -- then `w` is the start of a word that goes on in `x`
    obtain ⟨hany, hletters, _⟩ := hy.across hw ht htpre htw
    cases w with
    | nil => exact hw rfl
    | cons c w =>
        rw [List.cons_append, plainAt?_word (hletters c List.mem_cons_self),
          List.takeWhile_append_of_pos fun e he => hletters e (List.mem_cons_of_mem c he)] at hplain
        obtain ⟨rfl, rfl⟩ := Prod.mk.inj (Option.some.inj hplain)
        rw [List.length_append, List.length_cons] at hn
        have hx := hletter rfl (by rw [List.length_append, List.length_cons]; omega) hany
        cases x with
        | nil => simp at hx
        | cons d x =>
            have hd : Text.isLetter d = true := by simpa using hx
            rw [List.takeWhile_cons_of_pos hd, List.length_cons] at hn
            omega

/-- **A lexeme stays what it is** when the text after it is exchanged for another one that cannot go
it on either. -/
theorem at?_congr {x y w : List Char} (hsymbols : symbols ≠ []) (hx : Opens symbols x)
    (hy : Opens symbols y) (hw : w ≠ []) {kind : LexemeKind} {n : Nat}
    (h : at? symbols (w ++ x) = some (kind, n)) (hn : n ≤ w.length)
    (hletter : kind = .word → n = w.length →
      y.head?.any Text.isLetter = true → x.head?.any Text.isLetter = true) :
    at? symbols (w ++ y) = some (kind, n) := by
  have hempty : symbols.isEmpty = false := by simpa using hsymbols
  rw [at?, NumberLiteral.length_append hx.number, symbolAt?, hempty] at h
  rw [at?, NumberLiteral.length_append hy.number, symbolAt?, hempty]
  -- numbers go before symbols, and symbols before all else
  split at h
  · rename_i hnumber
    rw [if_pos hnumber]
    exact h
  · rename_i hnumber
    rw [if_neg hnumber]
    cases hlongest : longestSymbol? symbols (w ++ x) with
    | some s =>
        rw [hlongest] at h
        obtain ⟨rfl, rfl⟩ := Prod.mk.inj (Option.some.inj h)
        rw [longestSymbol?_congr hy hw hlongest hn]
        rfl
    | none =>
        rw [hlongest] at h
        rw [longestSymbol?_congr_none hy hw hlongest h hn hletter]
        exact plainAt?_congr hy hw h hn hletter

/-! ## Pieces -/

/-- A lexeme wherever it stands. -/
def unplaced (l : Lexeme) : Lexeme := { l with position := 0 }

/-- The lexemes of what is left of a line, wherever it stands, when `skip` more characters belong to
the lexeme before. -/
def pieces? (symbols : List (List Char)) : Nat → List Char → Option (List Lexeme)
  | _, [] => some []
  | skip + 1, _ :: rest => pieces? symbols skip rest
  | 0, c :: rest =>
    match at? symbols (c :: rest) with
    | some (kind, more + 1) =>
      (pieces? symbols more rest).map (⟨kind, (c :: rest).take (more + 1), 0⟩ :: ·)
    | _ => none

theorem lexFrom_pieces (text : List Char) : ∀ position skip,
    (lexFrom symbols position skip text).toOption.map (·.map unplaced) =
      pieces? symbols skip text := by
  induction text with
  | nil => exact fun position skip => by cases skip <;> rfl
  | cons c rest ih =>
      intro position skip
      cases skip with
      | succ skip =>
          rw [lexFrom, pieces?]
          exact ih (position + 1) skip
      | zero =>
          rw [lexFrom, pieces?]
          match at? symbols (c :: rest) with
          | none => rfl
          | some (_, 0) => rfl
          | some (kind, more + 1) =>
              show _ = (pieces? symbols more rest).map _
              rw [← ih (position + 1) more]
              cases hrest : lexFrom symbols (position + 1) more rest <;>
                simp [hrest, bind, Except.bind, pure, Except.pure, Except.toOption, unplaced]

theorem lex_pieces (line : List Char) :
    (lex symbols line).toOption.map (·.map unplaced) = pieces? symbols 0 line :=
  lexFrom_pieces line 0 0

/-- A line goes on after a lexeme. -/
theorem pieces?_skip (w x : List Char) :
    pieces? symbols w.length (w ++ x) = pieces? symbols 0 x := by
  induction w with
  | nil => rfl
  | cons c w ih => exact ih

/-! ## The pieces before a place -/

/-- The lexemes of a text that `x` follows, if one of them ends where `x` begins. -/
def piecesBefore? (symbols : List (List Char)) (x : List Char) :
    Nat → List Char → Option (List Lexeme)
  | 0, [] => some []
  | _ + 1, [] => none
  | skip + 1, _ :: w => piecesBefore? symbols x skip w
  | 0, c :: w =>
    match at? symbols (c :: (w ++ x)) with
    | some (kind, more + 1) =>
      (piecesBefore? symbols x more w).map (⟨kind, (c :: w).take (more + 1), 0⟩ :: ·)
    | _ => none

theorem piecesBefore?_cons {x w : List Char} {c : Char} {pieces : List Lexeme}
    (h : piecesBefore? symbols x 0 (c :: w) = some pieces) :
    ∃ kind more rest, at? symbols (c :: (w ++ x)) = some (kind, more + 1) ∧
      piecesBefore? symbols x more w = some rest ∧
      pieces = ⟨kind, (c :: w).take (more + 1), 0⟩ :: rest := by
  rw [piecesBefore?] at h
  split at h
  · rename_i kind more hat
    obtain ⟨rest, hrest, rfl⟩ := Option.map_eq_some_iff.mp h
    exact ⟨kind, more, rest, hat, hrest, rfl⟩
  · cases h

theorem le_of_piecesBefore? {x : List Char} (w : List Char) : ∀ {skip : Nat} {pieces : List Lexeme},
    piecesBefore? symbols x skip w = some pieces → skip ≤ w.length := by
  induction w with
  | nil =>
      intro skip pieces h
      cases skip with
      | zero => exact Nat.le_refl 0
      | succ skip => cases h
  | cons c w ih =>
      intro skip pieces h
      cases skip with
      | zero => exact Nat.zero_le _
      | succ skip => exact Nat.succ_le_succ (ih h)

/-- **The pieces of a text are those before a place and those after it.** -/
theorem pieces?_append {x : List Char} (w : List Char) : ∀ {skip : Nat} {pieces : List Lexeme},
    piecesBefore? symbols x skip w = some pieces →
      pieces? symbols skip (w ++ x) = (pieces? symbols 0 x).map (pieces ++ ·) := by
  induction w with
  | nil =>
      intro skip pieces h
      cases skip with
      | zero =>
          obtain rfl := Option.some.inj h
          simp
      | succ skip => cases h
  | cons c w ih =>
      intro skip pieces h
      cases skip with
      | succ skip => exact ih h
      | zero =>
          obtain ⟨kind, more, rest, hat, hrest, rfl⟩ := piecesBefore?_cons h
          have hmore : more + 1 ≤ (c :: w).length := Nat.succ_le_succ (le_of_piecesBefore? w hrest)
          have htake : (c :: (w ++ x)).take (more + 1) = (c :: w).take (more + 1) := by
            rw [← List.cons_append, List.take_append_of_le_length hmore]
          rw [List.cons_append, pieces?, hat]
          show (pieces? symbols more (w ++ x)).map _ = _
          rw [ih hrest, htake, Option.map_map]
          rfl

/-- There are no pieces where all is skipped. -/
theorem piecesBefore?_length (x w : List Char) :
    piecesBefore? symbols x w.length w = some [] := by
  induction w with
  | nil => rfl
  | cons c w ih => exact ih

/-- **Pieces stay the same** when the text after them is exchanged for another one that cannot go
them on. If the last of them is a word, no letter may follow unless one did. -/
theorem piecesBefore?_congr {x y : List Char} (hsymbols : symbols ≠ []) (hx : Opens symbols x)
    (hy : Opens symbols y) (w : List Char) : ∀ {skip : Nat} {pieces : List Lexeme},
      piecesBefore? symbols x skip w = some pieces →
        (∀ l ∈ pieces.getLast?, l.kind = .word →
          y.head?.any Text.isLetter = true → x.head?.any Text.isLetter = true) →
        piecesBefore? symbols y skip w = some pieces := by
  induction w with
  | nil =>
      intro skip pieces h _
      cases skip with
      | zero => exact h
      | succ skip => cases h
  | cons c w ih =>
      intro skip pieces h hletter
      cases skip with
      | succ skip => exact ih h hletter
      | zero =>
          obtain ⟨kind, more, rest, hat, hrest, rfl⟩ := piecesBefore?_cons h
          have hmore : more + 1 ≤ (c :: w).length := Nat.succ_le_succ (le_of_piecesBefore? w hrest)
          -- only a piece that reaches the place could go on there, and that is the last one
          have hat' : at? symbols (c :: (w ++ y)) = some (kind, more + 1) := by
            refine at?_congr hsymbols hx hy (List.cons_ne_nil c w) hat hmore fun hword hreach => ?_
            obtain rfl : more = w.length := Nat.succ.inj hreach
            obtain rfl : [] = rest := Option.some.inj ((piecesBefore?_length x w).symm.trans hrest)
            exact hletter _ rfl hword
          rw [piecesBefore?, hat']
          show (piecesBefore? symbols y more w).map _ = _
          rw [ih hrest fun l hl => hletter l (List.mem_getLast?_cons hl)]
          rfl

/-- **A line begins with a lexeme that is not empty**, and the others follow it. -/
theorem lexFrom_cons_inv {c : Char} {rest : List Char} {position : Nat} {lexemes : List Lexeme}
    (h : lexFrom symbols position 0 (c :: rest) = .ok lexemes) :
    ∃ kind more others, at? symbols (c :: rest) = some (kind, more + 1) ∧
      lexFrom symbols (position + 1) more rest = .ok others ∧
        lexemes = ⟨kind, (c :: rest).take (more + 1), position⟩ :: others := by
  rw [lexFrom] at h
  split at h
  · cases h
  · cases h
  · rename_i kind more hat
    obtain ⟨others, hrest, heq⟩ := Except.bind_eq_ok.mp h
    exact ⟨kind, more, others, hat, hrest, (Except.ok.inj heq).symm⟩

theorem le_position_of_mem (text : List Char) : ∀ {position skip : Nat} {lexemes : List Lexeme},
    lexFrom symbols position skip text = .ok lexemes →
      ∀ l ∈ lexemes, position + skip ≤ l.position := by
  induction text with
  | nil =>
      intro position skip lexemes h l hl
      cases skip <;> (obtain rfl := Except.ok.inj h; cases hl)
  | cons c rest ih =>
      intro position skip lexemes h l hl
      cases skip with
      | succ skip =>
          have hle := ih h l hl
          omega
      | zero =>
          obtain ⟨kind, more, others, _, hrest, rfl⟩ := lexFrom_cons_inv h
          rcases List.mem_cons.mp hl with rfl | hl
          · exact Nat.le_refl _
          · have hle := ih hrest l hl
            omega

/-- Where a lexeme stands, the one before it ends. -/
theorem exists_piecesBefore? {x : List Char} (w : List Char) :
    ∀ {position skip : Nat} {lexemes : List Lexeme},
      lexFrom symbols position skip (w ++ x) = .ok lexemes →
        (∃ l ∈ lexemes, l.position = position + w.length) →
          ∃ pieces, piecesBefore? symbols x skip w = some pieces := by
  induction w with
  | nil =>
      intro position skip lexemes h hmem
      cases skip with
      | zero => exact ⟨[], rfl⟩
      | succ skip =>
          obtain ⟨l, hl, hposition⟩ := hmem
          -- in the middle of a lexeme the next one stands further on
          have hle := le_position_of_mem x h l hl
          rw [hposition, List.length_nil] at hle
          omega
  | cons c w ih =>
      intro position skip lexemes h hmem
      obtain ⟨l, hl, hposition⟩ := hmem
      rw [List.length_cons] at hposition
      cases skip with
      | succ skip => exact ih h ⟨l, hl, by omega⟩
      | zero =>
          rw [List.cons_append] at h
          obtain ⟨kind, more, others, hat, hrest, rfl⟩ := lexFrom_cons_inv h
          rcases List.mem_cons.mp hl with rfl | hl
          · simp at hposition
          · obtain ⟨pieces, hpieces⟩ := ih hrest ⟨l, hl, by omega⟩
            rw [piecesBefore?, hat]
            exact ⟨_, congrArg (Option.map _) hpieces⟩

/-! ## Symbols and parentheses -/

/-- A symbol is read where it stands, if no other one goes on after it. -/
theorem pieces?_symbol {name : List Char} (hmem : name ∈ symbols)
    (hlongest : ∀ t ∈ symbols, name <+: t → t = name) (hstart : NumberLiteral.StopsAt name)
    (hname : name ≠ []) (rest : List Char) :
    pieces? symbols 0 (name ++ rest) =
      (pieces? symbols 0 rest).map (⟨.symbol, name, 0⟩ :: ·) := by
  have hread : longestSymbol? symbols (name ++ rest) = some name := by
    refine longestSymbol?_eq_some_iff.mpr ⟨hmem, List.prefix_append name rest, ?_⟩
    intro t ht hpre
    rcases List.prefix_or_prefix_of_prefix hpre (List.prefix_append name rest) with h | h
    · exact h.length_le
    · rw [hlongest t ht h]
  have hempty : symbols.isEmpty = false := by
    rw [List.isEmpty_eq_false_iff]
    exact List.ne_nil_of_mem hmem
  cases name with
  | nil => exact absurd rfl hname
  | cons c name =>
      have hnumber : NumberLiteral.length (c :: name ++ rest) = 0 := by
        have hstops : NumberLiteral.StopsAt (c :: name ++ rest) := hstart
        exact NumberLiteral.length_append hstops []
      have hat : at? symbols (c :: name ++ rest) = some (.symbol, name.length + 1) := by
        rw [at?, hnumber, symbolAt?, hempty, hread]
        rfl
      rw [List.cons_append, pieces?]
      rw [List.cons_append] at hat
      rw [hat]
      show (pieces? symbols name.length (name ++ rest)).map _ = _
      rw [pieces?_skip]
      simp

/-- Symbols that are not empty, and that no closing parenthesis is part of. -/
structure Unclosed (symbols : List (List Char)) : Prop where
  exist : symbols ≠ []
  nonempty : ∀ t ∈ symbols, t ≠ []
  unclosed : ∀ t ∈ symbols, ')' ∉ t

theorem opens_rightParen (h : Unclosed symbols) (rest : List Char) :
    Opens symbols (')' :: rest) := by
  refine ⟨?_, ?_, ?_⟩
  · rintro c ⟨⟩
    decide
  · rintro c ⟨⟩
    decide
  · rintro c ⟨⟩ w v hmem _
    exact absurd (by simp) (h.unclosed _ hmem)

/-- A closing parenthesis is a piece of its own. -/
theorem pieces?_rightParen (h : Unclosed symbols) (rest : List Char) :
    pieces? symbols 0 (')' :: rest) =
      (pieces? symbols 0 rest).map (⟨.rightParen, [')'], 0⟩ :: ·) := by
  have hempty : symbols.isEmpty = false := by simpa using h.exist
  have hnumber : NumberLiteral.length (')' :: rest) = 0 :=
    NumberLiteral.length_append (opens_rightParen h rest).number []
  have hlongest : longestSymbol? symbols (')' :: rest) = none := by
    refine longestSymbol?_eq_none_iff.mpr fun t ht hpre => ?_
    cases t with
    | nil => exact h.nonempty [] ht rfl
    | cons c t =>
        obtain ⟨rfl, _⟩ := List.cons_prefix_cons.mp hpre
        exact h.unclosed _ ht List.mem_cons_self
  have hplain : plainAt? (')' :: rest) = some (.rightParen, 1) := by
    have hletter : Text.isLetter ')' = false := by decide
    simp [plainAt?, hletter]
  have hat : at? symbols (')' :: rest) = some (.rightParen, 1) := by
    rw [at?, hnumber, symbolAt?, hempty, hlongest]
    exact hplain
  rw [pieces?, hat]
  rfl

theorem takeWhile_rightParen {P : Char → Bool} (hP : P ')' = false) (w rest : List Char) :
    ((w ++ ')' :: rest).takeWhile P).length ≤ w.length := by
  have hsame : (w ++ ')' :: rest).takeWhile P = w.takeWhile P := by
    induction w with
    | nil => simp [hP]
    | cons c w ih => by_cases hc : P c = true <;> simp [hc, ih]
  rw [hsame]
  exact (List.takeWhile_prefix P).length_le

/-- No lexeme goes on over a closing parenthesis. -/
theorem at?_rightParen_le (h : Unclosed symbols) {w rest : List Char} (hw : w ≠ [])
    {kind : LexemeKind} {n : Nat} (hat : at? symbols (w ++ ')' :: rest) = some (kind, n)) :
    n ≤ w.length := by
  have hempty : symbols.isEmpty = false := by simpa using h.exist
  rw [at?, NumberLiteral.length_append (opens_rightParen h rest).number, symbolAt?, hempty] at hat
  split at hat
  · obtain ⟨_, rfl⟩ := Prod.mk.inj (Option.some.inj hat)
    exact NumberLiteral.length_le w
  · cases hlongest : longestSymbol? symbols (w ++ ')' :: rest) with
    | some s =>
        rw [hlongest] at hat
        obtain ⟨_, rfl⟩ := Prod.mk.inj (Option.some.inj hat)
        obtain ⟨hmem, hpre, _⟩ := longestSymbol?_eq_some_iff.mp hlongest
        by_contra hlong
        -- a longer symbol would hold the parenthesis
        obtain ⟨v, rfl⟩ := List.prefix_of_prefix_length_le (List.prefix_append w (')' :: rest)) hpre
          (by omega)
        have hv : v <+: ')' :: rest := (List.prefix_append_right_inj w).mp hpre
        cases v with
        | nil => simp at hlong
        | cons c v =>
            obtain ⟨rfl, _⟩ := List.cons_prefix_cons.mp hv
            exact h.unclosed _ hmem (by simp)
    | none =>
        rw [hlongest] at hat
        change plainAt? (w ++ ')' :: rest) = some (kind, n) at hat
        cases w with
        | nil => exact absurd rfl hw
        | cons c w =>
            have hword := takeWhile_rightParen (P := Text.isLetter) (by decide) w rest
            have hspace := takeWhile_rightParen (P := Text.isWhiteSpace) (by decide) w rest
            rw [List.cons_append, plainAt?] at hat
            rw [List.length_cons]
            split_ifs at hat <;> (obtain ⟨_, rfl⟩ := Prod.mk.inj (Option.some.inj hat); omega)

/-- Before a closing parenthesis a lexeme ends. -/
theorem exists_piecesBefore?_rightParen (h : Unclosed symbols) {rest : List Char} (w : List Char) :
    ∀ {skip : Nat} {pieces : List Lexeme}, skip ≤ w.length →
      pieces? symbols skip (w ++ ')' :: rest) = some pieces →
        ∃ before, piecesBefore? symbols (')' :: rest) skip w = some before := by
  induction w with
  | nil =>
      intro skip pieces hskip _
      obtain rfl : skip = 0 := Nat.le_zero.mp hskip
      exact ⟨[], rfl⟩
  | cons c w ih =>
      intro skip pieces hskip hpieces
      cases skip with
      | succ skip => exact ih (Nat.le_of_succ_le_succ hskip) hpieces
      | zero =>
          rw [List.cons_append, pieces?] at hpieces
          split at hpieces
          · rename_i kind more hat
            obtain ⟨others, hothers, _⟩ := Option.map_eq_some_iff.mp hpieces
            have hmore : more + 1 ≤ (c :: w).length :=
              at?_rightParen_le h (List.cons_ne_nil c w) hat
            obtain ⟨before, hbefore⟩ := ih (Nat.le_of_succ_le_succ hmore) hothers
            rw [piecesBefore?, hat]
            exact ⟨_, congrArg (Option.map _) hbefore⟩
          · cases hpieces

end Lexeme

end DecimalCalc
