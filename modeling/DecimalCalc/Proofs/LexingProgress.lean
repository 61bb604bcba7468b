import DecimalCalc.Proofs.Failures

/-!
# Lexing goes on

Each turn of the loop that cuts a line reads what its rest starts with, and goes on behind it. The
turns are counted here as they are taken, those that read the empty text too (`Turns`). A line that
comes to an end has no more lexemes than characters, and none of them is empty. The loop goes on for
ever exactly where some turns lead to a place at which nothing but the empty text is read (`Idle`),
and it does so for no line when there are symbols and none of them is empty
(`lex_ends_unless_idle`).
-/

set_option autoImplicit false

namespace DecimalCalc

namespace Lexeme

variable {symbols : List (List Char)} {position position' : Nat} {text rest : List Char}
  {lexemes : List Lexeme} {kind : LexemeKind} {n : Nat}

/-! ## The turns of the loop -/

/-- **Some turns of the loop**: as long as characters are left, each reads the lexeme at their start,
which may be empty, and goes on behind it. `rest` is left after the turns, at a position of its own.
-/
inductive Turns (symbols : List (List Char)) :
    Nat → List Char → List Lexeme → Nat → List Char → Prop
  | none (position : Nat) (text : List Char) : Turns symbols position text [] position text
  | turn {position position' n : Nat} {text rest : List Char} {kind : LexemeKind}
      {lexemes : List Lexeme} (left : text ≠ []) (read : at? symbols text = some (kind, n))
      (more : Turns symbols (position + n) (text.drop n) lexemes position' rest) :
      Turns symbols position text (⟨kind, text.take n, position⟩ :: lexemes) position' rest

/-- **The loop never ends**: it takes any number of turns. -/
def EndlessFrom (symbols : List (List Char)) (position : Nat) (text : List Char) : Prop :=
  ∀ count, ∃ lexemes position' rest,
    Turns symbols position text lexemes position' rest ∧ lexemes.length = count

/-- The loop never ends on a line. -/
def Endless (symbols : List (List Char)) (line : List Char) : Prop := EndlessFrom symbols 0 line

/-- **A place at which the empty text is read**: no number starts there, and either there are no
symbols at all, or the empty text is one and no other symbol starts there. -/
structure Idle (symbols : List (List Char)) (text : List Char) : Prop where
  left : text ≠ []
  number : StartsNone NumberLiteral.grammar text
  empty : symbols = [] ∨ [] ∈ symbols
  symbol : ∀ s ∈ symbols, s <+: text → s = []

/-- The turns cut the text into pieces. -/
theorem Turns.joined (h : Turns symbols position text lexemes position' rest) :
    lexemes.flatMap Lexeme.text ++ rest = text := by
  induction h with
  | none position text => rfl
  | @turn position position' n text rest kind lexemes left read more ih =>
      calc
        ((⟨kind, text.take n, position⟩ :: lexemes).flatMap Lexeme.text) ++ rest
            = text.take n ++ (lexemes.flatMap Lexeme.text ++ rest) := by simp
        _ = text.take n ++ text.drop n := by rw [ih]
        _ = text := List.take_append_drop n text

/-- Pieces that are not empty are no more than the characters they hold. -/
theorem length_le_of_nonempty (h : ∀ l ∈ lexemes, l.text ≠ []) :
    lexemes.length ≤ (lexemes.flatMap Lexeme.text).length := by
  induction lexemes with
  | nil => exact Nat.le_refl 0
  | cons l lexemes ih =>
      have hfirst : 0 < l.text.length := List.length_pos_of_ne_nil (h l List.mem_cons_self)
      have hothers := ih fun l' hl' => h l' (List.mem_cons_of_mem l hl')
      rw [List.flatMap_cons, List.length_append, List.length_cons]
      omega

/-! ## Turns and the lexer -/

theorem lexFrom_drop (text : List Char) : ∀ position skip,
    lexFrom symbols position skip text = lexFrom symbols (position + skip) 0 (text.drop skip) := by
  induction text with
  | nil =>
      intro position skip
      cases skip <;> rfl
  | cons c text ih =>
      intro position skip
      cases skip with
      | zero => rfl
      | succ skip =>
          rw [lexFrom, ih, List.drop_succ_cons]
          congr 1
          omega

/-- **One turn that gets on.** -/
theorem lexFrom_turn (left : text ≠ []) (read : at? symbols text = some (kind, n)) (hn : n ≠ 0) :
    lexFrom symbols position 0 text =
      (lexFrom symbols (position + n) 0 (text.drop n)).map (⟨kind, text.take n, position⟩ :: ·) := by
  obtain ⟨c, others, rfl⟩ := List.exists_cons_of_ne_nil left
  obtain ⟨more, rfl⟩ := Nat.exists_eq_succ_of_ne_zero hn
  have hplace : position + 1 + more = position + (more + 1) := by omega
  simp only [lexFrom, read, lexFrom_drop others (position + 1) more, hplace, List.drop_succ_cons]
  cases lexFrom symbols (position + (more + 1)) 0 (others.drop more) <;> rfl

/-- **Turns that get on** are those of the lexer. -/
theorem lexFrom_of_turns (h : Turns symbols position text lexemes position' rest)
    (hlexemes : ∀ l ∈ lexemes, l.text ≠ []) :
    lexFrom symbols position 0 text =
      (lexFrom symbols position' 0 rest).map (lexemes ++ ·) := by
  induction h with
  | none position text =>
      cases lexFrom symbols position 0 text <;> rfl
  | @turn position position' n text rest kind lexemes left read more ih =>
      have hn : n ≠ 0 := by
        rintro rfl
        exact hlexemes _ List.mem_cons_self rfl
      have hothers := ih fun l hl => hlexemes l (List.mem_cons_of_mem _ hl)
      rw [lexFrom_turn left read hn, hothers, Except.map_map]
      rfl

/-- Turns that get on lead to the end, to a place where nothing is read, or to one where the empty
text is. -/
theorem exists_turns (symbols : List (List Char)) (text : List Char) (position : Nat) :
    ∃ lexemes position' rest, Turns symbols position text lexemes position' rest ∧
      (∀ l ∈ lexemes, l.text ≠ []) ∧
      (rest ≠ [] → at? symbols rest = none ∨ ∃ kind, at? symbols rest = some (kind, 0)) := by
  -- by the number of characters that are left
  induction hlength : text.length using Nat.strong_induction_on generalizing text position with
  | _ count ih =>
      by_cases left : text = []
      · exact ⟨[], position, text, .none position text, nofun, fun h => absurd left h⟩
      · match hat : at? symbols text with
        | none => exact ⟨[], position, text, .none position text, nofun, fun _ => .inl hat⟩
        | some (kind, 0) =>
            exact ⟨[], position, text, .none position text, nofun, fun _ => .inr ⟨kind, hat⟩⟩
        | some (kind, more + 1) =>
            have hpos : 0 < text.length := List.length_pos_of_ne_nil left
            have hshort : (text.drop (more + 1)).length < count := by
              rw [List.length_drop]
              omega
            obtain ⟨lexemes, position', rest, hturns, hlexemes, hstop⟩ :=
              ih _ hshort (text.drop (more + 1)) (position + (more + 1)) rfl
            refine ⟨_, position', rest, .turn left hat hturns, ?_, hstop⟩
            rw [List.forall_mem_cons]
            refine ⟨fun hnil => ?_, hlexemes⟩
            rcases List.take_eq_nil_iff.mp hnil with hzero | hnil
            · exact Nat.succ_ne_zero more hzero
            · exact left hnil

/-! ## Places where the empty text is read -/

/-- Where the empty text is read, it is a symbol, or there are none. -/
theorem idle_of_at? (left : text ≠ []) (h : at? symbols text = some (kind, 0)) :
    Idle symbols text := by
  have hnumber : NumberLiteral.length text = 0 := by
    by_contra hnumber
    rw [at?, if_pos hnumber] at h
    exact hnumber (Prod.mk.inj (Option.some.inj h)).2
  have hstarts := NumberLiteral.startsNone_grammar hnumber
  rcases at?_inv h with ⟨_, hpos⟩ | hsymbol | ⟨_, hplain⟩
  · exact absurd hpos (Nat.lt_irrefl 0)
  · rw [symbolAt?] at hsymbol
    split at hsymbol
    · rename_i hnone
      obtain rfl : symbols = [] := List.isEmpty_iff.mp hnone
      exact ⟨left, hstarts, .inl rfl, fun t ht => absurd ht List.not_mem_nil⟩
    · -- the longest symbol that starts here is the empty one
      obtain ⟨s, hlongest, heq⟩ := Option.map_eq_some_iff.mp hsymbol
      obtain ⟨hmem, _, hbound⟩ := longestSymbol?_eq_some_iff.mp hlongest
      have hlength : s.length = 0 := (Prod.mk.inj heq).2
      refine ⟨left, hstarts, .inr (List.eq_nil_of_length_eq_zero hlength ▸ hmem), ?_⟩
      intro t ht hpre
      have hle := hbound t ht hpre
      exact List.eq_nil_of_length_eq_zero (by omega)
  · exact absurd (plainAt?_inv hplain).1 (Nat.lt_irrefl 0)

theorem Idle.at? (h : Idle symbols text) : Lexeme.at? symbols text = some (.symbol, 0) := by
  have hnumber : NumberLiteral.length text = 0 := by
    by_contra hnumber
    exact (NumberLiteral.longest_grammar hnumber).not_startsNone h.number
  have hsymbol : symbolAt? symbols text = some (.symbol, 0) := by
    rw [symbolAt?]
    rcases h.empty with rfl | hmem
    · rfl
    · have hlongest : longestSymbol? symbols text = some [] := by
        refine longestSymbol?_eq_some_iff.mpr ⟨hmem, List.nil_prefix, fun t ht hpre => ?_⟩
        rw [h.symbol t ht hpre]
      have hsome : symbols.isEmpty = false :=
        List.isEmpty_eq_false_iff.mpr (List.ne_nil_of_mem hmem)
      rw [hsome, hlongest]
      rfl
  rw [Lexeme.at?, hnumber, hsymbol]
  rfl

theorem not_idle (exist : symbols ≠ []) (nonempty : [] ∉ symbols) : ¬Idle symbols text := by
  intro h
  rcases h.empty with hnone | hmem
  · exact exist hnone
  · exact nonempty hmem

/-! ## Loops that never end -/

/-- The first turn of a loop leaves the others to be taken. -/
theorem endlessFrom_turn (left : text ≠ []) (read : at? symbols text = some (kind, n)) :
    EndlessFrom symbols position text ↔ EndlessFrom symbols (position + n) (text.drop n) := by
  constructor
  · intro h count
    obtain ⟨lexemes, position', rest, hturns, hcount⟩ := h (count + 1)
    cases hturns with
    | none => cases hcount
    | turn left' read' more =>
        obtain ⟨rfl, rfl⟩ := Prod.mk.inj (Option.some.inj (read.symm.trans read'))
        exact ⟨_, position', rest, more, Nat.succ.inj hcount⟩
  · intro h count
    cases count with
    | zero => exact ⟨[], position, text, .none position text, rfl⟩
    | succ count =>
        obtain ⟨lexemes, position', rest, hturns, hcount⟩ := h count
        exact ⟨_, position', rest, .turn left read hturns, congrArg Nat.succ hcount⟩

theorem endlessFrom_turns (h : Turns symbols position text lexemes position' rest) :
    EndlessFrom symbols position text ↔ EndlessFrom symbols position' rest := by
  induction h with
  | none => exact Iff.rfl
  | turn left read _ ih => exact (endlessFrom_turn left read).trans ih

/-- **At an idle place the loop never ends**, for each turn leads back to it. -/
theorem Idle.endlessFrom (h : Idle symbols text) (position : Nat) :
    EndlessFrom symbols position text := by
  intro count
  induction count with
  | zero => exact ⟨[], position, text, .none position text, rfl⟩
  | succ count ih =>
      obtain ⟨lexemes, position', rest, hturns, hcount⟩ := ih
      exact ⟨_, position', rest, .turn h.left h.at? hturns, congrArg Nat.succ hcount⟩

/-- Where nothing is read, not even the empty text, no turn is taken. -/
theorem not_endlessFrom (h : text = [] ∨ at? symbols text = none) :
    ¬EndlessFrom symbols position text := by
  intro hendless
  obtain ⟨lexemes, position', rest, hturns, hcount⟩ := hendless 1
  cases hturns with
  | none => cases hcount
  | turn left read _ =>
      rcases h with hnil | hnone
      · exact left hnil
      · rw [hnone] at read
        cases read

/-! ## All lines -/

/-- Some turns on a line lead to a place where the empty text is read. -/
def ReachesIdle (symbols : List (List Char)) (line : List Char) : Prop :=
  ∃ lexemes position rest, Turns symbols 0 line lexemes position rest ∧ Idle symbols rest

theorem endless_iff (line : List Char) : Endless symbols line ↔ ReachesIdle symbols line := by
  constructor
  · intro hendless
    obtain ⟨lexemes, position, rest, hturns, _, hstop⟩ := exists_turns symbols line 0
    have hrest : EndlessFrom symbols position rest := (endlessFrom_turns hturns).mp hendless
    have left : rest ≠ [] := fun hnil => not_endlessFrom (.inl hnil) hrest
    rcases hstop left with hnone | ⟨kind, hempty⟩
    · exact absurd hrest (not_endlessFrom (.inr hnone))
    · exact ⟨lexemes, position, rest, hturns, idle_of_at? left hempty⟩
  · rintro ⟨lexemes, position, rest, hturns, hidle⟩
    exact (endlessFrom_turns hturns).mpr (hidle.endlessFrom position)

/-- Where the loop ends, there are lexemes, or there is a place at which nothing is read. -/
theorem lex_of_ends {line : List Char} (h : ¬Endless symbols line) :
    (∃ lexemes, lex symbols line = .ok lexemes ∧ lexemes.length ≤ line.length ∧
      ∀ l ∈ lexemes, l.text ≠ []) ∨
    ∃ rest position, lex symbols line = .error (.fault (.unreadable rest position)) := by
  obtain ⟨lexemes, position, rest, hturns, hlexemes, hstop⟩ := exists_turns symbols line 0
  have hlex : lex symbols line = (lexFrom symbols position 0 rest).map (lexemes ++ ·) :=
    lexFrom_of_turns hturns hlexemes
  match rest with
  | [] =>
      have hjoined : lexemes.flatMap Lexeme.text = line := by simpa using hturns.joined
      refine .inl ⟨lexemes, ?_, ?_, hlexemes⟩
      · simp [hlex, lexFrom, Except.map]
      · calc
          lexemes.length ≤ (lexemes.flatMap Lexeme.text).length := length_le_of_nonempty hlexemes
          _ = line.length := by rw [hjoined]
  | c :: others =>
      have left : c :: others ≠ [] := List.cons_ne_nil c others
      rcases hstop left with hnone | ⟨kind, hempty⟩
      · refine .inr ⟨Text.strip (c :: others), position, ?_⟩
        simp [hlex, lexFrom, hnone, Except.map]
      · have hidle : Idle symbols (c :: others) := idle_of_at? left hempty
        exact absurd ((endless_iff line).mpr ⟨_, _, _, hturns, hidle⟩) h

/-- Where the loop never ends, this is what is reported. -/
theorem lex_of_endless {line : List Char} (h : Endless symbols line) :
    ∃ position, lex symbols line = .error (.stalled position) := by
  obtain ⟨lexemes, position, rest, hturns, hlexemes, hstop⟩ := exists_turns symbols line 0
  have hlex : lex symbols line = (lexFrom symbols position 0 rest).map (lexemes ++ ·) :=
    lexFrom_of_turns hturns hlexemes
  have hrest : EndlessFrom symbols position rest := (endlessFrom_turns hturns).mp h
  match rest with
  | [] => exact absurd hrest (not_endlessFrom (.inl rfl))
  | c :: others =>
      rcases hstop (List.cons_ne_nil c others) with hnone | ⟨kind, hempty⟩
      · exact absurd hrest (not_endlessFrom (.inr hnone))
      · exact ⟨position, by simp [hlex, lexFrom, hempty, Except.map]⟩

/-- **Lexing ends unless it reads the empty text.** The loop goes on for ever on just those lines
where it comes to an idle place, which is then reported. On all other lines it ends with no more
lexemes than there are characters, none of them empty, or the line is unreadable at some place. With
symbols of which none is empty there are no idle places. -/
theorem lex_ends_unless_idle (lexicon : Lexicon) (line : List Char) :
    (Endless lexicon.symbols line ↔ ReachesIdle lexicon.symbols line) ∧
    (¬ReachesIdle lexicon.symbols line →
      (∃ lexemes, lex lexicon.symbols line = .ok lexemes ∧ lexemes.length ≤ line.length ∧
        ∀ l ∈ lexemes, l.text ≠ []) ∨
      ∃ rest position, lex lexicon.symbols line = .error (.fault (.unreadable rest position))) ∧
    (ReachesIdle lexicon.symbols line →
      ∃ position, lex lexicon.symbols line = .error (.stalled position)) ∧
    (lexicon.symbols ≠ [] → [] ∉ lexicon.symbols → ¬ReachesIdle lexicon.symbols line) := by
  refine ⟨endless_iff line, fun h => ?_, fun h => ?_, fun exist nonempty h => ?_⟩
  · exact lex_of_ends fun hendless => h ((endless_iff line).mp hendless)
  · exact lex_of_endless ((endless_iff line).mpr h)
  · obtain ⟨_, _, _, _, hidle⟩ := h
    exact not_idle exist nonempty hidle

/-- With the built-in symbols each line ends, `2x` as well as `2$`, which cannot be read. Without any
symbols a line ends that holds nothing but a number. -/
theorem lex_ends_unless_idle_builtin :
    ¬Endless ({} : Lexicon).symbols "2x".toList ∧
      ((∃ lexemes, lex ({} : Lexicon).symbols "2$".toList = .ok lexemes ∧
        lexemes.length ≤ "2$".toList.length ∧ ∀ l ∈ lexemes, l.text ≠ []) ∨
      ∃ rest position, lex ({} : Lexicon).symbols "2$".toList =
        .error (.fault (.unreadable rest position))) ∧
      ¬ReachesIdle (Lexicon.mk {} []).symbols ['2'] := by
  have exist : ({} : Lexicon).symbols ≠ [] := by decide
  have nonempty : [] ∉ ({} : Lexicon).symbols := by decide +kernel
  obtain ⟨hendless, _, _, hnever⟩ := lex_ends_unless_idle {} "2x".toList
  obtain ⟨_, hends, _, hnever'⟩ := lex_ends_unless_idle {} "2$".toList
  obtain ⟨_, _, hstalled, _⟩ := lex_ends_unless_idle (Lexicon.mk {} []) ['2']
  refine ⟨fun h => hnever exist nonempty (hendless.mp h), hends (hnever' exist nonempty), ?_⟩
  intro hidle
  obtain ⟨position, hlex⟩ := hstalled hidle
  have hok : lex (Lexicon.mk {} []).symbols ['2'] = .ok [⟨.number, ['2'], 0⟩] := by decide +kernel
  rw [hok] at hlex
  cases hlex

/-- **Lexers that never end.** Without symbols and constants nothing gets past a letter; nor does
anything where the empty text is a symbol and the others do not match. -/
theorem lex_endless_without_symbols :
    Endless (Lexicon.mk {} []).symbols ['x'] ∧
      lex (Lexicon.mk {} []).symbols ['x'] = .error (.stalled 0) ∧
      Endless (Lexicon.mk ⟨[Entry.before [] 1 6 Operation.factorial.action,
        Entry.between "aab".toList 2 Operation.add.action .left], false⟩ []).symbols
        "aa".toList := by
  have hnumber : ∀ {text : List Char}, NumberLiteral.length text = 0 →
      StartsNone NumberLiteral.grammar text := NumberLiteral.startsNone_grammar
  have hnone : Idle (Lexicon.mk {} []).symbols ['x'] :=
    ⟨by decide, hnumber (by decide), .inl rfl, nofun⟩
  have hempty : Idle [[], "aab".toList] "aa".toList :=
    ⟨by decide, hnumber (by decide), .inr (by decide), by decide⟩
  exact ⟨hnone.endlessFrom 0, by decide, hempty.endlessFrom 0⟩

end Lexeme

end DecimalCalc
