import DecimalCalc.Proofs.NumberGrammar

/-!
# Lexing is maximal munch

What a lexeme may be is a list of languages, of which the first that has a word at the start of a
text takes its longest one (`Reads`). Lexing follows this rule and no other: its lexemes are those
into which the rule cuts the line, and it fails exactly where the rule finds nothing
(`lex_maximal_munch`).
-/

set_option autoImplicit false

namespace DecimalCalc

namespace Text

variable {P : Char → Bool}

theorem longest_one {c : Char} (hc : P c = true) (rest : List Char) :
    Longest (one P) (c :: rest) [c] := by
  refine ⟨singleton_mem_one hc, ⟨rest, rfl⟩, ?_⟩
  rintro _ ⟨d, _, rfl⟩ _
  exact Nat.le_refl _

theorem startsNone_one {c : Char} (hc : P c = false) (rest : List Char) :
    StartsNone (one P) (c :: rest) := by
  rintro _ ⟨d, hd, rfl⟩ hpre
  obtain ⟨rfl, _⟩ := List.cons_prefix_cons.mp hpre
  exact absurd hd (by simp [hc])

/-- The longest run at the start of a text goes on as long as the characters belong to the class. -/
theorem longest_run {c : Char} (hc : P c = true) (rest : List Char) :
    Longest (run P) (c :: rest) (c :: rest.takeWhile P) := by
  refine ⟨⟨List.cons_ne_nil _ _, ?_⟩, ?_, ?_⟩
  · intro d hd
    rcases List.mem_cons.mp hd with rfl | hd
    · exact hc
    · exact List.mem_takeWhile_imp hd
  · exact List.cons_prefix_cons.mpr ⟨rfl, List.takeWhile_prefix P⟩
  · rintro v ⟨_, hv⟩ ⟨x, hx⟩
    have htake : (v ++ x).takeWhile P = v ++ x.takeWhile P := List.takeWhile_append_of_pos hv
    rw [hx, List.takeWhile_cons_of_pos hc] at htake
    rw [htake, List.length_append]
    exact Nat.le_add_right _ _

theorem startsNone_run {c : Char} (hc : P c = false) (rest : List Char) :
    StartsNone (run P) (c :: rest) := by
  rintro v ⟨hne, hv⟩ hpre
  cases v with
  | nil => exact hne rfl
  | cons d v =>
      obtain ⟨rfl, _⟩ := List.cons_prefix_cons.mp hpre
      exact absurd (hv d List.mem_cons_self) (by simp [hc])

end Text

namespace Lexeme

/-! ## The rule -/

/-- What a lexeme may be if it is neither a number nor a symbol, in the order in which it is tried.
-/
def plainAlternatives : List (LexemeKind × Language Char) :=
  [(.word, Text.run Text.isLetter), (.leftParen, Text.one (· = '(')),
    (.rightParen, Text.one (· = ')')), (.separator, Text.one fun c => c = ';' ∨ c = ','),
    (.bar, Text.one (· = '|')), (.space, Text.run Text.isWhiteSpace)]

/-- The symbols as a language. -/
def listed (symbols : List (List Char)) : Language Char := {s | s ∈ symbols}

/-- **What a lexeme may be**, in the order in which it is tried. -/
def alternatives (symbols : List (List Char)) : List (LexemeKind × Language Char) :=
  (.number, NumberLiteral.grammar) :: (.symbol, listed symbols) :: plainAlternatives

theorem nil_notMem_plain : ∀ a ∈ plainAlternatives, [] ∉ a.2 := by
  have hone : ∀ {P : Char → Bool}, [] ∉ Text.one P := by
    rintro P ⟨c, _, h⟩
    cases h
  simp only [plainAlternatives, List.forall_mem_cons]
  exact ⟨fun h => h.1 rfl, hone, hone, hone, hone, fun h => h.1 rfl, nofun⟩

variable {symbols : List (List Char)}

/-- No lexeme may be empty. -/
theorem nil_notMem_alternatives (nonempty : [] ∉ symbols) :
    ∀ a ∈ alternatives symbols, [] ∉ a.2 := by
  rw [alternatives, List.forall_mem_cons, List.forall_mem_cons]
  exact ⟨fun h => NumberLiteral.grammar_ne_nil h rfl, nonempty, nil_notMem_plain⟩

/-- **The first of some alternatives** that has a word at the start of a text takes its longest one.
-/
inductive Reads : List (LexemeKind × Language Char) → List Char → LexemeKind → List Char → Prop
  | first {kind : LexemeKind} {L : Language Char} {others : List (LexemeKind × Language Char)}
      {text w : List Char} (longest : Longest L text w) : Reads ((kind, L) :: others) text kind w
  | next {kind kind' : LexemeKind} {L : Language Char} {others : List (LexemeKind × Language Char)}
      {text w : List Char} (none : StartsNone L text) (read : Reads others text kind' w) :
      Reads ((kind, L) :: others) text kind' w

/-- None of some alternatives has a word at the start of a text. -/
def Unread (alternatives : List (LexemeKind × Language Char)) (text : List Char) : Prop :=
  ∀ a ∈ alternatives, StartsNone a.2 text

variable {others : List (LexemeKind × Language Char)} {kind : LexemeKind} {L : Language Char}
  {text w : List Char}

/-- What is read when all the alternatives before have no word. -/
theorem Reads.of_append {earlier : List (LexemeKind × Language Char)} (h : Unread earlier text)
    (read : Reads others text kind w) : Reads (earlier ++ others) text kind w := by
  induction earlier with
  | nil => exact read
  | cons a earlier ih =>
      exact .next (h a List.mem_cons_self) (ih fun b hb => h b (List.mem_cons_of_mem a hb))

theorem Reads.starts (h : Reads others text kind w) : w <+: text := by
  induction h with
  | first longest => exact longest.starts
  | next _ _ ih => exact ih

theorem Reads.exists_mem (h : Reads others text kind w) : ∃ L, (kind, L) ∈ others ∧ w ∈ L := by
  induction h with
  | first longest => exact ⟨_, List.mem_cons_self, longest.mem⟩
  | next _ _ ih =>
      obtain ⟨L, hL, hw⟩ := ih
      exact ⟨L, List.mem_cons_of_mem _ hL, hw⟩

/-- The rule leaves no choice. -/
theorem Reads.unique (h : Reads others text kind w) {kind' : LexemeKind} {w' : List Char}
    (h' : Reads others text kind' w') : kind = kind' ∧ w = w' := by
  induction h with
  | first longest =>
      cases h' with
      | first longest' => exact ⟨rfl, longest.unique longest'⟩
      | next none _ => exact absurd none longest.not_startsNone
  | next none _ ih =>
      cases h' with
      | first longest' => exact absurd none longest'.not_startsNone
      | next _ read' => exact ih read'

theorem Reads.not_unread (h : Reads others text kind w) : ¬Unread others text := by
  induction h with
  | first longest => exact fun hnone => longest.not_startsNone (hnone _ List.mem_cons_self)
  | next _ _ ih => exact fun hnone => ih fun a ha => hnone a (List.mem_cons_of_mem _ ha)

/-- A kind and a length are what the rule says for a text. -/
def Chooses (others : List (LexemeKind × Language Char)) (text : List Char) :
    Option (LexemeKind × Nat) → Prop
  | some (kind, n) => ∃ w, Reads others text kind w ∧ w ≠ [] ∧ w.length = n
  | none => Unread others text

theorem Chooses.first (h : Longest L text w) (hw : w ≠ []) {n : Nat} (hn : w.length = n) :
    Chooses ((kind, L) :: others) text (some (kind, n)) :=
  ⟨w, .first h, hw, hn⟩

theorem Chooses.next (h : StartsNone L text) {choice : Option (LexemeKind × Nat)}
    (hchoice : Chooses others text choice) : Chooses ((kind, L) :: others) text choice := by
  match choice with
  | some (kind', n) =>
      obtain ⟨w, read, hw⟩ := hchoice
      exact ⟨w, .next h read, hw⟩
  | none =>
      intro a ha
      rcases List.mem_cons.mp ha with rfl | ha
      · exact h
      · exact hchoice a ha

/-- A test of the first character decides on one of its own kind. -/
theorem Chooses.one {P : Char → Bool} {c : Char} {rest : List Char}
    {choice : Option (LexemeKind × Nat)} (h : Chooses others (c :: rest) choice) :
    Chooses ((kind, Text.one P) :: others) (c :: rest)
      (if P c = true then some (kind, 1) else choice) := by
  split
  · rename_i hc
    exact .first (Text.longest_one hc rest) (List.cons_ne_nil _ _) rfl
  · rename_i hc
    exact .next (Text.startsNone_one (by simpa using hc) rest) h

theorem Chooses.run {P : Char → Bool} {c : Char} {rest : List Char}
    {choice : Option (LexemeKind × Nat)} (h : Chooses others (c :: rest) choice) :
    Chooses ((kind, Text.run P) :: others) (c :: rest)
      (if P c = true then some (kind, 1 + (rest.takeWhile P).length) else choice) := by
  split
  · rename_i hc
    refine .first (Text.longest_run hc rest) (List.cons_ne_nil _ _) ?_
    rw [List.length_cons, Nat.add_comm]
  · rename_i hc
    exact .next (Text.startsNone_run (by simpa using hc) rest) h

theorem plainAt?_chooses (text : List Char) :
    Chooses plainAlternatives text (plainAt? text) := by
  cases text with
  | nil =>
      intro a ha v hv hpre
      obtain rfl := List.prefix_nil.mp hpre
      exact nil_notMem_plain a ha hv
  | cons c rest =>
      have hend : Chooses [] (c :: rest) none := nofun
      have hchoice : Chooses plainAlternatives (c :: rest) _ :=
        .run (.one (.one (.one (.one (.run hend)))))
      rw [plainAt?]
      simpa only [decide_eq_true_eq] using hchoice

theorem symbolAt?_chooses (exist : symbols ≠ []) (nonempty : [] ∉ symbols)
    {choice : Option (LexemeKind × Nat)} (h : Chooses others text choice) :
    Chooses ((.symbol, listed symbols) :: others) text
      ((symbolAt? symbols text).orElse fun _ => choice) := by
  have hempty : symbols.isEmpty = false := by simpa using exist
  rw [symbolAt?, hempty]
  cases hlongest : longestSymbol? symbols text with
  | none => exact .next (longestSymbol?_eq_none_iff.mp hlongest) h
  | some s =>
      obtain ⟨hmem, hpre, hbound⟩ := longestSymbol?_eq_some_iff.mp hlongest
      refine .first ⟨hmem, hpre, hbound⟩ ?_ rfl
      rintro rfl
      exact nonempty hmem

/-- **The lexeme at the start of a text is the one of the rule.** -/
theorem at?_chooses (exist : symbols ≠ []) (nonempty : [] ∉ symbols) (text : List Char) :
    Chooses (alternatives symbols) text (at? symbols text) := by
  rw [at?]
  split
  · rename_i hnumber
    have hlongest := NumberLiteral.longest_grammar hnumber
    refine .first hlongest (NumberLiteral.grammar_ne_nil hlongest.mem) ?_
    rw [List.length_take, Nat.min_eq_left (NumberLiteral.length_le text)]
  · rename_i hnumber
    refine .next (NumberLiteral.startsNone_grammar (by simpa using hnumber)) ?_
    exact symbolAt?_chooses exist nonempty (plainAt?_chooses text)

theorem at?_of_reads (exist : symbols ≠ []) (nonempty : [] ∉ symbols)
    (h : Reads (alternatives symbols) text kind w) : at? symbols text = some (kind, w.length) := by
  have hchooses := at?_chooses exist nonempty text
  cases hat : at? symbols text with
  | none =>
      rw [hat] at hchooses
      exact absurd hchooses h.not_unread
  | some choice =>
      rw [hat] at hchooses
      obtain ⟨w', read, _, hlength⟩ := hchooses
      obtain ⟨rfl, rfl⟩ := h.unique read
      rw [hlength]

/-! ## Cutting a text -/

/-- **Some lexemes are what the rule cuts a text into** up to its end `rest`. None of them is empty,
one follows the other without a gap, the position of each is the number of characters before it, and
each is what the rule reads there. The text itself stands at the position `start`. -/
structure Cuts (symbols : List (List Char)) (start : Nat) (text : List Char)
    (lexemes : List Lexeme) (rest : List Char) : Prop where
  joined : lexemes.flatMap Lexeme.text ++ rest = text
  nonempty : ∀ l ∈ lexemes, l.text ≠ []
  placed : ∀ before l after, lexemes = before ++ l :: after →
    l.position = start + (before.flatMap Lexeme.text).length
  read : ∀ before l after, lexemes = before ++ l :: after →
    Reads (alternatives symbols) ((l :: after).flatMap Lexeme.text ++ rest) l.kind l.text

theorem cuts_nil (start : Nat) (text : List Char) : Cuts symbols start text [] text :=
  ⟨rfl, by simp, by simp, by simp⟩

theorem Cuts.cons {start : Nat} {lexemes : List Lexeme} {rest : List Char}
    (h : Cuts symbols (start + w.length) text lexemes rest) (hw : w ≠ [])
    (read : Reads (alternatives symbols) (w ++ text) kind w) :
    Cuts symbols start (w ++ text) (⟨kind, w, start⟩ :: lexemes) rest := by
  refine ⟨?_, ?_, ?_, ?_⟩
  · rw [List.flatMap_cons, List.append_assoc, h.joined]
  · intro l hl
    rcases List.mem_cons.mp hl with rfl | hl
    · exact hw
    · exact h.nonempty l hl
  · intro before l after heq
    cases before with
    | nil =>
        obtain ⟨rfl, rfl⟩ := List.cons.inj heq
        rfl
    | cons first before =>
        obtain ⟨rfl, hmore⟩ := List.cons.inj heq
        rw [h.placed before l after hmore, List.flatMap_cons, List.length_append, Nat.add_assoc]
  · intro before l after heq
    cases before with
    | nil =>
        obtain ⟨rfl, rfl⟩ := List.cons.inj heq
        rw [List.flatMap_cons, List.append_assoc, h.joined]
        exact read
    | cons first before =>
        obtain ⟨rfl, hmore⟩ := List.cons.inj heq
        exact h.read before l after hmore

theorem Cuts.tail {start : Nat} {l : Lexeme} {lexemes : List Lexeme} {rest : List Char}
    (h : Cuts symbols start text (l :: lexemes) rest) :
    Cuts symbols (start + l.text.length) (lexemes.flatMap Lexeme.text ++ rest) lexemes rest := by
  refine ⟨rfl, fun l hl => h.nonempty l (List.mem_cons_of_mem _ hl), ?_, ?_⟩
  · intro before l' after heq
    rw [h.placed (l :: before) l' after (by rw [heq]; rfl), List.flatMap_cons, List.length_append,
      Nat.add_assoc]
  · intro before l' after heq
    exact h.read (l :: before) l' after (by rw [heq]; rfl)

/-- A text can be cut until nothing is left, or nothing that the rule reads. -/
theorem exists_cuts (exist : symbols ≠ []) (nonempty : [] ∉ symbols) (text : List Char)
    (start : Nat) :
    ∃ lexemes rest, Cuts symbols start text lexemes rest ∧
      (rest = [] ∨ Unread (alternatives symbols) rest) := by
  induction hlength : text.length using Nat.strong_induction_on generalizing text start with
  | _ n ih =>
      have hchooses := at?_chooses exist nonempty text
      cases hat : at? symbols text with
      | none =>
          rw [hat] at hchooses
          exact ⟨[], text, cuts_nil start text, .inr hchooses⟩
      | some choice =>
          rw [hat] at hchooses
          obtain ⟨w, read, hw, _⟩ := hchooses
          obtain ⟨others, rfl⟩ := read.starts
          have hshort : others.length < n := by
            have hpos := List.length_pos_of_ne_nil hw
            rw [List.length_append] at hlength
            omega
          obtain ⟨lexemes, rest, hcuts, hrest⟩ := ih _ hshort others (start + w.length) rfl
          exact ⟨_, rest, hcuts.cons hw read, hrest⟩

/-! ## Lexing -/

theorem lexFrom_skip (w x : List Char) (position : Nat) :
    lexFrom symbols position w.length (w ++ x) = lexFrom symbols (position + w.length) 0 x := by
  induction w generalizing position with
  | nil => rfl
  | cons c w ih =>
      rw [List.length_cons, List.cons_append, lexFrom, ih]
      congr 1
      omega

/-- **Lexing reads what the rule reads**, and goes on behind it. -/
theorem lexFrom_of_reads (exist : symbols ≠ []) (nonempty : [] ∉ symbols) {x : List Char}
    (hw : w ≠ []) (h : Reads (alternatives symbols) (w ++ x) kind w) (position : Nat) :
    lexFrom symbols position 0 (w ++ x) =
      (lexFrom symbols (position + w.length) 0 x).map (⟨kind, w, position⟩ :: ·) := by
  have hat := at?_of_reads exist nonempty h
  cases w with
  | nil => exact absurd rfl hw
  | cons c w =>
      rw [List.cons_append] at hat ⊢
      rw [lexFrom, hat, List.length_cons]
      show (lexFrom symbols (position + 1) w.length (w ++ x)).bind _ = _
      rw [lexFrom_skip, Nat.add_right_comm, Nat.add_assoc]
      have htake : (c :: (w ++ x)).take (w.length + 1) = c :: w := by simp
      rw [htake]
      cases lexFrom symbols (position + (w.length + 1)) 0 x <;> rfl

theorem lexFrom_of_unread (exist : symbols ≠ []) (nonempty : [] ∉ symbols) (hne : text ≠ [])
    (h : Unread (alternatives symbols) text) (position : Nat) :
    lexFrom symbols position 0 text = .error (.fault (.unreadable (Text.strip text) position)) := by
  have hchooses := at?_chooses exist nonempty text
  have hat : at? symbols text = none := by
    cases hat : at? symbols text with
    | none => rfl
    | some choice =>
        rw [hat] at hchooses
        obtain ⟨w, read, _⟩ := hchooses
        exact absurd h read.not_unread
  cases text with
  | nil => exact absurd rfl hne
  | cons c rest =>
      rw [lexFrom, hat]

theorem lexFrom_of_cuts (exist : symbols ≠ []) (nonempty : [] ∉ symbols) {rest : List Char}
    (lexemes : List Lexeme) : ∀ {start : Nat} {text : List Char},
      Cuts symbols start text lexemes rest → lexFrom symbols start 0 text =
        (lexFrom symbols (start + (lexemes.flatMap Lexeme.text).length) 0 rest).map
          (lexemes ++ ·) := by
  induction lexemes with
  | nil =>
      intro start text h
      obtain rfl := h.joined
      cases hlex : lexFrom symbols start 0 rest <;> simp [hlex, Except.map]
  | cons l lexemes ih =>
      intro start text h
      have hplace : l.position = start := h.placed [] l lexemes rfl
      have hread := h.read [] l lexemes rfl
      obtain ⟨kind, w, position⟩ := l
      obtain rfl : position = start := hplace
      obtain rfl := h.joined
      rw [List.flatMap_cons, List.append_assoc] at hread ⊢
      rw [lexFrom_of_reads exist nonempty (h.nonempty _ List.mem_cons_self) hread, ih h.tail,
        Except.map_map, List.length_append, Nat.add_assoc]
      rfl

theorem lex_of_cuts (exist : symbols ≠ []) (nonempty : [] ∉ symbols) {line : List Char}
    {lexemes : List Lexeme} (h : Cuts symbols 0 line lexemes []) :
    lex symbols line = .ok lexemes := by
  rw [lex, lexFrom_of_cuts exist nonempty lexemes h]
  simp [lexFrom, Except.map]

theorem lex_of_unread (exist : symbols ≠ []) (nonempty : [] ∉ symbols) {line rest : List Char}
    {lexemes : List Lexeme} (h : Cuts symbols 0 line lexemes rest) (hne : rest ≠ [])
    (hunread : Unread (alternatives symbols) rest) : lex symbols line =
      .error (.fault (.unreadable (Text.strip rest) (lexemes.flatMap Lexeme.text).length)) := by
  rw [lex, lexFrom_of_cuts exist nonempty lexemes h,
    lexFrom_of_unread exist nonempty hne hunread, Nat.zero_add]
  rfl

theorem lex_eq_ok_iff (exist : symbols ≠ []) (nonempty : [] ∉ symbols) {line : List Char}
    {lexemes : List Lexeme} : lex symbols line = .ok lexemes ↔ Cuts symbols 0 line lexemes [] := by
  refine ⟨fun h => ?_, lex_of_cuts exist nonempty⟩
  obtain ⟨cut, rest, hcuts, hrest⟩ := exists_cuts exist nonempty line 0
  by_cases hne : rest = []
  · subst hne
    rw [lex_of_cuts exist nonempty hcuts] at h
    rwa [← Except.ok.inj h]
  · rw [lex_of_unread exist nonempty hcuts hne (hrest.resolve_left hne)] at h
    cases h

theorem lex_eq_error_iff (exist : symbols ≠ []) (nonempty : [] ∉ symbols) {line : List Char}
    {failure : Failure} : lex symbols line = .error failure ↔
      ∃ lexemes rest, Cuts symbols 0 line lexemes rest ∧ rest ≠ [] ∧
        Unread (alternatives symbols) rest ∧
        failure = .fault (.unreadable (Text.strip rest) (lexemes.flatMap Lexeme.text).length) := by
  constructor
  · intro h
    obtain ⟨cut, rest, hcuts, hrest⟩ := exists_cuts exist nonempty line 0
    by_cases hne : rest = []
    · subst hne
      rw [lex_of_cuts exist nonempty hcuts] at h
      cases h
    · have hunread := hrest.resolve_left hne
      rw [lex_of_unread exist nonempty hcuts hne hunread] at h
      exact ⟨cut, rest, hcuts, hne, hunread, (Except.error.inj h).symm⟩
  · rintro ⟨lexemes, rest, hcuts, hne, hunread, rfl⟩
    exact lex_of_unread exist nonempty hcuts hne hunread

/-- **Lexing is maximal munch.** A line has just the lexemes into which the rule cuts it. Where it
has none, the fault is at the first place at which the rule, after it has cut all that stands
before, reads nothing. -/
theorem lex_maximal_munch (lexicon : Lexicon) (exist : lexicon.symbols ≠ [])
    (nonempty : [] ∉ lexicon.symbols) (line : List Char) :
    (∀ lexemes, lex lexicon.symbols line = .ok lexemes ↔ Cuts lexicon.symbols 0 line lexemes []) ∧
      ∀ failure, lex lexicon.symbols line = .error failure ↔
        ∃ lexemes rest, Cuts lexicon.symbols 0 line lexemes rest ∧ rest ≠ [] ∧
          Unread (alternatives lexicon.symbols) rest ∧
          failure = .fault (.unreadable (Text.strip rest) (lexemes.flatMap Lexeme.text).length) :=
  ⟨fun _ => lex_eq_ok_iff exist nonempty, fun _ => lex_eq_error_iff exist nonempty⟩

/-- A number takes its group of three and its point, and `sinh` goes before `sin`. Without the group
the number ends at its underscore, where nothing is read. -/
theorem lex_maximal_munch_groups :
    ({} : Lexicon).symbols ≠ [] ∧ [] ∉ ({} : Lexicon).symbols ∧
      Cuts ({} : Lexicon).symbols 0 "1_2345.sinhx".toList
        [⟨.number, "1_2345.".toList, 0⟩, ⟨.symbol, "sinh".toList, 7⟩, ⟨.word, ['x'], 11⟩] [] ∧
      ∃ lexemes rest, Cuts ({} : Lexicon).symbols 0 "x1_23".toList lexemes rest ∧ rest ≠ [] ∧
        Unread (alternatives ({} : Lexicon).symbols) rest ∧
        Failure.fault (.unreadable "_23".toList 2) =
          .fault (.unreadable (Text.strip rest) (lexemes.flatMap Lexeme.text).length) :=
  have exist : ({} : Lexicon).symbols ≠ [] := by decide
  have nonempty : [] ∉ ({} : Lexicon).symbols := by decide +kernel
  ⟨exist, nonempty, ((lex_maximal_munch {} exist nonempty _).1 _).mp (by decide +kernel),
    ((lex_maximal_munch {} exist nonempty _).2 _).mp (by decide +kernel)⟩

end Lexeme

end DecimalCalc
