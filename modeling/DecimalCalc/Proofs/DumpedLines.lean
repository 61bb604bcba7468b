import DecimalCalc.CommandLine.Run
import DecimalCalc.Proofs.Acceptance
import DecimalCalc.Proofs.DisplayedNumbers
import DecimalCalc.Proofs.KnownTokens
import DecimalCalc.Proofs.PrecisionClosure
import DecimalCalc.Proofs.StillRuns
import Mathlib.Data.List.Forall2

/-!
# What a dump says

A dumped line shows in its right column what the machine would run: numbers as they are, and symbols
with the counts of their operands. The column can be read back (`readDump`). It is split at its
spaces, and an item is cut at its *last* slash, since the slash is a symbol itself. Numbers hold no
slash and no item holds a space, so nothing is lost but which symbols are functions, and the machine
treats functions and operators alike.

So a dump and an evaluation of one line never disagree (`report?_dump`): a line that cannot be dumped
cannot be evaluated for the same reason, and from any other dump the result of the line can be
computed.
-/

set_option autoImplicit false

namespace DecimalCalc

open Except

/-! ## Reading a dump -/

namespace CommandLine

/-- What an item of a dump says: the text of a number, or a symbol with the count of its operands. -/
inductive Item
  | number (text : List Char)
  | symbol (symbol arity : List Char)
  deriving DecidableEq

/-- Cuts an item at its last slash. An item without a slash is a number. -/
def readItem (item : List Char) : Item :=
  match item.reverse.dropWhile (· != '/') with
  | [] => .number item
  | _ :: symbol => .symbol symbol.reverse (item.reverse.takeWhile (· != '/')).reverse

/-- The right column of a dumped line, after the tab. -/
def rightColumn (text : List Char) : List Char := (text.dropWhile (· != '\t')).drop 1

/-- The items of a column, which single spaces set apart. -/
def itemsOf (column : List Char) : List (List Char) :=
  if column = [] then [] else column.splitOn ' '

/-- What a dumped line says. -/
def readDump (text : List Char) : List Item := (itemsOf (rightColumn text)).map readItem

/-- **The tokens that an item may stand for.** It does not say whether a symbol is a function. -/
inductive Item.StandsFor : Item → Token → Prop
  | number (text : List Char) : StandsFor (.number text) (Token.number text)
  | operator (symbol arity : List Char) : StandsFor (.symbol symbol arity) (Token.operator symbol)
  | function (symbol arity : List Char) : StandsFor (.symbol symbol arity) (Token.function symbol)

theorem itemsOf_intercalate {items : List (List Char)}
    (h : ∀ item ∈ items, item ≠ [] ∧ ' ' ∉ item) : itemsOf ([' '].intercalate items) = items := by
  cases items with
  | nil => rfl
  | cons item items =>
      have hne : [' '].intercalate (item :: items) ≠ [] := by
        obtain ⟨first, rest, rfl⟩ := List.exists_cons_of_ne_nil (h item List.mem_cons_self).1
        cases items <;> simp [List.intercalate]
      rw [itemsOf, if_neg hne]
      exact List.splitOn_intercalate ' ' (fun item hitem => (h item hitem).2)
        (List.cons_ne_nil item items)

theorem rightColumn_append {left : List Char} (h : '\t' ∉ left) (right : List Char) :
    rightColumn (left ++ '\t' :: right) = right := by
  have hleft : ∀ c ∈ left, (c != '\t') = true := fun c hc =>
    bne_iff_ne.mpr fun heq => h (heq ▸ hc)
  rw [rightColumn, List.dropWhile_append_of_pos hleft]
  rfl

theorem readItem_number {text : List Char} (h : '/' ∉ text) : readItem text = .number text := by
  have hdrop : text.reverse.dropWhile (· != '/') = [] :=
    List.dropWhile_eq_nil_iff.mpr fun c hc =>
      bne_iff_ne.mpr fun heq => h (heq ▸ List.mem_reverse.mp hc)
  rw [readItem, hdrop]

theorem readItem_symbol (symbol : List Char) {arity : List Char} (h : '/' ∉ arity) :
    readItem (symbol ++ '/' :: arity) = .symbol symbol arity := by
  have hpos : ∀ c ∈ arity.reverse, (c != '/') = true := fun c hc =>
    bne_iff_ne.mpr fun heq => h (heq ▸ List.mem_reverse.mp hc)
  have hreverse : (symbol ++ '/' :: arity).reverse = arity.reverse ++ '/' :: symbol.reverse := by
    simp
  rw [readItem, hreverse, List.dropWhile_append_of_pos hpos, List.takeWhile_append_of_pos hpos]
  simp

end CommandLine

/-! ## The texts of tokens -/

namespace Text

theorem digitChar_ne_tab (n : Nat) : Nat.digitChar (n % 16) ≠ '\t' := by
  have hdigits : ∀ d < 16, Nat.digitChar d ≠ '\t' := by decide
  exact hdigits _ (Nat.mod_lt n (by decide))

theorem tab_notMem_hexadecimal (width : Nat) : ∀ n, '\t' ∉ hexadecimal width n := by
  induction width with
  | zero => exact fun n => List.not_mem_nil
  | succ width ih =>
      intro n
      rw [hexadecimal, List.mem_append, List.mem_singleton, not_or]
      exact ⟨ih _, (digitChar_ne_tab n).symm⟩

theorem tab_notMem_escapedPoint (point : Nat) : '\t' ∉ escapedPoint point := by
  unfold escapedPoint
  split_ifs <;> simp [tab_notMem_hexadecimal]

theorem tab_notMem_quotedChar {quote : Char} (h : quote ≠ '\t') (c : Char) :
    '\t' ∉ quotedChar quote c := by
  unfold quotedChar
  split_ifs with hescaped _ _ htab
  · rw [Bool.or_eq_true, decide_eq_true_eq, decide_eq_true_eq] at hescaped
    rcases hescaped with rfl | rfl <;> simp [h.symm]
  · decide
  · decide
  · decide
  · simpa using Ne.symm htab
  · exact tab_notMem_escapedPoint _

/-- Quoting a text escapes its tabs. -/
theorem tab_notMem_quoted (text : List Char) : '\t' ∉ quoted text := by
  have hquote : quoteFor text ≠ '\t' := by
    unfold quoteFor
    split <;> decide
  rw [quoted]
  simp only [List.mem_append, List.mem_cons, List.mem_flatMap, List.not_mem_nil, or_false]
  rintro ((h | ⟨c, _, hc⟩) | h)
  · exact hquote h.symm
  · exact tab_notMem_quotedChar hquote c hc
  · exact hquote h.symm

/-- What is left of a line has something in it that is not blank. -/
theorem not_blank_strip {line : List Char} (h : strip line ≠ []) :
    (strip line).all isBlank = false := by
  rw [strip] at h ⊢
  rw [List.all_reverse]
  generalize (line.dropWhile isBlank).reverse = text at h ⊢
  have hne : text.dropWhile isBlank ≠ [] := fun hnil => h (by rw [hnil]; rfl)
  have hhead := List.head_dropWhile_not isBlank hne
  exact List.all_eq_false.mpr ⟨_, List.head_mem hne, by simpa using hhead⟩

end Text

namespace Token

/-- If the token is a number, something is written for it. -/
def Filled (t : Token) : Prop := t.kind = .number → t.text ≠ []

theorem Spells.filled {lexicon : Lexicon} {last : Option Token} {t : Token}
    (h : Spells lexicon last t) : t.Filled := by
  cases h with
  | number mem => exact fun _ => NumberLiteral.grammar_ne_nil mem
  | negative mem => exact fun _ => List.cons_ne_nil _ _
  | reference | leftParen | rightParen | separator | constant => exact nofun
  | symbol _ _ _ read =>
      intro hkind
      rcases (ofSymbol_eq_ok (read 0)).1 with heq | heq <;> rw [heq] at hkind <;> cases hkind

end Token

namespace Calculator

variable {c : Calculator} {valueOf : List Char → Drawing Failure Number} {text : List Char}

theorem filled_plain {x : Number} (h : x.IsFinite) : (Token.number x.plain).Filled := by
  obtain ⟨d, rfl⟩ := h
  intro _ hnil
  have hblank := plain_not_blank d
  rw [show d.plain = [] from hnil] at hblank
  cases hblank

theorem substituteToken_filled (hvalue : ∀ name, (valueOf name).Gives Number.IsFinite) {t : Token}
    (h : t.Filled) : (c.substituteToken valueOf t).Gives Token.Filled := by
  unfold substituteToken
  split
  · refine Drawing.gives_still (Gives.map (Gives.mono (P := Number.IsFinite) ?_
      fun _ => filled_plain))
    unfold constantValue
    split
    · exact ((Constant.value_gives _ _).mono fun _ => Number.Fits.isFinite).mapError _
    · exact gives_error _
  · exact Drawing.Gives.map ((hvalue _).mono fun _ => filled_plain)
  · exact Drawing.gives_ok h

section

variable (builtin : c.registry = .builtin)

include builtin

theorem tokenize_filled : (c.tokenize text).Gives fun tokens => ∀ t ∈ tokens, t.Filled := by
  intro tokens h t ht
  rw [tokenize, lexicon_of_builtin builtin] at h
  obtain ⟨before, after, rfl⟩ := List.append_of_mem ht
  exact ((Lexicon.tokenize_spelled Lexicon.builtin_legible h).1.spells rfl).filled

/-- The numbers that the machine runs are written with some characters. -/
theorem reversePolishWith_filled (hvalue : ∀ name, (valueOf name).Gives Number.IsFinite) :
    (c.reversePolishWith valueOf text).Gives fun tokens => ∀ t ∈ tokens, t.Filled := by
  intro out hout t ht
  obtain ⟨tokens, replaced, htokens, hreplaced, hreorder⟩ := reversePolishWith_inv hout
  have hmem := ReversePolish.reorder_subset hreorder t ht
  obtain ⟨u, hu, hreplace⟩ := exists_of_mem_substitute hreplaced t hmem
  exact substituteToken_filled hvalue (tokenize_filled builtin tokens htokens u hu) t hreplace

end

end Calculator

/-! ## Items -/

namespace CommandLine

/-- **An item that can be read back**: it can be told from its neighbours in a column, and the count
that it gives to a symbol is that of the registry. -/
structure Readable (registry : Registry) (item : List Char) : Prop where
  nonempty : item ≠ []
  unbroken : ∀ c ∈ item, c ≠ ' ' ∧ c ≠ '\t'
  arity : ∀ symbol arity, readItem item = .symbol symbol arity →
    ∃ entry, registry.lookup symbol = .ok entry ∧ arity = numeral entry.arity

/-- An item tells a token if it can be read back as that token. -/
def Tells (registry : Registry) (item : List Char) (t : Token) : Prop :=
  Readable registry item ∧ (readItem item).StandsFor t

theorem unbroken_of_isNumeric {c : Char} (h : IsNumeric c) : c ≠ ' ' ∧ c ≠ '\t' ∧ c ≠ '/' := by
  rcases h with h | rfl | rfl | rfl
  · refine ⟨?_, ?_, ?_⟩ <;> rintro rfl <;> exact absurd h (by decide)
  all_goals decide

theorem unbroken_of_builtin {entry : Entry} (h : entry ∈ Registry.builtin.entries) :
    ∀ c ∈ entry.symbol, c ≠ ' ' ∧ c ≠ '\t' := by
  intro c hc
  have hsymbol : entry.symbol ∈ ({} : Lexicon).symbols :=
    List.mem_append_left _ (List.mem_map.mpr ⟨entry, h, rfl⟩)
  have hspace := Lexicon.builtin_legible.unspaced _ hsymbol c hc
  refine ⟨?_, ?_⟩ <;> rintro rfl <;> exact absurd hspace (by decide)

theorem tells_number {registry : Registry} {text : List Char}
    (filled : (Token.number text).Filled) (numeric : (Token.number text).Numeric) :
    Tells registry text (Token.number text) := by
  have hchars : ∀ c ∈ text, c ≠ ' ' ∧ c ≠ '\t' ∧ c ≠ '/' := fun c hc =>
    unbroken_of_isNumeric (numeric rfl c hc)
  have hread : readItem text = .number text :=
    readItem_number fun hmem => (hchars '/' hmem).2.2 rfl
  refine ⟨⟨filled rfl, fun c hc => ⟨(hchars c hc).1, (hchars c hc).2.1⟩, ?_⟩, ?_⟩
  · rw [hread]
    exact nofun
  · rw [hread]
    exact .number text

theorem tells_symbol {t : Token} {entry : Entry} (hkind : t.kind = .function ∨ t.kind = .operator)
    (hentry : Registry.builtin.lookup t.text = .ok entry) :
    Tells Registry.builtin (t.text ++ '/' :: numeral entry.arity) t := by
  have hnumeral : ∀ c ∈ numeral entry.arity, c ≠ ' ' ∧ c ≠ '\t' ∧ c ≠ '/' := fun c hc =>
    unbroken_of_isNumeric (.inl (isDigit_of_mem_numeral hc))
  have hread := readItem_symbol t.text fun hmem => (hnumeral '/' hmem).2.2 rfl
  refine ⟨⟨by simp, fun c hc => ?_, ?_⟩, ?_⟩
  · obtain ⟨hmem, hsymbol⟩ := Registry.mem_of_lookup hentry
    rcases List.mem_append.mp hc with hc | hc
    · exact unbroken_of_builtin hmem c (hsymbol ▸ hc)
    · rcases List.mem_cons.mp hc with rfl | hc
      · decide
      · exact ⟨(hnumeral c hc).1, (hnumeral c hc).2.1⟩
  · rw [hread]
    rintro _ _ ⟨⟩
    exact ⟨entry, hentry, rfl⟩
  · rw [hread]
    obtain ⟨kind, text⟩ := t
    rcases hkind with rfl | rfl
    · exact .function _ _
    · exact .operator _ _

/-- **A token that can be run is described**, and the description tells it. -/
theorem exists_describe {t : Token} (runnable : Token.Runnable Registry.builtin t)
    (filled : t.Filled) (numeric : t.Numeric) :
    ∃ item, describe Registry.builtin t = .ok item ∧ Tells Registry.builtin item t := by
  cases runnable with
  | number text => exact ⟨text, rfl, tells_number filled numeric⟩
  | symbol listed =>
      obtain ⟨entry, hentry⟩ := listed.lookup
      refine ⟨_, ?_, tells_symbol listed.kind hentry⟩
      have hkind : t.kind ≠ .number := by
        rcases listed.kind with h | h <;> rw [h] <;> decide
      rw [describe, if_neg hkind, hentry]
      rfl

theorem exists_descriptions {tokens : List Token}
    (h : ∀ t ∈ tokens, Token.Runnable Registry.builtin t ∧ t.Filled ∧ t.Numeric) :
    ∃ items, tokens.mapM (describe Registry.builtin) = .ok items ∧
      List.Forall₂ (Tells Registry.builtin) items tokens := by
  induction tokens with
  | nil => exact ⟨[], rfl, .nil⟩
  | cons t tokens ih =>
      obtain ⟨⟨runnable, filled, numeric⟩, hrest⟩ := List.forall_mem_cons.mp h
      obtain ⟨item, hitem, tells⟩ := exists_describe runnable filled numeric
      obtain ⟨items, hitems, hall⟩ := ih hrest
      refine ⟨item :: items, ?_, .cons tells hall⟩
      rw [List.mapM_cons, hitem, hitems]
      rfl

/-! ## Columns -/

/-- What is joined with spaces holds no tab, if its parts do not. -/
theorem tab_notMem_column {items : List (List Char)} (h : ∀ item ∈ items, '\t' ∉ item) :
    '\t' ∉ [' '].intercalate items := by
  induction items with
  | nil => decide
  | cons item items ih =>
      obtain ⟨hitem, hitems⟩ := List.forall_mem_cons.mp h
      cases items with
      | nil => simpa using hitem
      | cons next items =>
          have hrest := ih hitems
          simp only [List.intercalate_cons_cons, List.mem_append, List.mem_singleton, not_or]
          exact ⟨⟨hitem, by decide⟩, hrest⟩

/-- A dump with a readable right column is read as the items of that column. -/
theorem readDump_columns {registry : Registry} (tokens : List Token) {items : List (List Char)}
    (h : ∀ item ∈ items, Readable registry item) :
    let text := [' '].intercalate (tokens.map fun token => Text.quoted token.text) ++
      '\t' :: [' '].intercalate items
    text.count '\t' = 1 ∧ readDump text = items.map readItem := by
  have hleft : '\t' ∉ [' '].intercalate (tokens.map fun token => Text.quoted token.text) := by
    refine tab_notMem_column fun quoted hquoted => ?_
    obtain ⟨token, _, rfl⟩ := List.mem_map.mp hquoted
    exact Text.tab_notMem_quoted token.text
  have hright : '\t' ∉ [' '].intercalate items :=
    tab_notMem_column fun item hitem htab => ((h item hitem).unbroken '\t' htab).2 rfl
  have hitems : itemsOf ([' '].intercalate items) = items :=
    itemsOf_intercalate fun item hitem =>
      ⟨(h item hitem).nonempty, fun hspace => ((h item hitem).unbroken ' ' hspace).1 rfl⟩
  constructor
  · rw [List.count_append, List.count_cons_self, List.count_eq_zero_of_not_mem hleft,
      List.count_eq_zero_of_not_mem hright]
  · rw [readDump, rightColumn_append hleft, hitems]

end CommandLine

/-! ## Running what has been read back -/

namespace Machine

open CommandLine

variable {registry : Registry} {s : Settings}

/-- The machine takes functions for operators. -/
theorem step_standsFor {item : Item} {t t' : Token} (h : item.StandsFor t) (h' : item.StandsFor t')
    (stack : List Value) : step registry s stack t = step registry s stack t' := by
  cases h <;> cases h' <;> rfl

theorem run_standsFor {items : List Item} {tokens tokens' : List Token}
    (h : List.Forall₂ Item.StandsFor items tokens) (h' : List.Forall₂ Item.StandsFor items tokens') :
    ∀ stack, run registry s stack tokens = run registry s stack tokens' := by
  induction h generalizing tokens' with
  | nil =>
      cases h'
      exact fun _ => rfl
  | cons head rest ih =>
      cases h' with
      | cons head' rest' =>
          intro stack
          rw [run_cons, run_cons, step_standsFor head head']
          exact congrArg _ (funext fun stack' => ih rest' stack')

/-- **All that the items stand for is run alike.** -/
theorem evaluate_standsFor {items : List Item} {tokens tokens' : List Token}
    (h : List.Forall₂ Item.StandsFor items tokens) (h' : List.Forall₂ Item.StandsFor items tokens') :
    evaluate registry s tokens = evaluate registry s tokens' := by
  rw [evaluate, evaluate, run_standsFor h h']

end Machine

/-! ## Lines -/

namespace CommandLine

theorem reportOn_ne_none (x : Except Failure (List Char)) : reportOn x ≠ .ok none := by
  unfold reportOn
  split <;> simp

theorem eq_ok_of_reportOn {x : Except Failure (List Char)} {text : List Char}
    (h : reportOn x = .ok (some (.result text))) : x = .ok text := by
  unfold reportOn at h
  split at h <;> simp_all

theorem report?_of_ne_nil {line : List Char} (h : Text.strip line ≠ []) (c : Calculator)
    (task : Task) (grouping : Bool) : report? c task grouping line =
      reportOn ((perform c task grouping (Text.strip line)).outcome c.generator) := by
  rw [report?, reportFrom, if_neg (by simpa using h)]
  rfl

theorem report?_of_nil {line : List Char} (h : Text.strip line = []) (c : Calculator)
    (task : Task) (grouping : Bool) : report? c task grouping line = .ok none := by
  rw [report?, reportFrom, if_pos (by simpa using h)]
  rfl

/-- **A dump fails as reverse Polish order does**, and else tells the tokens in that order. -/
theorem dump_cases {c : Calculator} (builtin : c.registry = .builtin) (text : List Char) :
    (∃ failure, dump c text = .error failure ∧ c.reversePolish text = .error failure) ∨
    ∃ shown ordered, dump c text = .ok shown ∧ c.reversePolish text = .ok ordered ∧
      shown.count '\t' = 1 ∧
      List.Forall₂ Item.StandsFor (readDump shown) ordered ∧
      ∀ symbol arity, Item.symbol symbol arity ∈ readDump shown →
        ∃ entry, c.registry.lookup symbol = .ok entry ∧ arity = numeral entry.arity := by
  have hvars : Calculator.Finite {} := nofun
  have hfinite : ∀ name, (c.resolve {} name).Gives Number.IsFinite :=
    Calculator.valueOf_gives builtin hvars _ _
  cases htokens : c.tokenize text with
  | error failure =>
      refine .inl ⟨failure, ?_, ?_⟩
      · rw [dump, htokens]
        rfl
      · rw [Calculator.reversePolish, Calculator.reversePolishWith, htokens]
        rfl
  | ok tokens =>
      cases hordered : c.reversePolish text with
      | error failure =>
          refine .inl ⟨failure, ?_, rfl⟩
          rw [dump, htokens, hordered]
          rfl
      | ok ordered =>
          -- the tokens run, hold no references and name finite numbers, so that each is described
          have hyields := Drawing.yields_of_outcome hordered
          have hrunnable := Calculator.reversePolishWith_runnable builtin hyields
          have hfilled := Calculator.reversePolishWith_filled builtin hfinite ordered hyields
          have hnumeric := Calculator.reversePolishWith_gives builtin hfinite text ordered hyields
          rw [builtin] at hrunnable
          obtain ⟨items, hitems, tells⟩ := exists_descriptions fun t ht =>
            ⟨hrunnable t ht, hfilled t ht, hnumeric t ht⟩
          obtain ⟨readable, stand⟩ := (List.forall₂_and_left _ _).mp tells
          obtain ⟨hcount, hread⟩ := readDump_columns tokens readable
          refine .inr ⟨_, ordered, ?_, rfl, hcount, ?_, ?_⟩
          · rw [dump, htokens, hordered, builtin]
            simp only [bind, Except.bind, hitems]
            rfl
          · rw [hread]
            exact List.forall₂_map_left_iff.mpr stand
          · intro symbol arity hmem
            rw [hread] at hmem
            obtain ⟨item, hitem, heq⟩ := List.mem_map.mp hmem
            rw [builtin]
            exact (readable item hitem).arity symbol arity heq

/-- Without variables nothing is drawn before the tokens are run. -/
theorem perform_evaluate (c : Calculator) (grouping : Bool) {text : List Char}
    (hblank : text.all Text.isBlank = false) :
    (perform c .evaluate grouping text).outcome c.generator =
      (c.reversePolish text).bind fun ordered =>
        ((Machine.evaluate c.registry c.settings ordered).outcome c.generator).bind fun x =>
          c.display x grouping := by
  have hpolish : (c.reversePolishWith (c.resolve {}) text).IsStill := by
    refine Calculator.reversePolishWith_isStill fun name _ => ?_
    rw [Calculator.resolve_eq, Calculator.valueAt_eq]
    exact Drawing.isStill_still _
  show ((c.compute text).bind _).outcome c.generator = _
  rw [Calculator.compute_eq c hblank, hpolish.eq_still c.generator, Drawing.bind_assoc,
    Drawing.outcome_bind]
  refine congrArg _ (funext fun ordered => ?_)
  rw [Drawing.outcome_bind]
  rfl

/-- **A dump tells the truth about the evaluation.** Every line that is not blank is reported on, or
ends the run. What is wrong with its dump is wrong with its evaluation. Any other dump has two
columns, and the right one is read back as the tokens that are run, with the counts of operands that
the registry knows; to run whatever it may be read as, and to show the result, is to evaluate the
line. -/
theorem report?_dump (s : Settings) (generator : Generator) (grouping : Bool)
    (line : List Char) :
    let c : Calculator := { settings := s, generator }
    (Text.strip line ≠ [] → report? c .dump grouping line ≠ .ok none) ∧
    (∀ message, report? c .dump grouping line = .ok (some (.fault message)) →
      report? c .evaluate grouping line = .ok (some (.fault message))) ∧
    (∀ failure, report? c .dump grouping line = .error failure →
      report? c .evaluate grouping line = .error failure) ∧
    ∀ text, report? c .dump grouping line = .ok (some (.result text)) →
      text.count '\t' = 1 ∧
      (∃ ordered, c.reversePolish (Text.strip line) = .ok ordered ∧
        List.Forall₂ Item.StandsFor (readDump text) ordered) ∧
      (∀ symbol arity, Item.symbol symbol arity ∈ readDump text →
        ∃ entry, c.registry.lookup symbol = .ok entry ∧ arity = numeral entry.arity) ∧
      ∀ tokens, List.Forall₂ Item.StandsFor (readDump text) tokens →
        report? c .evaluate grouping line =
          reportOn (((Machine.evaluate c.registry c.settings tokens).outcome generator).bind
            fun x => c.display x grouping) := by
  intro c
  by_cases hline : Text.strip line = []
  · have hnone := report?_of_nil hline c .dump grouping
    refine ⟨fun h => absurd hline h, fun message h => ?_, fun failure h => ?_, fun text h => ?_⟩ <;>
      rw [hnone] at h <;> cases h
  have hevaluate := perform_evaluate c grouping (Text.not_blank_strip hline)
  rw [report?_of_ne_nil hline, report?_of_ne_nil hline]
  rcases dump_cases (c := c) rfl (Text.strip line) with
    ⟨failure, hdump, hordered⟩ | ⟨shown, ordered, hdump, hordered, hcount, stand, harity⟩
  · -- both tasks end with the same failure
    have hdump' : (perform c .dump grouping (Text.strip line)).outcome c.generator =
        .error failure := hdump
    have hevaluate' : (perform c .evaluate grouping (Text.strip line)).outcome c.generator =
        .error failure := by
      rw [hevaluate, hordered]
      rfl
    rw [hdump', hevaluate']
    exact ⟨fun _ => reportOn_ne_none _, fun _ => id, fun _ => id, fun text h =>
      nomatch eq_ok_of_reportOn h⟩
  · have hdump' : (perform c .dump grouping (Text.strip line)).outcome c.generator =
        .ok shown := hdump
    rw [hdump']
    refine ⟨fun _ => reportOn_ne_none _, nofun, nofun, fun text h => ?_⟩
    obtain rfl : shown = text := Except.ok.inj (eq_ok_of_reportOn h)
    refine ⟨hcount, ⟨ordered, hordered, stand⟩, harity, fun tokens htokens => ?_⟩
    rw [hevaluate, hordered, Machine.evaluate_standsFor htokens stand]
    rfl

/-- In the dump of two quotients the slash is a symbol, and stands before the counts of operands. -/
theorem report?_dump_quotients :
    let line := " 6/3/sqrt(4) ".toList
    let shown := "'6' '/' '3' '/' 'sqrt' '(' '4' ')'\t6 3 //2 4 sqrt/1 //2".toList
    let two := ['2']
    let tokens := [Token.number ['6'], .number ['3'], .operator ['/'], .number ['4'],
      .operator "sqrt".toList, .operator ['/']]
    report? {} .dump false line = .ok (some (.result shown)) ∧
    readDump shown = [.number ['6'], .number ['3'], .symbol ['/'] two, .number ['4'],
      .symbol "sqrt".toList ['1'], .symbol ['/'] two] ∧
    report? {} .evaluate false line = reportOn
      (((Machine.evaluate Registry.builtin .initial tokens).outcome default).bind fun x =>
        ({} : Calculator).display x false) ∧
    report? {} .evaluate false line = .ok (some (.result ['1'])) := by
  intro line shown two tokens
  have hshown : report? {} .dump false line = .ok (some (.result shown)) := by decide +kernel
  have hread : readDump shown = [.number ['6'], .number ['3'], .symbol ['/'] two, .number ['4'],
      .symbol "sqrt".toList ['1'], .symbol ['/'] two] := by
    decide +kernel
  obtain ⟨_, _, _, hresult⟩ := report?_dump .initial default false line
  refine ⟨hshown, hread, (hresult shown hshown).2.2.2 tokens ?_, by decide +kernel⟩
  rw [hread]
  exact .cons (.number _) (.cons (.number _) (.cons (.operator _ _) (.cons (.number _)
    (.cons (.operator _ _) (.cons (.operator _ _) .nil)))))

end CommandLine

end DecimalCalc
