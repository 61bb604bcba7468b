import DecimalCalc.Proofs.DisplayedNumbers
import DecimalCalc.Proofs.Resolution

/-!
# Words that are variables

Symbols are tried before words at each position. So a run of letters is a single variable exactly if
no symbol and no constant starts it (`Lexicon.tokenize_word_iff`): `exp` is the constant `e` times the
variable `xp`, and `sinus` is not a variable either.

**Such a word evaluates to what it is bound to, rounded to the precision** (`Calculator.evaluate_word`).
The number is written out in plain notation and read back, which keeps its value.
-/

set_option autoImplicit false

namespace DecimalCalc

/-! ## Words -/

namespace Lexeme

variable {symbols : List (List Char)} {w : List Char}

/-- No number starts with a letter. -/
theorem startsNone_letters (hw : w ∈ Text.run Text.isLetter) :
    StartsNone NumberLiteral.grammar w := by
  intro v hv hpre
  obtain ⟨c, rest, rfl⟩ := List.exists_cons_of_ne_nil (NumberLiteral.grammar_ne_nil hv)
  have hletter : Text.isLetter c = true := hw.2 c (hpre.subset List.mem_cons_self)
  rcases NumberLiteral.mem_grammar_chars _ hv c List.mem_cons_self with (hdigit | rfl) | rfl
  · rw [Text.isLetter_of_isDigit hdigit] at hletter
    cases hletter
  all_goals exact absurd hletter (by decide)

/-- **A run of letters that no symbol starts is a word.** -/
theorem alone_of_letters (hw : w ∈ Text.run Text.isLetter) (unstarted : ∀ s ∈ symbols, ¬s <+: w) :
    Alone symbols .word w := by
  obtain ⟨c, rest, rfl⟩ := List.exists_cons_of_ne_nil hw.1
  have hall : (rest.takeWhile Text.isLetter) = rest :=
    List.takeWhile_eq_self_iff.mpr fun d hd => hw.2 d (List.mem_cons_of_mem c hd)
  have hlongest := Text.longest_run (hw.2 c List.mem_cons_self) rest
  rw [hall] at hlongest
  exact .next (startsNone_letters hw) (.next unstarted (.first hlongest))

end Lexeme

/-- **A run of letters is a single variable** exactly if no symbol starts it. -/
theorem Lexicon.tokenize_word_iff {lexicon : Lexicon} (exist : lexicon.symbols ≠ [])
    {w : List Char} (hw : w ∈ Text.run Text.isLetter) :
    lexicon.tokenize w = .ok [Token.reference w] ↔ ∀ s ∈ lexicon.symbols, ¬s <+: w := by
  constructor
  · intro h
    exact (alone_of_reference h (List.mem_singleton_self _)).2.1.startsNone
  · intro unstarted
    have nonempty : [] ∉ lexicon.symbols := fun hmem => unstarted [] hmem List.nil_prefix
    exact tokenize_word exist nonempty (Lexeme.alone_of_letters hw unstarted)

/-! ## Numbers that are written out and read back -/

/-- The rounded value of a decimal whose rounding is known. -/
theorem Decimal.rounded_of_round {f : Format} (hp : 0 < f.precision) {d : Decimal}
    {result : Except Signal Decimal} (h : d.round f = result) :
    f.rounded d.value = result.map Decimal.value := by
  rw [← h]
  exact (Decimal.round_value (K := ℚ) hp d).symm

/-- **What a decimal is rounded to**: its rounded value, if there is one and the precision is not too
large. -/
theorem Number.plus_rounded {f : Format} (hp : 0 < f.precision) (d : Decimal) :
    (∀ v, f.precision ≤ Format.maxPrecision → f.rounded d.value = .ok v →
        ∃ y, Number.plus f (.finite d) = .ok (.finite y) ∧ y.value = v ∧ y.Fits f) ∧
      (Format.maxPrecision < f.precision ∨ (∃ signal, f.rounded d.value = .error signal) →
        ∃ signal, Number.plus f (.finite d) = .error signal) := by
  have hvalue := Decimal.plus_value hp d
  constructor
  · intro v hmax hv
    obtain ⟨y, hy, rfl⟩ := Except.map_eq_ok.mp (hvalue.trans hv)
    refine ⟨y, ?_, rfl, Decimal.plus_gives hp d y hy⟩
    rw [Number.plus, Number.lift₁_finite hmax, hy]
    rfl
  · intro hfail
    cases hplus : Number.plus f (.finite d) with
    | error signal => exact ⟨signal, rfl⟩
    | ok y =>
        -- a result is the rounded value, in a precision that is not too large
        obtain ⟨_, hcheck, hresult⟩ := Except.bind_eq_ok.mp hplus
        obtain ⟨z, hz, -⟩ := Except.map_eq_ok.mp hresult
        rcases hfail with hlarge | ⟨signal, hsignal⟩
        · exact absurd (Number.le_of_check hcheck) (by omega)
        · rw [hz, hsignal] at hvalue
          cases hvalue

/-- **A text that is read as a decimal** stands for the decimal, rounded. -/
theorem readLiteral_rounded {s : Settings} {text : List Char} {d : Decimal} (hplain : '_' ∉ text)
    (hread : Number.read? text = some (.finite d)) :
    (∀ v, s.precision ≤ Format.maxPrecision → s.format.rounded d.value = .ok v →
        ∃ y, readLiteral s text = .ok (.finite y) ∧ y.value = v ∧ y.Fits s.format) ∧
      (Format.maxPrecision < s.precision ∨ (∃ signal, s.format.rounded d.value = .error signal) →
        readLiteral s text = Outcome.fail (.notANumber text)) := by
  have hfilter : text.filter (· ≠ '_') = text := List.filter_eq_self.mpr fun c hc =>
    decide_eq_true (ne_of_mem_of_not_mem hc hplain)
  obtain ⟨hresult, hfailure⟩ := Number.plus_rounded (f := s.format) s.precision_pos d
  simp only [readLiteral, hfilter, hread]
  constructor
  · intro v hmax hv
    obtain ⟨y, hy, hfits⟩ := hresult v hmax hv
    exact ⟨y, by rw [hy], hfits⟩
  · intro hfail
    obtain ⟨signal, hsignal⟩ := hfailure hfail
    rw [hsignal]

/-- **The plain text of a decimal is read as the decimal**, rounded. -/
theorem readLiteral_plain_rounded {s : Settings} {d : Decimal}
    (highest : d.adjusted ≤ Decimal.maxWrittenPlace)
    (lowest : Decimal.minWrittenExponent ≤ d.exponent) :
    (∀ v, s.precision ≤ Format.maxPrecision → s.format.rounded d.value = .ok v →
        ∃ y, readLiteral s d.plain = .ok (.finite y) ∧ y.value = v ∧ y.Fits s.format) ∧
      (Format.maxPrecision < s.precision ∨ (∃ signal, s.format.rounded d.value = .error signal) →
        readLiteral s d.plain = Outcome.fail (.notANumber d.plain)) := by
  have hplain : '_' ∉ d.plain := fun hmem => (Decimal.isNumeric_of_mem_plain hmem).2 rfl
  have hread := readLiteral_rounded (s := s) hplain
    (Decimal.read?_plain_of_written highest lowest)
  have hvalue : d.rewritten.value = d.value := d.rewritten_same
  rwa [hvalue] at hread

namespace Calculator

variable {c : Calculator} {vars : Variables} {w : List Char}

/-- A variable that is bound to a number has its value. -/
theorem resolve_number {x : Number} (bound : vars.find? w = some (.number x)) :
    c.resolve vars w = .ok x := by
  rw [resolve_eq, valueAt_eq, valueWith, bound]

/-- **A word evaluates to the number that it is bound to**, as its plain text is read. -/
theorem evaluate_reference (x : Number) (htokens : c.tokenize w = .ok [Token.reference w])
    (bound : vars.find? w = some (.number x)) : c.evaluate w vars =
      ((readLiteral c.settings x.plain).mapError .ofOperation).map fun y => ⟨y, none⟩ := by
  have occurs : c.Occurs w w := ⟨_, htokens, List.mem_singleton_self _⟩
  have hsubstitute : c.substitute (c.resolve vars) [Token.reference w] =
      .ok [Token.number x.plain] := by
    rw [substitute_cons]
    show ((c.resolve vars w).map _).bind _ = _
    rw [resolve_number bound]
    rfl
  have hpolish : c.reversePolishWith (c.resolve vars) w = .ok [Token.number x.plain] := by
    rw [reversePolishWith, htokens]
    show (c.substitute _ _).bind _ = _
    rw [hsubstitute]
    rfl
  rw [evaluate, compute, evaluateWith_of_reversePolish hpolish occurs.not_blank]
  rfl

/-- **Words are variables.** A run of letters is a single variable exactly if no symbol and no constant
starts it. It then evaluates to the decimal that it is bound to, rounded to the precision. If this
exceeds the exponent range, or if the precision is too large for any number, the decimal is refused as
a literal would be. -/
theorem evaluate_word (c : Calculator) (w : List Char) (hw : w ∈ Text.run Text.isLetter) :
    (c.tokenize w = .ok [Token.reference w] ↔ ∀ s ∈ c.lexicon.symbols, ¬s <+: w) ∧
      ((∀ s ∈ c.lexicon.symbols, ¬s <+: w) → ∀ (vars : Variables) (d : Decimal),
        vars.find? w = some (.number (.finite d)) → d.adjusted ≤ Decimal.maxWrittenPlace →
          Decimal.minWrittenExponent ≤ d.exponent →
        (∀ v, c.settings.precision ≤ Format.maxPrecision →
          c.settings.format.rounded d.value = .ok v →
            ∃ y, c.evaluate w vars = .ok ⟨.finite y, none⟩ ∧ y.value = v ∧
              y.Fits c.settings.format) ∧
        (Format.maxPrecision < c.settings.precision ∨
            (∃ signal, c.settings.format.rounded d.value = .error signal) →
          c.evaluate w vars = .error (.fault (.domain (.notANumber d.plain))))) := by
  have hwords := Lexicon.tokenize_word_iff c.symbols_ne_nil hw
  constructor
  · exact hwords
  · intro unstarted vars d bound highest lowest
    have hevaluate : c.evaluate w vars =
        ((readLiteral c.settings d.plain).mapError .ofOperation).map fun y => ⟨y, none⟩ :=
      evaluate_reference (.finite d) (hwords.mpr unstarted) bound
    obtain ⟨hresult, hfailure⟩ := readLiteral_plain_rounded (s := c.settings) highest lowest
    constructor
    · intro v hmax hv
      obtain ⟨y, hy, hfits⟩ := hresult v hmax hv
      exact ⟨y, by rw [hevaluate, hy]; rfl, hfits⟩
    · intro hfail
      rw [hevaluate, hfailure hfail]
      rfl

/-- In three digits, where ties go to the even digit, the word `länge` has the value 2.34 if it is bound
to 2.345, and none if it is bound to a number that is rounded up to the power of ten beyond the
exponent range. -/
theorem evaluate_word_tie :
    let c : Calculator := { settings :=
      { Settings.initial with precision := 3, precision_pos := by decide, rounding := .halfEven } }
    let w := "länge".toList
    let large : Decimal := ⟨false, 99951, 999995⟩
    c.tokenize w = .ok [Token.reference w] ∧
      (∃ y, c.evaluate w (.ofList [(w, .number (.finite ⟨false, 2345, -3⟩))]) =
        .ok ⟨.finite y, none⟩ ∧ y.value = 2.34) ∧
      c.evaluate w (.ofList [(w, .number (.finite large))]) =
        .error (.fault (.domain (.notANumber large.plain))) := by
  intro c w large
  have hw : w ∈ Text.run Text.isLetter := ⟨by decide, List.all_eq_true.mp (by decide +kernel)⟩
  have unstarted : ∀ s ∈ c.lexicon.symbols, ¬s <+: w := by decide +kernel
  have bound : ∀ x, (Variables.ofList [(w, .number x)]).find? w = some (.number x) := fun _ => rfl
  obtain ⟨hword, hvalues⟩ := evaluate_word c w hw
  have hvalue := fun d => hvalues unstarted _ d (bound (.finite d))
  have htie : c.settings.format.rounded (Decimal.value ⟨false, 2345, -3⟩) = .ok 2.34 := by
    have hround : Decimal.round c.settings.format ⟨false, 2345, -3⟩ = .ok ⟨false, 234, -2⟩ := by
      decide +kernel
    rw [Decimal.rounded_of_round (by decide) hround]
    norm_num [Except.map, Decimal.value, Decimal.signed]
  have hlarge : c.settings.format.rounded large.value = .error .overflow := by
    have hround : large.round c.settings.format = .error .overflow := by decide +kernel
    exact Decimal.rounded_of_round (by decide) hround
  refine ⟨hword.mpr unstarted, ?_, ?_⟩
  · obtain ⟨y, hy, heq, -⟩ := (hvalue ⟨false, 2345, -3⟩ (by decide +kernel)
      (by decide +kernel)).1 _ (by decide) htie
    exact ⟨y, hy, heq⟩
  · exact (hvalue large (by decide +kernel) (by decide +kernel)).2 (.inr ⟨_, hlarge⟩)

/-- **Not every word that is no symbol is a variable**, and not every variable has a value: `ex` is a
product, as the constant `e` is read first; and a number beyond the exponent range is refused. -/
theorem evaluate_word_product :
    let w := "ex".toList
    let large : Decimal := ⟨false, 1, 1000000⟩
    w ∈ Text.run Text.isLetter ∧ w ∉ ({} : Calculator).lexicon.symbols ∧
      ({} : Calculator).tokenize w =
        .ok [Token.constant ['e'], Token.operator ['*'], Token.reference ['x']] ∧
      ({} : Calculator).evaluate ['x'] (.ofList [(['x'], .number (.finite large))]) =
        .error (.fault (.domain (.notANumber large.plain))) := by
  intro w large
  have hlarge : Settings.initial.format.rounded large.value = .error .overflow := by
    have hround : large.round Settings.initial.format = .error .overflow := by decide +kernel
    exact Decimal.rounded_of_round (by decide) hround
  have hread : readLiteral Settings.initial large.plain = Outcome.fail (.notANumber large.plain) :=
    (readLiteral_plain_rounded (by decide +kernel) (by decide +kernel)).2 (.inr ⟨_, hlarge⟩)
  have hw : w ∈ Text.run Text.isLetter := ⟨by decide, List.all_eq_true.mp (by decide +kernel)⟩
  refine ⟨hw, by decide +kernel, by decide +kernel, ?_⟩
  rw [evaluate_reference (.finite large) (by decide +kernel) rfl]
  show ((readLiteral Settings.initial large.plain).mapError _).map _ = _
  rw [hread]
  rfl

end Calculator

end DecimalCalc
