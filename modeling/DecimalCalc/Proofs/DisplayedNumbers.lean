import DecimalCalc.Proofs.Acceptance
import DecimalCalc.Proofs.TokenPlaces
import DecimalCalc.Proofs.ValueRuns

/-!
# Displayed numbers are typed back

Where a locale has the decimal point of expressions, **the text that a decimal is shown as evaluates
to the same number again** (`Calculator.evaluate_displayed`).

A number is trimmed before it is shown, which keeps its value. Its plain text is then digits, with a
point and further digits or without, after a minus sign or none: a number literal that is canonical
as it stands. So it is a single token, and read as the same value. It may have more digits than the
precision, where zeros stand for a positive exponent, but rounding drops just these.
-/

set_option autoImplicit false

namespace DecimalCalc

open Except

/-! ## Canonical texts -/

namespace NumberLiteral

theorem form_cases {w : List Char} (h : w ∈ canonicalForm) :
    ∃ whole ∈ Text.run Text.isDigit, w = whole ∨
      ∃ digits ∈ Text.run Text.isDigit, w = whole ++ '.' :: digits := by
  rcases h with hwhole | ⟨whole, hwhole, _, ⟨_, rfl, digits, hdigits, rfl⟩, rfl⟩
  · exact ⟨w, hwhole, .inl rfl⟩
  · exact ⟨whole, hwhole, .inr ⟨digits, hdigits, rfl⟩⟩

theorem form_le_grammar {w : List Char} (h : w ∈ canonicalForm) : w ∈ grammar := by
  obtain ⟨whole, hwhole, rfl | ⟨digits, hdigits, rfl⟩⟩ := form_cases h
  · exact run_mem_grammar hwhole
  · exact point_mem_grammar hwhole hdigits

/-- **Digits with or without a point between them are canonical.** -/
theorem canonical_of_form {w : List Char} (h : w ∈ canonicalForm) : canonical w = w := by
  have hkeep : ∀ {digits : List Char}, digits ∈ Text.run Text.isDigit →
      digits.filter (· ≠ '_') = digits := fun hdigits =>
    List.filter_eq_self.mpr fun c hc => by simpa using ne_underscore (hdigits.2 c hc)
  have hhead : '.' ∉ w.head? := fun hpoint =>
    absurd (head?_canonicalForm h '.' hpoint) (by decide)
  obtain ⟨whole, hwhole, rfl | ⟨digits, hdigits, rfl⟩⟩ := form_cases h
  · rw [canonical_eq, hkeep hwhole, withLeadingZero_of_ne hhead]
    simpa using rdropWhile_append_run (w := []) hwhole
  · have hfilter : (whole ++ '.' :: digits).filter (· ≠ '_') = whole ++ '.' :: digits := by
      rw [List.filter_append, List.filter_cons_of_pos (by decide), hkeep hwhole, hkeep hdigits]
    rw [canonical_eq, hfilter, withLeadingZero_of_ne hhead, List.append_cons]
    exact rdropWhile_append_run hdigits

end NumberLiteral

namespace Decimal

open NumberLiteral

theorem run_of_digits {row : List Nat} (hne : row ≠ []) (h : ∀ d ∈ row, d < 10) :
    row.map digitChar ∈ Text.run Text.isDigit := by
  refine ⟨by simpa using hne, fun c hc => ?_⟩
  obtain ⟨d, hd, rfl⟩ := List.mem_map.mp hc
  exact isDigit_digitChar (h d hd)

/-- **A plain text is canonical** after its sign. -/
theorem plainBody_mem_form (d : Decimal) : d.plainBody ∈ canonicalForm := by
  have hdigits : ∀ n ∈ digitsOf d.coefficient, n < 10 := fun _ => mem_digitsOf
  have hnumeral : numeral d.coefficient ∈ Text.run Text.isDigit :=
    run_of_digits (digitsOf_ne_nil _) hdigits
  unfold plainBody
  split
  · obtain ⟨whole, fraction, hsplit, hwhole, -, htext⟩ :=
      withPoint_parts (digitsOf d.coefficient) d.exponent.natAbs
    have hrow : ∀ n ∈ whole ++ fraction, n < 10 := fun n hn => mem_pointRow hdigits (hsplit ▸ hn)
    have hintegral := run_of_digits hwhole fun n hn => hrow n (List.mem_append_left _ hn)
    rw [numeral, htext]
    split
    · exact .inl hintegral
    · rename_i hfraction
      exact point_mem_form hintegral
        (run_of_digits hfraction fun n hn => hrow n (List.mem_append_right _ hn))
  · split
    · exact .inl hnumeral
    · refine .inl ⟨by simp [hnumeral.1], fun c hc => ?_⟩
      rcases List.mem_append.mp hc with hc | hc
      · exact hnumeral.2 c hc
      · rw [(List.mem_replicate.mp hc).2]
        decide

end Decimal

/-! ## Layout -/

section Layout

variable {whole fraction : List Char}

/-- Digits around a point, or digits without one. -/
def withFraction (whole fraction : List Char) : List Char :=
  if fraction = [] then whole else whole ++ '.' :: fraction

theorem takeWhile_withFraction (hwhole : ∀ c ∈ whole, Text.isDigit c = true) :
    (withFraction whole fraction).takeWhile (· ≠ '.') = whole := by
  have hkeep : ∀ c ∈ whole, decide (c ≠ '.') = true := fun c hc => by
    simpa using NumberLiteral.ne_point (hwhole c hc)
  unfold withFraction
  split
  · exact List.takeWhile_eq_self_iff.mpr hkeep
  · rw [List.takeWhile_append_of_pos hkeep]
    simp

theorem dropWhile_withFraction (hwhole : ∀ c ∈ whole, Text.isDigit c = true) :
    ((withFraction whole fraction).dropWhile (· ≠ '.')).drop 1 = fraction := by
  have hkeep : ∀ c ∈ whole, decide (c ≠ '.') = true := fun c hc => by
    simpa using NumberLiteral.ne_point (hwhole c hc)
  unfold withFraction
  split
  · rename_i hnone
    rw [List.dropWhile_eq_nil_iff.mpr hkeep, hnone]
    rfl
  · rw [List.dropWhile_append_of_pos hkeep]
    simp

/-- Such a text has no sign. -/
theorem withFraction_ne_minus (hwhole : ∀ c ∈ whole, Text.isDigit c = true) (rest : List Char) :
    withFraction whole fraction ≠ '-' :: rest := by
  unfold withFraction
  cases whole with
  | nil =>
      split
      · exact List.cons_ne_nil _ _ ∘ Eq.symm
      · exact fun h => absurd (List.cons.inj h).1 (by decide)
  | cons c whole =>
      have hc : c ≠ '-' := by
        rintro rfl
        exact absurd (hwhole '-' List.mem_cons_self) (by decide)
      split <;> exact fun h => hc (List.cons.inj h).1

/-- **How a plain text is laid out**: its sign stays, its integral digits are grouped on demand, and the
point of the locale stands before its fraction, if it has one. -/
theorem localized_parts (separators : Separators) (grouping negative : Bool)
    (hwhole : ∀ c ∈ whole, Text.isDigit c = true) :
    localized separators grouping ((if negative then ['-'] else []) ++
        if fraction = [] then whole else whole ++ '.' :: fraction) =
      (if negative then ['-'] else []) ++
        (if grouping then groupDigits separators.group whole else whole) ++
          if fraction.isEmpty then [] else separators.point :: fraction := by
  rw [← withFraction]
  obtain ⟨body, hbody⟩ : ∃ body, body = withFraction whole fraction := ⟨_, rfl⟩
  have hintegral : body.takeWhile (· ≠ '.') = whole := hbody ▸ takeWhile_withFraction hwhole
  have hfraction : (body.dropWhile (· ≠ '.')).drop 1 = fraction :=
    hbody ▸ dropWhile_withFraction hwhole
  -- so that nothing is split off a text without a sign
  have hsign : ∀ rest, body ≠ '-' :: rest := hbody ▸ withFraction_ne_minus hwhole
  rw [← hbody]
  cases negative with
  | true =>
      show localized separators grouping ('-' :: body) = _
      unfold localized
      simp only [hintegral, hfraction, if_true]
  | false =>
      show localized separators grouping body = _
      unfold localized
      split
      rename_i heq
      split at heq
      · exact absurd rfl (hsign _)
      · obtain ⟨rfl, rfl⟩ := Prod.mk.inj heq
        simp only [hintegral, hfraction]
        rfl

end Layout

/-- **A plain text is shown as it is** where the decimal point is that of expressions. -/
theorem Decimal.localized_plain {separators : Separators} (point : separators.point = '.')
    (d : Decimal) : localized separators false d.plain = d.plain := by
  obtain ⟨whole, hwhole, hbody⟩ := NumberLiteral.form_cases d.plainBody_mem_form
  obtain ⟨fraction, hfraction⟩ : ∃ fraction, d.plainBody =
      if fraction = [] then whole else whole ++ '.' :: fraction := by
    rcases hbody with hbody | ⟨digits, hdigits, hbody⟩
    · exact ⟨[], by rw [hbody, if_pos rfl]⟩
    · exact ⟨digits, by rw [hbody, if_neg hdigits.1]⟩
  rw [plain_eq, signText, hfraction, localized_parts separators false _ hwhole.2, point]
  cases fraction <;> simp

/-! ## Reading what is shown -/

/-- **A plain text is a single token.** -/
theorem Decimal.tokenize_plain (d : Decimal) :
    ({} : Lexicon).tokenize d.plain = .ok [Token.number d.plain] := by
  have hform := d.plainBody_mem_form
  have hmem := NumberLiteral.form_le_grammar hform
  have hcanonical := NumberLiteral.canonical_of_form hform
  have hspells : Token.Spells {} none (Token.number d.plain) := by
    rw [plain_eq, signText]
    cases d.negative with
    | true => exact .negative hmem hcanonical (by decide +kernel) (by decide) rfl
    | false => exact .number hmem hcanonical
  have hread := Lexicon.tokenize_of_spelled Lexicon.builtin_legible (.cons hspells .nil) rfl
  have hspaced : Token.spaced [Token.number d.plain] = d.plain := by
    simp [Token.spaced_cons, Token.spacedAfter, Token.number]
  rwa [hspaced] at hread

/-- The plain text of a value is read as the same value, also where it has more digits than the
precision. -/
theorem readLiteral_plain_same {s : Settings} (hmax : s.precision ≤ Format.maxPrecision)
    {f : Format} (hf : f.precision ≤ Format.maxPrecision) {y d : Decimal} (hy : y.Fits f)
    (h : y.Same d) (hd : d.Fits s.format) : ∃ z, readLiteral s y.plain = .ok z ∧ z.Same (.finite d) := by
  have hread := Decimal.read?_plain_of_fits hf hy
  have hsame : (Number.finite y.rewritten).Same (.finite d) := .finite (y.rewritten_same.trans h)
  obtain ⟨z, hplus, hvalue⟩ := Number.plus_of_within s.precision_pos hmax hsame
    (Number.fits_finite hd).within
  have hfilter : y.plain.filter (· ≠ '_') = y.plain := List.filter_eq_self.mpr fun c hc =>
    decide_eq_true (Decimal.isNumeric_of_mem_plain hc).2
  exact ⟨z, by simp only [readLiteral, hfilter, hread, hplus], hvalue⟩

/-- Whatever the tokens are, an answer that is a decimal fits the format. -/
theorem Machine.evaluate_within (s : Settings) (tokens : List Token) :
    (Machine.evaluate Registry.builtin s tokens).Gives fun x => x.number.Within s.format :=
  evaluate_keeps (fun operation _ _ => operation.action_within _ s)
    (fun _ => Value.Within.operand) fun t _ _ x hx => (readLiteral_sameWithin s t.text x hx).left

namespace Calculator

variable {c : Calculator} {vars : Variables} {text : List Char}

/-- A text that comes down to one number evaluates to it. -/
theorem evaluateWith_of_reversePolish {digits : List Char}
    {valueOf : List Char → Drawing Failure Number}
    (hpolish : c.reversePolishWith valueOf text = .ok [Token.number digits])
    (hblank : text.all Text.isBlank = false) :
    c.evaluateWith valueOf text =
      .still (((readLiteral c.settings digits).mapError .ofOperation).map fun x => ⟨x, none⟩) := by
  rw [evaluateWith, hblank, hpolish]
  show Machine.evaluate _ _ _ = _
  rw [Machine.evaluate, Machine.run_number]
  cases readLiteral c.settings digits <;> rfl

/-- **A text that is one number evaluates to it**, whatever the values of variables are. -/
theorem evaluateWith_number {digits : List Char} (htokens : c.tokenize text = .ok [Token.number digits])
    (hblank : text.all Text.isBlank = false) (valueOf : List Char → Drawing Failure Number) :
    c.evaluateWith valueOf text =
      .still (((readLiteral c.settings digits).mapError .ofOperation).map fun x => ⟨x, none⟩) := by
  refine evaluateWith_of_reversePolish ?_ hblank
  rw [reversePolishWith, htokens]
  rfl

theorem plain_not_blank (d : Decimal) : d.plain.all Text.isBlank = false := by
  obtain ⟨first, rest, heq⟩ : ∃ first rest, d.plain = first :: rest := by
    refine List.exists_cons_of_ne_nil fun hnil => ?_
    have hbody := NumberLiteral.grammar_ne_nil (NumberLiteral.form_le_grammar d.plainBody_mem_form)
    rw [Decimal.plain_eq] at hnil
    exact hbody (List.append_eq_nil_iff.mp hnil).2
  have hfirst : Text.isBlank first = false :=
    Decimal.not_blank_of_isNumeric (Decimal.isNumeric_of_mem_plain (heq ▸ List.mem_cons_self)).1
  rw [heq, List.all_cons, hfirst, Bool.false_and]

section

variable (builtin : c.registry = .builtin)

include builtin

/-- What is not blank has no value in a precision that is too large. -/
theorem precision_le_of_evaluate (hblank : text.all Text.isBlank = false) {x : Scalar}
    (h : c.evaluate text vars = .ok x) : c.settings.precision ≤ Format.maxPrecision := by
  obtain ⟨_, _, out, -, -, -, hvalue⟩ := compute_inv hblank (Drawing.yields_of_outcome h)
  rw [builtin] at hvalue
  exact Machine.precision_le_of_evaluate out x hvalue

/-- Whatever variables are bound to, a value that is a decimal fits the format. -/
theorem compute_within :
    (c.compute text vars).Gives fun x => x.number.Within c.settings.format := by
  cases hblank : text.all Text.isBlank with
  | true =>
      rw [compute, evaluateWith, hblank]
      exact Drawing.gives_ok (Number.fits_number_zero c.settings.precision_pos).within
  | false =>
      rw [compute_eq c hblank, builtin]
      exact Drawing.gives_bind fun tokens => Machine.evaluate_within c.settings tokens

/-- **What is displayed can be typed back.** Where the locale has the decimal point of expressions
and the precision is not too large, the text that a decimal is shown as evaluates to the same number,
if it is zero or its leading digit does not stand below the lowest place. Only a blank text has a
value in a precision that is too large. -/
theorem evaluate_displayed (point : (Separators.ofLocale c.settings.locale).point = '.')
    (room : c.settings.precision ≤ Format.maxPrecision ∨ text.all Text.isBlank = false)
    {d : Decimal} (h : c.evaluate text vars = .ok ⟨.finite d, none⟩)
    (hlarge : d.isZero = true ∨ Format.minExponent ≤ d.adjusted) :
    ∃ shown w, c.render text vars = .ok shown ∧ c.evaluate shown = .ok w ∧
      w.number.Same (.finite d) := by
  have hmax : c.settings.precision ≤ Format.maxPrecision :=
    room.elim id fun hblank => precision_le_of_evaluate builtin hblank h
  have hfits : d.Fits c.settings.format :=
    compute_within builtin _ (Drawing.yields_of_outcome h) d rfl
  have hroom := Number.written_le hmax hfits
  obtain ⟨y, htrim, hvalue, -, hwritten⟩ :=
    Number.trim_exact hroom (hlarge.imp id fun hlarge => ⟨hlarge, hfits.highest⟩)
  obtain ⟨z, hread, hsame⟩ := readLiteral_plain_same hmax hroom hwritten hvalue hfits
  -- what is shown is a single number again
  have htokens : c.tokenize y.plain = .ok [Token.number y.plain] := by
    rw [tokenize, lexicon, builtin]
    exact y.tokenize_plain
  have hvalue' : c.evaluate y.plain = .ok ⟨z, none⟩ := by
    rw [evaluate, compute, evaluateWith_number htokens (plain_not_blank y), hread]
    rfl
  refine ⟨y.plain, ⟨z, none⟩, ?_, hvalue', hsame⟩
  have hdisplay : (Number.finite d).display c.settings.locale false = .ok y.plain := by
    rw [Number.display, htrim]
    exact congrArg Except.ok (y.localized_plain point)
  rw [render, h]
  show (Scalar.display c.settings.locale false ⟨.finite d, none⟩).mapError _ = _
  rw [Scalar.display, hdisplay]
  rfl

end

/-- A negative number with a fraction, rounded up and shown in the locale of Switzerland. -/
theorem evaluate_displayed_difference :
    let c : Calculator := { settings :=
      { Settings.initial with
        precision := 4, precision_pos := by decide, rounding := .up, locale := "de_CH".toList } }
    ∃ shown w, c.render "1/3-2".toList = .ok shown ∧ c.evaluate shown = .ok w ∧
      w.number.Same (.finite ⟨true, 1667, -3⟩) := by
  intro c
  have hvalue : c.evaluate "1/3-2".toList {} = .ok ⟨.finite ⟨true, 1667, -3⟩, none⟩ := by
    decide +kernel
  exact evaluate_displayed rfl (by decide +kernel) (.inl (by decide)) hvalue (.inr (by decide))

/-- **Not every value is typed back.** In a precision that is too large, zero is shown as the value
of a blank text and then not read again; and an infinity that a variable is bound to is not shown. -/
theorem evaluate_displayed_blank :
    let c : Calculator := { settings :=
      { Settings.initial with precision := 1000000000000000000, precision_pos := by decide } }
    let vars : Variables := .ofList [(['x'], .number (.infinite false))]
    (Separators.ofLocale c.settings.locale).point = '.' ∧
      (c.evaluate [] = .ok ⟨Number.zero, none⟩ ∧ c.render [] = .ok ['0'] ∧
        c.evaluate ['0'] = .error (.fault (.domain (.notANumber ['0'])))) ∧
      (({} : Calculator).evaluate ['x'] vars = .ok ⟨.infinite false, none⟩ ∧
        ({} : Calculator).render ['x'] vars = .error (.signal .invalidOperation)) := by
  decide +kernel

end Calculator

end DecimalCalc
