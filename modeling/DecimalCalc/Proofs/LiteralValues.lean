import DecimalCalc.Proofs.NegativeLiterals
import DecimalCalc.Proofs.Words

/-!
# What a literal denotes

A text of digits, with a point among them or without, denotes a number: each digit counts as many
times as the power of ten of its place (`NumberLiteral.denoted`). A zero in front and points at the
end count for nothing, so **the canonical text of a literal denotes the same number as the literal
without its underscores** (`NumberLiteral.denoted_canonical`).

Reading goes by the row of digits and the number of places after the point, and comes to the same
number. It is then rounded, with a minus sign or without (`NumberLiteral.canonical_faithful`). What
is refused is a number that is too large, any number in a precision that is too large, and a text of
more digits than a decimal can have.
-/

set_option autoImplicit false

namespace DecimalCalc

open Text

namespace NumberLiteral

/-! ## The number that a text denotes -/

/-- The sum of the digits of a row, each times the power of ten of its place; the first one stands
at the place that is given. A character that is not a digit counts for nothing. -/
def placeSum : Int → List Char → ℚ
  | _, [] => 0
  | place, c :: rest => ((digitValue? c).getD 0 : Nat) * 10 ^ place + placeSum (place - 1) rest

/-- **The number that digits denote**, with a point among them or without: the last digit before the
point stands at the place zero. -/
def denoted (text : List Char) : ℚ :=
  let whole := text.takeWhile (· ≠ '.')
  placeSum (whole.length - 1) (whole ++ (text.dropWhile (· ≠ '.')).tail)

variable {whole fraction text : List Char}

theorem placeSum_append (a b : List Char) : ∀ e : Int,
    placeSum e (a ++ b) = placeSum e a + placeSum (e - a.length) b := by
  induction a with
  | nil =>
      intro e
      simp [placeSum]
  | cons c a ih =>
      intro e
      have hplace : e - 1 - (a.length : Int) = e - ((c :: a).length : Int) := by
        rw [List.length_cons]
        omega
      rw [List.cons_append, placeSum, placeSum, ih, hplace, add_assoc]

/-- **A row of digits** is worth what it is worth as a whole, shifted to its place. -/
theorem placeSum_eq {digits : List Char} (hdigits : ∀ c ∈ digits, isDigit c = true) : ∀ e : Int,
    placeSum e digits =
      digitsValue (digits.filterMap digitValue?) * 10 ^ (e + 1 - (digits.length : Int)) := by
  induction digits with
  | nil =>
      intro e
      simp [placeSum, digitsValue_eq]
  | cons c digits ih =>
      intro e
      have hrest : ∀ c ∈ digits, isDigit c = true := fun c hc =>
        hdigits c (List.mem_cons_of_mem _ hc)
      obtain ⟨d, hd⟩ := Option.isSome_iff_exists.mp (hdigits c List.mem_cons_self)
      have hplace : (10 : ℚ) ^ e =
          (tenPow digits.length : Nat) * 10 ^ (e - 1 + 1 - (digits.length : Int)) := by
        rw [cast_tenPow, ← ten_zpow_add]
        congr 1
        omega
      have hexponent : e + 1 - ((c :: digits).length : Int) =
          e - 1 + 1 - (digits.length : Int) := by
        rw [List.length_cons]
        omega
      rw [placeSum, ih hrest, hd, Option.getD_some, hexponent, hplace,
        List.filterMap_cons_some hd, digitsValue_cons, length_filterMap_digitValue? hrest]
      push_cast
      ring

/-- Up to its first point, a text is a row. -/
theorem denoted_whole (hwhole : '.' ∉ whole) :
    denoted whole = placeSum (whole.length - 1) whole := by
  have hall : ∀ c ∈ whole, decide (c ≠ '.') = true := fun c hc =>
    decide_eq_true (ne_of_mem_of_not_mem hc hwhole)
  rw [denoted, List.takeWhile_eq_self_iff.mpr hall, List.dropWhile_eq_nil_iff.mpr hall,
    List.tail_nil, List.append_nil]

theorem denoted_point (hwhole : '.' ∉ whole) (fraction : List Char) :
    denoted (whole ++ '.' :: fraction) = placeSum (whole.length - 1) (whole ++ fraction) := by
  have hall : ∀ c ∈ whole, decide (c ≠ '.') = true := fun c hc =>
    decide_eq_true (ne_of_mem_of_not_mem hc hwhole)
  rw [denoted, List.takeWhile_append_of_pos hall, List.dropWhile_append_of_pos hall,
    List.takeWhile_cons_of_neg (by decide), List.dropWhile_cons_of_neg (by decide),
    List.append_nil, List.tail_cons]

/-- A text is one row, or two around its first point. -/
theorem exists_rows (text : List Char) : ∃ whole, '.' ∉ whole ∧
    (text = whole ∨ ∃ fraction, text = whole ++ '.' :: fraction) := by
  by_cases hpoint : '.' ∈ text
  · obtain ⟨whole, fraction, heq, hwhole⟩ := List.eq_append_cons_of_mem hpoint
    exact ⟨whole, hwhole, .inr ⟨fraction, heq⟩⟩
  · exact ⟨text, hpoint, .inl rfl⟩

/-! ## Canonical texts -/

/-- A zero in front of the point counts for nothing. -/
theorem denoted_withLeadingZero (text : List Char) :
    denoted (withLeadingZero text) = denoted text := by
  rw [withLeadingZero.eq_def]
  split
  · rename_i rest
    have hnone := denoted_point (show '.' ∉ [] from List.not_mem_nil) rest
    have hzero := denoted_point (show '.' ∉ ['0'] by decide) rest
    rw [List.nil_append] at hnone
    rw [List.singleton_append] at hzero
    rw [hnone, hzero, List.singleton_append, placeSum]
    simp [show digitValue? '0' = some 0 by decide]
  · rfl

/-- A point at the end counts for nothing. -/
theorem denoted_concat_point (text : List Char) : denoted (text ++ ['.']) = denoted text := by
  obtain ⟨whole, hwhole, rfl | ⟨fraction, rfl⟩⟩ := exists_rows text
  · rw [denoted_point hwhole, List.append_nil, denoted_whole hwhole]
  · have hpoint : ∀ e, placeSum e ['.'] = 0 := fun e => by
      simp [placeSum, show digitValue? '.' = none by decide]
    rw [List.append_assoc, List.cons_append, denoted_point hwhole, denoted_point hwhole,
      ← List.append_assoc, placeSum_append _ ['.'], hpoint, add_zero]

theorem denoted_rdropWhile (text : List Char) :
    denoted (text.rdropWhile (· = '.')) = denoted text := by
  induction text using List.reverseRecOn with
  | nil => rfl
  | append_singleton text c ih =>
      by_cases hc : c = '.'
      · rw [List.rdropWhile_concat_pos _ _ _ (by simpa using hc), ih, hc, denoted_concat_point]
      · rw [List.rdropWhile_concat_neg _ _ _ (by simpa using hc)]

/-- **The canonical text of a text denotes the same number** as the text without its underscores. -/
theorem denoted_canonical (text : List Char) :
    denoted (canonical text) = denoted (text.filter (· ≠ '_')) := by
  rw [canonical_eq, denoted_rdropWhile, denoted_withLeadingZero]

/-! ## Literals -/

/-- **A text is matched as a number** if it is the number at the start of some text, whatever the
symbols are. -/
def Matched (literal : List Char) : Prop :=
  ∃ symbols rest, Lexeme.at? symbols (literal ++ rest) = some (.number, literal.length)

variable {literal : List Char} {s : Settings} {d : Decimal}

/-- **The number literals are matched as numbers**, and nothing else is. -/
theorem matched_iff : Matched literal ↔ literal ∈ grammar := by
  constructor
  · rintro ⟨symbols, rest, h⟩
    rw [Lexeme.at?] at h
    split at h
    · rename_i hnumber
      obtain ⟨-, hlength⟩ := Prod.mk.inj (Option.some.inj h)
      have hmem := take_length_mem hnumber
      rwa [hlength, List.take_left] at hmem
    · -- no symbol and no plain lexeme is a number
      cases hsymbol : Lexeme.symbolAt? symbols (literal ++ rest) with
      | some choice =>
          rw [hsymbol] at h
          obtain rfl := Option.some.inj h
          exact absurd (Lexeme.symbolAt?_eq_some hsymbol).1 (by decide)
      | none =>
          rw [hsymbol] at h
          exact absurd rfl (Lexeme.plainAt?_inv h).2.1
  · intro h
    have hle := le_length_of_grammar h []
    have hpos := List.length_pos_of_ne_nil (grammar_ne_nil h)
    rw [List.append_nil] at hle
    have hlength : length literal = literal.length := le_antisymm (length_le literal) hle
    refine ⟨[], [], ?_⟩
    rw [List.append_nil, Lexeme.at?, hlength, if_pos hpos.ne']

/-! ## Reading -/

/-- Digits around a point, or without one, denote what they are worth as one row. -/
theorem denoted_digits (hwhole : ∀ c ∈ whole, isDigit c = true)
    (hfraction : ∀ c ∈ fraction, isDigit c = true) :
    denoted (if fraction = [] then whole else whole ++ '.' :: fraction) =
      digitsValue ((whole ++ fraction).filterMap digitValue?) *
        10 ^ (-(fraction.length : Int)) := by
  have hpoint : '.' ∉ whole := fun hmem => absurd rfl (ne_point (hwhole _ hmem))
  have hdigits : ∀ c ∈ whole ++ fraction, isDigit c = true := fun c hc =>
    (List.mem_append.mp hc).elim (hwhole c) (hfraction c)
  have hplace : (whole.length : Int) - 1 + 1 - (whole ++ fraction).length =
      -(fraction.length : Int) := by
    rw [List.length_append]
    omega
  rw [← hplace, ← placeSum_eq hdigits]
  split
  · rename_i hnone
    rw [hnone, List.append_nil, denoted_whole hpoint]
  · exact denoted_point hpoint fraction

/-- **What is read of a canonical text** is the number that it denotes. -/
theorem value_of_readUnsigned? (h : literal ∈ grammar)
    (hread : Decimal.readUnsigned? false (canonical literal) = some d) :
    d.value = denoted (canonical literal) := by
  obtain ⟨whole, hwhole, fraction, hfraction, heq⟩ := canonical_point h
  rw [heq, Decimal.readUnsigned?_point hwhole.2 hwhole.1 hfraction] at hread
  dsimp only at hread
  split_ifs at hread
  obtain rfl := Option.some.inj hread
  rw [heq, denoted_digits hwhole.2 hfraction]
  simp [Decimal.value, Decimal.signed]

/-- **A canonical text is read** if the literal has no more digits than a decimal can have. -/
theorem exists_readUnsigned? (h : literal ∈ grammar)
    (room : (literal.filter isDigit).length ≤ Format.maxPrecision) :
    ∃ d, Decimal.readUnsigned? false (canonical literal) = some d := by
  obtain ⟨whole, hwhole, fraction, hfraction, heq⟩ := canonical_point h
  have hpos := List.length_pos_of_ne_nil hwhole.1
  have hlength := length_canonical_point hwhole.2 hfraction heq
  have hdigits : ∀ c ∈ whole ++ fraction, isDigit c = true := fun c hc =>
    (List.mem_append.mp hc).elim (hwhole.2 c) (hfraction c)
  have hlt := digitsValue_filterMap_lt hdigits
  rw [List.length_append] at hlength hlt
  have hcount := (digitCount_le_iff (by omega)).mpr hlt
  unfold Format.maxPrecision at room
  rw [heq, Decimal.readUnsigned?_point hwhole.2 hwhole.1 hfraction]
  dsimp only
  rw [if_neg]
  · exact ⟨_, rfl⟩
  · unfold Decimal.adjusted Decimal.digits Decimal.maxWrittenPlace Decimal.minWrittenExponent
    dsimp only
    omega

end NumberLiteral

/-- Only a number that is too large has no rounded value. -/
theorem Format.rounded_fails (f : Format) (v : ℚ) : (f.rounded v).FailsWith (· = .overflow) := by
  have hmagnitude : ∀ (negative : Bool) (w : ℚ),
      (f.roundedMagnitude negative w).FailsWith (· = .overflow) := by
    intro negative w
    rw [roundedMagnitude]
    split
    · exact Except.failsWith_error rfl
    · exact Except.failsWith_ok _
  rw [rounded]
  split_ifs
  · exact Except.failsWith_ok 0
  · exact (hmagnitude true (-v)).map _
  · exact hmagnitude false v

/-- **A text reads as a number**: it is accepted with the rounded number as its value, unless this is
too large, or the precision is. Then it is refused. -/
structure ReadsAs (s : Settings) (text : List Char) (v : ℚ) : Prop where
  accepted : s.precision ≤ Format.maxPrecision → s.format.rounded v ≠ .error .overflow →
    ∃ y, readLiteral s text = .ok (.finite y) ∧ s.format.rounded v = .ok y.value ∧ y.Fits s.format
  refused : Format.maxPrecision < s.precision ∨ s.format.rounded v = .error .overflow →
    readLiteral s text = Outcome.fail (.notANumber text)

/-- A text that is read as a decimal reads as its value. -/
theorem readsAs_of_read? {s : Settings} {text : List Char} {d : Decimal} (hplain : '_' ∉ text)
    (hread : Number.read? text = some (.finite d)) : ReadsAs s text d.value := by
  obtain ⟨hresult, hfailure⟩ := readLiteral_rounded (s := s) hplain hread
  constructor
  · intro hmax hsmall
    cases hrounded : s.format.rounded d.value with
    | error signal =>
        obtain rfl := s.format.rounded_fails d.value signal hrounded
        exact absurd hrounded hsmall
    | ok v =>
        obtain ⟨y, hy, rfl, hfits⟩ := hresult v hmax hrounded
        exact ⟨y, hy, rfl, hfits⟩
  · exact fun hlarge => hfailure (hlarge.imp_right fun hoverflow => ⟨_, hoverflow⟩)

namespace NumberLiteral

variable {literal whole fraction : List Char}

/-- **A canonical text reads as the number that it denotes**, and as the opposite number after a
minus sign. -/
theorem readsAs_canonical (h : literal ∈ grammar)
    (room : (literal.filter isDigit).length ≤ Format.maxPrecision) (s : Settings) :
    ReadsAs s (canonical literal) (denoted (canonical literal)) ∧
      ReadsAs s ('-' :: canonical literal) (-denoted (canonical literal)) := by
  obtain ⟨d, hd⟩ := exists_readUnsigned? h room
  obtain ⟨hplain, hnegative⟩ := read?_canonical h
  have hunderscore := underscore_notMem_canonical h
  rw [hd] at hplain hnegative
  rw [← value_of_readUnsigned? h hd, ← Decimal.value_neg]
  exact ⟨readsAs_of_read? hunderscore hplain, readsAs_of_read? (by simp [hunderscore]) hnegative⟩

/-- **A text with more places after the point than can be written** is refused in any precision. -/
theorem readLiteral_long (hwhole : whole ∈ run isDigit) (hfraction : fraction ∈ run isDigit)
    (hlong : -(fraction.length : Int) < Decimal.minWrittenExponent) (s : Settings) :
    readLiteral s (whole ++ '.' :: fraction) =
      Outcome.fail (.notANumber (whole ++ '.' :: fraction)) := by
  have hform := point_mem_form hwhole hfraction
  have hunread : Decimal.readUnsigned? false (whole ++ '.' :: fraction) = none := by
    have hread := Decimal.readUnsigned?_point hwhole.2 hwhole.1 hfraction.2 false
    rw [if_neg hfraction.1] at hread
    rw [hread]
    exact if_pos (.inr hlong)
  have hread := (read?_canonical (form_le_grammar hform)).1
  have hfilter : (whole ++ '.' :: fraction).filter (· ≠ '_') = whole ++ '.' :: fraction :=
    List.filter_eq_self.mpr fun c hc => decide_eq_true (isNumeric_of_mem_form hform c hc).2
  rw [canonical_of_form hform, hunread, Option.map_none] at hread
  rw [readLiteral, hfilter, hread]

theorem zeros_mem_run {n : Nat} (hn : 0 < n) : List.replicate n '0' ∈ run isDigit := by
  refine ⟨by simpa using hn.ne', fun c hc => ?_⟩
  rw [List.eq_of_mem_replicate hc]
  decide

theorem denoted_zeros (n : Nat) : denoted ('0' :: '.' :: List.replicate n '0') = 0 := by
  have hzeros : ∀ (n : Nat) (e : Int), placeSum e (List.replicate n '0') = 0 := by
    intro n
    induction n with
    | zero => exact fun e => rfl
    | succ n ih =>
        intro e
        rw [List.replicate_succ, placeSum, ih, show digitValue? '0' = some 0 by decide]
        simp
  calc denoted ('0' :: '.' :: List.replicate n '0')
      = placeSum 0 (List.replicate (n + 1) '0') := denoted_point (show '.' ∉ ['0'] by decide) _
    _ = 0 := hzeros _ 0

/-- **Canonical texts keep the number that a literal denotes.** A text that is matched as a number has
a canonical text of digits, which a point and further digits may follow. It denotes the same number
as the literal without its underscores, and reads as this number, rounded, or as the opposite one
after a minus sign, if the literal has no more digits than a decimal can have. A canonical text is
its own canonical text, whatever text it was made of. -/
theorem canonical_faithful :
    (∀ text, canonical (canonical text) = canonical text) ∧
      ∀ literal, Matched literal →
        canonical literal ∈ canonicalForm ∧
        denoted (canonical literal) = denoted (literal.filter (· ≠ '_')) ∧
        ((literal.filter isDigit).length ≤ Format.maxPrecision → ∀ s : Settings,
          ReadsAs s (canonical literal) (denoted (canonical literal)) ∧
            ReadsAs s ('-' :: canonical literal) (-denoted (canonical literal))) := by
  refine ⟨canonical_canonical, fun literal hmatched => ?_⟩
  have h := matched_iff.mp hmatched
  exact ⟨canonical_mem_form h, denoted_canonical literal, readsAs_canonical h⟩

/-- In three digits and towards the larger number, a literal with digits of two scripts is read as
1240, and as -1230 after a minus sign; and it is refused in a precision that is too large. -/
theorem canonical_faithful_scripts :
    let literal := "1_234.५_6".toList
    let text := "1234.५6".toList
    let s : Settings :=
      { Settings.initial with precision := 3, precision_pos := by decide, rounding := .ceiling }
    let large : Settings :=
      { Settings.initial with precision := 1000000000000000000, precision_pos := by decide }
    Matched literal ∧ canonical literal = text ∧
      (literal.filter isDigit).length ≤ Format.maxPrecision ∧
      (∃ y, readLiteral s text = .ok (.finite y) ∧ y.value = 1240) ∧
      (∃ y, readLiteral s ('-' :: text) = .ok (.finite y) ∧ y.value = -1230) ∧
      readLiteral large text = Outcome.fail (.notANumber text) := by
  intro literal text s large
  have hmatched : Matched literal := ⟨[], [], by decide +kernel⟩
  have hcanonical : canonical literal = text := by decide +kernel
  have room : (literal.filter isDigit).length ≤ Format.maxPrecision := by decide +kernel
  obtain ⟨-, hliteral⟩ := canonical_faithful
  obtain ⟨-, -, hreads⟩ := hliteral literal hmatched
  rw [hcanonical] at hreads
  -- what the text denotes is the value of a decimal, whose rounding is computed
  let d : Decimal := ⟨false, 123456, -2⟩
  have hdenoted : denoted text = d.value := by decide +kernel
  have hrounded : s.format.rounded d.value = .ok 1240 := by
    have hround : d.round s.format = .ok ⟨false, 124, 1⟩ := by decide +kernel
    rw [Decimal.rounded_of_round (by decide) hround]
    norm_num [Except.map, Decimal.value, Decimal.signed]
  have hopposite : s.format.rounded (-d.value) = .ok (-1230) := by
    have hround : d.neg.round s.format = .ok ⟨true, 123, 1⟩ := by decide +kernel
    rw [← Decimal.value_neg, Decimal.rounded_of_round (by decide) hround]
    norm_num [Except.map, Decimal.value, Decimal.signed]
  rw [hdenoted] at hreads
  obtain ⟨hplain, hnegative⟩ := hreads room s
  refine ⟨hmatched, hcanonical, room, ?_, ?_, ?_⟩
  · obtain ⟨y, hy, hvalue, -⟩ := hplain.accepted (by decide) (by simp [hrounded])
    exact ⟨y, hy, Except.ok.inj (hvalue.symm.trans hrounded)⟩
  · obtain ⟨y, hy, hvalue, -⟩ := hnegative.accepted (by decide) (by simp [hopposite])
    exact ⟨y, hy, Except.ok.inj (hvalue.symm.trans hopposite)⟩
  · exact (hreads room large).1.refused (.inl (by decide))

/-- **Not every literal is read**: in a precision that is too large, none is; and in any precision, a
zero is refused that is written with more places than a decimal can have. -/
theorem canonical_refused :
    let s : Settings :=
      { Settings.initial with precision := 1000000000000000000, precision_pos := by decide }
    let zero := '0' :: '.' :: List.replicate 2000000000000000000 '0'
    (Matched ['7'] ∧ canonical ['7'] = ['7'] ∧ s.format.rounded (denoted ['7']) = .ok 7 ∧
        readLiteral s ['7'] = Outcome.fail (.notANumber ['7'])) ∧
      Matched zero ∧ canonical zero = zero ∧ ∀ s : Settings,
        s.format.rounded (denoted zero) = .ok 0 ∧
          readLiteral s zero = Outcome.fail (.notANumber zero) := by
  intro s zero
  have hseven : s.format.rounded (denoted ['7']) = .ok 7 := by
    have hdenoted : denoted ['7'] = Decimal.value ⟨false, 7, 0⟩ := by decide +kernel
    have hround : Decimal.round s.format ⟨false, 7, 0⟩ = .ok ⟨false, 7, 0⟩ := by decide +kernel
    rw [hdenoted, Decimal.rounded_of_round (by decide) hround]
    norm_num [Except.map, Decimal.value, Decimal.signed]
  have hwhole : ['0'] ∈ run isDigit := zeros_mem_run (n := 1) (by decide)
  have hfraction : List.replicate 2000000000000000000 '0' ∈ run isDigit :=
    zeros_mem_run (by decide)
  have hform : zero ∈ canonicalForm := point_mem_form hwhole hfraction
  refine ⟨⟨⟨[], [], by decide +kernel⟩, by decide, hseven, by decide +kernel⟩,
    matched_iff.mpr (form_le_grammar hform), canonical_of_form hform, fun s => ⟨?_, ?_⟩⟩
  · rw [denoted_zeros, Format.rounded_zero]
  · refine readLiteral_long hwhole hfraction ?_ s
    rw [List.length_replicate]
    decide

end NumberLiteral

end DecimalCalc
