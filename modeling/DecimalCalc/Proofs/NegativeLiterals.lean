import DecimalCalc.Proofs.DisplayedNumbers

/-!
# A minus sign before a literal

A number literal writes a decimal without a sign, of as many digits as the literal has or fewer
(`NumberLiteral.Writes`). Where the precision has room for these digits nothing is rounded, so the
decimal is read as it is or is too large. Then it makes no difference whether a minus sign is read
as a part of the literal, or what the literal stands for is negated afterwards
(`readLiteral_negative`). The rounding mode would make one, for it may look at the sign.
-/

set_option autoImplicit false

namespace DecimalCalc

open Text

/-! ## The digits of a literal -/

namespace NumberLiteral

theorem filter_dropWhile_point (text : List Char) :
    (text.dropWhile (· = '.')).filter isDigit = text.filter isDigit := by
  induction text with
  | nil => rfl
  | cons c text ih =>
      by_cases hc : c = '.'
      · subst hc
        rw [List.dropWhile_cons_of_pos (by decide), ih, List.filter_cons_of_neg (by decide)]
      · rw [List.dropWhile_cons_of_neg (by simpa using hc)]

/-- **Canonical texts have the same digits**, but perhaps for a zero in front. -/
theorem filter_isDigit_canonical (text : List Char) :
    (canonical text).filter isDigit = text.filter isDigit ∨
      (canonical text).filter isDigit = '0' :: text.filter isDigit := by
  have hkept : (text.filter (· ≠ '_')).filter isDigit = text.filter isDigit := by
    rw [List.filter_filter]
    refine List.filter_congr fun c _ => ?_
    cases hc : isDigit c with
    | false => rfl
    | true => simp [ne_underscore hc]
  have hpoints : (canonical text).filter isDigit =
      (withLeadingZero (text.filter (· ≠ '_'))).filter isDigit := by
    rw [canonical, List.filter_reverse, filter_dropWhile_point, ← List.filter_reverse,
      List.reverse_reverse]
  rw [hpoints, ← hkept, withLeadingZero.eq_def]
  split
  · rename_i heq
    rw [heq]
    exact .inr rfl
  · exact .inl rfl

/-- **What a literal writes**: a decimal without a sign, which has no more digits than the literal,
and none of them beyond the places that can be written. -/
structure Writes (literal : List Char) (d : Decimal) : Prop where
  unsigned : d.negative = false
  exponent : d.exponent ≤ 0
  digits : d.coefficient < tenPow (literal.filter isDigit).length
  places : -((literal.filter isDigit).length : Int) ≤ d.exponent
  highest : d.adjusted ≤ Decimal.maxWrittenPlace
  lowest : Decimal.minWrittenExponent ≤ d.exponent

variable {literal : List Char} {d : Decimal}

/-- A zero in front adds nothing to what digits are worth. -/
theorem digitsValue_canonical_lt {digits : List Char} (hdigits : ∀ c ∈ digits, isDigit c = true)
    (h : digits = literal.filter isDigit ∨ digits = '0' :: literal.filter isDigit) :
    digitsValue (digits.filterMap digitValue?) < tenPow (literal.filter isDigit).length := by
  have hbound := digitsValue_filterMap_lt fun c (hc : c ∈ literal.filter isDigit) =>
    (List.mem_filter.mp hc).2
  rcases h with rfl | rfl
  · exact hbound
  · rw [List.filterMap_cons_some (show digitValue? '0' = some 0 by decide)]
    exact (digitsValue_zeros_append 1 _).trans_lt hbound

/-- A canonical text is a row of digits, and perhaps a point with another one. -/
theorem canonical_point (h : literal ∈ grammar) : ∃ whole ∈ run isDigit, ∃ fraction : List Char,
    (∀ c ∈ fraction, isDigit c = true) ∧
      canonical literal = if fraction = [] then whole else whole ++ '.' :: fraction := by
  obtain ⟨whole, hwhole, heq | ⟨fraction, hfraction, heq⟩⟩ := canonical_cases h
  · exact ⟨whole, hwhole, [], nofun, heq⟩
  · exact ⟨whole, hwhole, fraction, hfraction.2, by rw [if_neg hfraction.1, heq]⟩

/-- The digits of a text of digits around a point, or without one. -/
theorem filter_isDigit_point {whole fraction : List Char} (hwhole : ∀ c ∈ whole, isDigit c = true)
    (hfraction : ∀ c ∈ fraction, isDigit c = true) :
    (if fraction = [] then whole else whole ++ '.' :: fraction).filter isDigit =
      whole ++ fraction := by
  have hpoint : (whole ++ '.' :: fraction).filter isDigit = whole ++ fraction := by
    rw [List.filter_append, List.filter_cons_of_neg (by decide), List.filter_eq_self.mpr hwhole,
      List.filter_eq_self.mpr hfraction]
  split
  · rename_i hnone
    rw [hnone, List.append_nil]
    exact List.filter_eq_self.mpr hwhole
  · exact hpoint

/-- A canonical text has at most one digit more than the literal. -/
theorem length_canonical_point {whole fraction : List Char} (hwhole : ∀ c ∈ whole, isDigit c = true)
    (hfraction : ∀ c ∈ fraction, isDigit c = true)
    (heq : canonical literal = if fraction = [] then whole else whole ++ '.' :: fraction) :
    (whole ++ fraction).length ≤ (literal.filter isDigit).length + 1 := by
  have hsame := filter_isDigit_canonical literal
  rw [heq, filter_isDigit_point hwhole hfraction] at hsame
  rcases hsame with hsame | hsame <;> rw [hsame] <;> simp

/-- **The canonical text of a literal** is read as what the literal writes. -/
theorem writes_of_readUnsigned? (h : literal ∈ grammar)
    (hread : Decimal.readUnsigned? false (canonical literal) = some d) : Writes literal d := by
  obtain ⟨whole, hwhole, fraction, hfraction, heq⟩ := canonical_point h
  have hdigits : ∀ c ∈ whole ++ fraction, isDigit c = true := fun c hc =>
    (List.mem_append.mp hc).elim (hwhole.2 c) (hfraction c)
  have hsame := filter_isDigit_canonical literal
  rw [heq, filter_isDigit_point hwhole.2 hfraction] at hsame
  rw [heq, Decimal.readUnsigned?_point hwhole.2 hwhole.1 hfraction] at hread
  dsimp only at hread
  split_ifs at hread with hplaces
  obtain rfl := Option.some.inj hread
  obtain ⟨hplace, hlowest⟩ := not_or.mp hplaces
  refine ⟨rfl, by simp, digitsValue_canonical_lt hdigits hsame, ?_, not_lt.mp hplace,
    not_lt.mp hlowest⟩
  -- at least one digit stands before the point
  have hlength := length_canonical_point hwhole.2 hfraction heq
  have hpos := List.length_pos_of_ne_nil hwhole.1
  rw [List.length_append] at hlength
  dsimp only
  omega

end NumberLiteral

/-! ## Negating without rounding -/

namespace Decimal

variable {f : Format} {x : Decimal}

/-- What has no more digits than the precision is not rounded, but may be too large. -/
theorem round_of_exact (hdigits : x.digits ≤ f.precision) (hlowest : f.tiny ≤ x.exponent)
    (hexponent : x.exponent ≤ 0) :
    x.round f = if Format.maxExponent < x.adjusted then .error .overflow else .ok x := by
  cases hx : x.isZero with
  | false => exact round_of_room hdigits hlowest hx
  | true =>
      have hcoefficient : x.coefficient = 0 := coefficient_eq_zero hx
      have hadjusted : x.adjusted = x.exponent := by
        rw [adjusted, digits, hcoefficient, digitCount_zero]
        omega
      have hmax : (0 : Int) ≤ Format.maxExponent := by decide
      have hkept : min (max x.exponent f.tiny) Format.maxExponent = x.exponent := by omega
      rw [round, if_pos hx, hkept, hadjusted, if_neg (by omega)]

end Decimal

theorem Number.plus_finite (f : Format) (d : Decimal) :
    Number.plus f (.finite d) = f.check.bind fun _ => (d.plus f).map .finite := rfl

theorem Number.minus_finite (f : Format) (d : Decimal) :
    Number.minus f (.finite d) = f.check.bind fun _ => (d.minus f).map .finite := rfl

namespace NumberLiteral

variable {f : Format} {literal : List Char} {d : Decimal}

section

variable (writes : Writes literal d) (positive : 0 < f.precision)
  (room : (literal.filter isDigit).length ≤ f.precision)

include writes positive room

/-- With either sign, what a literal writes is not rounded. -/
theorem Writes.round (negative : Bool) : Decimal.round f { d with negative } =
    if Format.maxExponent < d.adjusted then .error .overflow else .ok { d with negative } := by
  have hdigits : d.digits ≤ f.precision :=
    (digitCount_le_iff positive).mpr (writes.digits.trans_le (tenPow_le room))
  have hlowest : f.tiny ≤ d.exponent := by
    have hplaces := writes.places
    unfold Format.tiny Format.minExponent
    omega
  exact Decimal.round_of_exact hdigits hlowest writes.exponent

theorem Writes.plus : d.plus f =
    if Format.maxExponent < d.adjusted then .error .overflow else .ok d := by
  have hsame : { d with negative := false } = d := by
    rw [← writes.unsigned]
  have hround := writes.round positive room false
  rw [hsame] at hround
  have hmagnitude : d.magnitude = d := hsame
  rw [Decimal.plus, hmagnitude, ite_self, hround]

theorem Writes.minus_too_large (h : Format.maxExponent < d.adjusted) :
    d.minus f = .error .overflow := by
  have hmagnitude : d.magnitude.round f = .error .overflow := by
    rw [Decimal.magnitude, writes.round positive room, if_pos h]
  have hneg : d.neg.round f = .error .overflow := by
    rw [Decimal.neg, writes.round positive room, if_pos h]
  rw [Decimal.minus, hmagnitude, hneg, ite_self]

/-- **Reading a decimal and negating it** comes to the same as negating it at once. -/
theorem Writes.minus : (Number.minus f (.finite d)).toOption =
    (Number.plus f (.finite d)).toOption.bind fun x => (Number.minus f x).toOption := by
  rw [Number.plus_finite, writes.plus positive room]
  cases hcheck : f.check with
  | error signal =>
      rw [Number.minus_finite, hcheck]
      rfl
  | ok _ =>
      -- a decimal that is too large is so with either sign
      by_cases h : Format.maxExponent < d.adjusted
      · rw [if_pos h, Number.minus_finite, hcheck, writes.minus_too_large positive room h]
        rfl
      · rw [if_neg h]
        rfl

/-- What is read of a decimal that is not too large is the decimal. -/
theorem Writes.plus_eq_ok {x : Number} (h : Number.plus f (.finite d) = .ok x) : x = .finite d := by
  rw [Number.plus_finite, writes.plus positive room] at h
  obtain ⟨_, _, h⟩ := Except.bind_eq_ok.mp h
  obtain ⟨y, hy, rfl⟩ := Except.map_eq_ok.mp h
  split_ifs at hy
  obtain rfl := Except.ok.inj hy
  rfl

end

end NumberLiteral

/-! ## Reading literals -/

theorem spanSign_of_digit {text : List Char} (h : ∀ c ∈ text.head?, isDigit c = true) :
    spanSign text = (false, text) := by
  unfold spanSign
  split
  · exact absurd (h '-' rfl) (by decide)
  · exact absurd (h '+' rfl) (by decide)
  · rfl

theorem readLiteral_toOption {s : Settings} {text : List Char} (h : '_' ∉ text) :
    (readLiteral s text).toOption =
      (Number.read? text).bind fun x => (Number.plus s.format x).toOption := by
  have hkept : text.filter (· ≠ '_') = text := List.filter_eq_self.mpr fun c hc => by
    simpa using ne_of_mem_of_not_mem hc h
  rw [readLiteral, hkept]
  cases Number.read? text with
  | none => rfl
  | some x =>
      cases hplus : Number.plus s.format x with
      | error signal => simp only [hplus, Option.bind_some]; rfl
      | ok y => simp only [hplus, Option.bind_some]; rfl

namespace NumberLiteral

variable {s : Settings} {literal : List Char} {x : Number}

theorem isNumeric_of_mem_form {w : List Char} (h : w ∈ canonicalForm) :
    ∀ c ∈ w, IsNumeric c ∧ c ≠ '_' := by
  have hrun : ∀ {digits : List Char}, digits ∈ run isDigit → ∀ c ∈ digits, IsNumeric c ∧ c ≠ '_' :=
    fun hdigits c hc => ⟨.inl (hdigits.2 c hc), ne_underscore (hdigits.2 c hc)⟩
  intro c hc
  obtain ⟨whole, hwhole, rfl | ⟨digits, hdigits, rfl⟩⟩ := form_cases h
  · exact hrun hwhole c hc
  · rcases List.mem_append.mp hc with hc | hc
    · exact hrun hwhole c hc
    · rcases List.mem_cons.mp hc with rfl | hc
      · exact ⟨.inr (.inl rfl), by decide⟩
      · exact hrun hdigits c hc

/-- The sign only goes along with what is read. -/
theorem readUnsigned?_negative (h : literal ∈ grammar) :
    Decimal.readUnsigned? true (canonical literal) =
      (Decimal.readUnsigned? false (canonical literal)).map Decimal.neg := by
  obtain ⟨whole, hwhole, fraction, hfraction, heq⟩ := canonical_point h
  rw [heq, Decimal.readUnsigned?_point hwhole.2 hwhole.1 hfraction,
    Decimal.readUnsigned?_point hwhole.2 hwhole.1 hfraction]
  dsimp only
  rw [apply_ite (Option.map Decimal.neg)]
  rfl

/-- **A canonical text is read without its sign**, which the decimal is then given. -/
theorem read?_canonical (h : literal ∈ grammar) :
    Number.read? (canonical literal) =
        (Decimal.readUnsigned? false (canonical literal)).map .finite ∧
      Number.read? ('-' :: canonical literal) =
        (Decimal.readUnsigned? false (canonical literal)).map fun d => .finite d.neg := by
  have hform := canonical_mem_form h
  have hnumeric : ∀ c ∈ canonical literal, IsNumeric c := fun c hc =>
    (isNumeric_of_mem_form hform c hc).1
  have hsigned : ∀ c ∈ '-' :: canonical literal, IsNumeric c :=
    List.forall_mem_cons.mpr ⟨.inr (.inr (.inl rfl)), hnumeric⟩
  have hstrip : ∀ {text : List Char}, (∀ c ∈ text, IsNumeric c) → strip text = text := fun h =>
    strip_of_not_blank fun c hc => Decimal.not_blank_of_isNumeric (h c hc)
  constructor
  · rw [Number.read?_numeric hnumeric, hstrip hnumeric, spanSign_of_digit (head?_canonicalForm hform)]
  · rw [Number.read?_numeric hsigned, hstrip hsigned]
    show (Decimal.readUnsigned? true (canonical literal)).map _ = _
    rw [readUnsigned?_negative h, Option.map_map]
    rfl

/-- **What a literal stands for is written out as another literal for the same.** -/
theorem read?_plain (h : literal ∈ grammar) (hread : Number.read? (canonical literal) = some x) :
    Number.read? x.plain = some x := by
  rw [(read?_canonical h).1] at hread
  obtain ⟨d, hd, rfl⟩ := Option.map_eq_some_iff.mp hread
  have writes := writes_of_readUnsigned? h hd
  have hrewritten : d.rewritten = d := by
    have hexponent := writes.exponent
    rw [Decimal.rewritten, Int.toNat_of_nonpos hexponent, min_eq_left hexponent]
    rw [show tenPow 0 = 1 from rfl, Nat.mul_one]
  have hplain := Decimal.read?_plain (x := d) (by rw [hrewritten]; exact writes.highest)
    (by rw [hrewritten]; exact writes.lowest)
  rw [hrewritten] at hplain
  exact hplain

theorem underscore_notMem_canonical (h : literal ∈ grammar) : '_' ∉ canonical literal :=
  fun hmem => (isNumeric_of_mem_form (canonical_mem_form h) '_' hmem).2 rfl

/-- A number and the literal that it was read from are read alike in any precision. -/
theorem readLiteral_plain (h : literal ∈ grammar)
    (hread : Number.read? (canonical literal) = some x) :
    (readLiteral s x.plain).toOption = (readLiteral s (canonical literal)).toOption := by
  have hplain : '_' ∉ x.plain := by
    obtain ⟨d, rfl⟩ := Number.finite_of_read?
      (fun c hc => (isNumeric_of_mem_form (canonical_mem_form h) c hc).1) hread
    exact fun hmem => (Decimal.isNumeric_of_mem_plain hmem).2 rfl
  rw [readLiteral_toOption hplain, readLiteral_toOption (underscore_notMem_canonical h),
    read?_plain h hread, hread]

section

variable (h : literal ∈ grammar) (room : (literal.filter isDigit).length ≤ s.precision)

include h room

/-- Where there is room for all digits, a literal stands for what it writes. -/
theorem read?_of_readLiteral (hread : readLiteral s (canonical literal) = .ok x) :
    Number.read? (canonical literal) = some x := by
  have hplus := readLiteral_toOption (s := s) (underscore_notMem_canonical h)
  rw [hread, (read?_canonical h).1] at hplus
  obtain ⟨y, hy, hplus⟩ := Option.bind_eq_some_iff.mp hplus.symm
  obtain ⟨d, hd, rfl⟩ := Option.map_eq_some_iff.mp hy
  have writes := writes_of_readUnsigned? h hd
  obtain rfl := writes.plus_eq_ok s.precision_pos room (Except.toOption_eq_some.mp hplus)
  rw [(read?_canonical h).1, hd]
  rfl

/-- **A minus sign that is a part of a literal** does what negating does to the value of the
literal, if there is room for all digits. -/
theorem readLiteral_negative : (readLiteral s ('-' :: canonical literal)).toOption =
    (readLiteral s (canonical literal)).toOption.bind fun x => (Functions.negate s x).toOption := by
  have hunderscore := underscore_notMem_canonical h
  have hnegative : '_' ∉ '-' :: canonical literal := by simp [hunderscore]
  obtain ⟨hplain, hsigned⟩ := read?_canonical h
  rw [readLiteral_toOption hnegative, readLiteral_toOption hunderscore, hplain, hsigned]
  cases hd : Decimal.readUnsigned? false (canonical literal) with
  | none => rfl
  | some d =>
      have hnegate : ∀ x, (Functions.negate s x).toOption = (Number.minus s.format x).toOption := by
        intro x
        rw [Functions.negate, Outcome.ofSignal]
        cases Number.minus s.format x <;> rfl
      have writes := writes_of_readUnsigned? h hd
      simp only [Option.map_some, Option.bind_some, hnegate]
      exact writes.minus s.precision_pos room

end

end NumberLiteral

end DecimalCalc
