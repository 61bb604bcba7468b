import DecimalCalc.Number.Literal
import DecimalCalc.Proofs.CharacterClasses
import DecimalCalc.Proofs.Numerals

/-!
# Plain texts of numbers

The plain text of a decimal is read as a decimal of the same value (`Decimal.read?_plain`): the zeros
in front, and those that fill the places up to the point, do not change what its digits are worth.

A text of nothing but digits, points, hyphens and underscores never names an infinity or a NaN, so
what is read from it is finite (`Number.finite_of_read?`).
-/

set_option autoImplicit false

namespace DecimalCalc

open Text

/-! ## Rows of digits in a text -/

theorem spanDigits_run {digits rest : List Char} (hdigits : ∀ c ∈ digits, isDigit c = true)
    (hrest : ∀ c ∈ rest.head?, isDigit c = false) :
    spanDigits (digits ++ rest) = (digits.filterMap digitValue?, rest) := by
  have htake : (digits ++ rest).takeWhile isDigit = digits := by
    rw [List.takeWhile_append_of_pos hdigits]
    cases rest with
    | nil => simp
    | cons c rest => simp [hrest c rfl]
  have hdrop : (digits ++ rest).dropWhile isDigit = rest := by
    rw [List.dropWhile_append_of_pos hdigits]
    cases rest with
    | nil => rfl
    | cons c rest => rw [List.dropWhile_cons_of_neg (by simp [hrest c rfl])]
  rw [spanDigits, htake, hdrop]

/-- Digits without anything after them. -/
theorem spanDigits_digits {digits : List Char} (hdigits : ∀ c ∈ digits, isDigit c = true) :
    spanDigits digits = (digits.filterMap digitValue?, []) := by
  have hspan : spanDigits (digits ++ []) = (digits.filterMap digitValue?, []) :=
    spanDigits_run hdigits nofun
  rwa [List.append_nil] at hspan

theorem isDigit_of_mem_row {row : List Nat} (hrow : ∀ d ∈ row, d < 10) :
    ∀ c ∈ row.map digitChar, isDigit c = true := by
  intro c hc
  obtain ⟨d, hd, rfl⟩ := List.mem_map.mp hc
  exact isDigit_digitChar (hrow d hd)

/-- The values of the digits that a row is written with. -/
theorem filterMap_digitValue?_row {row : List Nat} (hrow : ∀ d ∈ row, d < 10) :
    (row.map digitChar).filterMap digitValue? = row := by
  rw [List.filterMap_map]
  calc row.filterMap (digitValue? ∘ digitChar)
      = row.filterMap some := List.filterMap_congr fun d hd => digitValue?_digitChar (hrow d hd)
    _ = row := List.filterMap_some

/-- Every digit has a value. -/
theorem length_filterMap_digitValue? {digits : List Char}
    (hdigits : ∀ c ∈ digits, isDigit c = true) :
    (digits.filterMap digitValue?).length = digits.length := by
  induction digits with
  | nil => rfl
  | cons c digits ih =>
      obtain ⟨d, hd⟩ := Option.isSome_iff_exists.mp (hdigits c List.mem_cons_self)
      rw [List.filterMap_cons_some hd, List.length_cons, List.length_cons,
        ih fun c hc => hdigits c (List.mem_cons_of_mem _ hc)]

/-- A row of digits is worth less than the power of ten with as many zeros, whatever their script. -/
theorem digitsValue_filterMap_lt {digits : List Char} (hdigits : ∀ c ∈ digits, isDigit c = true) :
    digitsValue (digits.filterMap digitValue?) < tenPow digits.length := by
  have hrow : ∀ n ∈ digits.filterMap digitValue?, n < 10 := by
    intro n hn
    obtain ⟨c, -, hvalue⟩ := List.mem_filterMap.mp hn
    exact digitValue?_lt hvalue
  have hlt := digitsValue_lt hrow
  rwa [length_filterMap_digitValue? hdigits] at hlt

theorem strip_of_not_blank {text : List Char} (h : ∀ c ∈ text, isBlank c = false) :
    strip text = text := by
  have hdrop : ∀ t : List Char, (∀ c ∈ t, isBlank c = false) → t.dropWhile isBlank = t := by
    intro t ht
    cases t with
    | nil => rfl
    | cons c t => rw [List.dropWhile_cons_of_neg (by simp [ht c])]
  rw [strip, hdrop text h, hdrop text.reverse fun c hc => h c (List.mem_reverse.mp hc),
    List.reverse_reverse]

theorem mem_of_mem_strip {text : List Char} {c : Char} (h : c ∈ strip text) : c ∈ text :=
  (List.dropWhile_suffix _).subset <| List.mem_reverse.mp <| (List.dropWhile_suffix _).subset <|
    List.mem_reverse.mp h

/-! ## Numeric texts -/

/-- A character of a **numeric** text. -/
def IsNumeric (c : Char) : Prop := isDigit c = true ∨ c = '.' ∨ c = '-' ∨ c = '_'

namespace Number

/-- No name of an infinity or a NaN starts with a numeric character. -/
theorem toLower_of_isNumeric {c : Char} (h : IsNumeric c) :
    c.toLower ≠ 'n' ∧ c.toLower ≠ 's' ∧ c.toLower ≠ 'i' := by
  have hupper : ∀ n ∈ List.range 26, isDigit (Char.ofNat (65 + n)) = false := by decide
  have hcase : c.toLower = c ∨ ∃ n ∈ List.range 26, c = Char.ofNat (65 + n) := by
    unfold Char.toLower
    split
    · rename_i hc
      have hlow : 65 ≤ c.toNat := UInt32.le_iff_toNat_le.mp hc.1
      have hhigh : c.toNat ≤ 90 := UInt32.le_iff_toNat_le.mp hc.2
      refine .inr ⟨c.toNat - 65, ?_, ?_⟩
      · rw [List.mem_range]
        omega
      · rw [show 65 + (c.toNat - 65) = c.toNat by omega, Char.ofNat_toNat]
    · exact .inl rfl
  rcases hcase with heq | ⟨n, hn, rfl⟩
  · rw [heq]
    refine ⟨?_, ?_, ?_⟩ <;> rintro rfl <;> exact absurd h (by unfold IsNumeric; decide)
  · rcases h with h | h
    · rw [hupper n hn] at h
      exact absurd h (by decide)
    · revert h
      revert n
      decide

theorem afterName?_eq_none {letter : Char} {name text : List Char}
    (h : ∀ c ∈ text.head?, c.toLower ≠ letter) : afterName? (letter :: name) text = none := by
  cases text with
  | nil => rfl
  | cons c text => rw [afterName?, if_neg (h c rfl)]

theorem readSpecial?_numeric {text : List Char} (h : ∀ c ∈ text, IsNumeric c) (negative : Bool) :
    readSpecial? negative text = none := by
  have hhead : ∀ c ∈ text.head?,
      c.toLower ≠ 'n' ∧ c.toLower ≠ 's' ∧ c.toLower ≠ 'i' := fun c hc =>
    toLower_of_isNumeric (h c (List.mem_of_mem_head? hc))
  have hnan : afterName? "nan".toList text = none :=
    afterName?_eq_none fun c hc => (hhead c hc).1
  have hsnan : afterName? "snan".toList text = none :=
    afterName?_eq_none fun c hc => (hhead c hc).2.1
  have hinf : afterName? "inf".toList text = none :=
    afterName?_eq_none fun c hc => (hhead c hc).2.2
  rw [readSpecial?, hnan, hsnan, hinf]

theorem mem_of_mem_spanSign {text : List Char} {c : Char} (h : c ∈ (spanSign text).2) :
    c ∈ text := by
  unfold spanSign at h
  split at h
  · exact List.mem_cons_of_mem _ h
  · exact List.mem_cons_of_mem _ h
  · exact h

theorem read?_numeric {text : List Char} (h : ∀ c ∈ text, IsNumeric c) :
    read? text = (Decimal.readUnsigned? (spanSign (strip text)).1
      (spanSign (strip text)).2).map .finite := by
  have hbody : ∀ c ∈ (spanSign (strip text)).2, IsNumeric c := fun c hc =>
    h c (mem_of_mem_strip (mem_of_mem_spanSign hc))
  rw [read?]
  simp only [readSpecial?_numeric hbody]

/-- **What is read from a numeric text is finite.** -/
theorem finite_of_read? {text : List Char} (h : ∀ c ∈ text, IsNumeric c) {x : Number}
    (hx : read? text = some x) : ∃ d, x = .finite d := by
  rw [read?_numeric h, Option.map_eq_some_iff] at hx
  obtain ⟨d, -, rfl⟩ := hx
  exact ⟨d, rfl⟩

end Number

/-! ## Plain texts -/

namespace Decimal

/-- The digits of a plain text: zeros in front when the row is too short to leave a digit before the
point. -/
def pointRow (row : List Nat) (places : Nat) : List Nat :=
  List.replicate (places + 1 - row.length) 0 ++ row

theorem withPoint_eq (row : List Nat) (places : Nat) :
    withPoint (row.map digitChar) places =
      if places = 0 then (pointRow row places).map digitChar
      else ((pointRow row places).take ((pointRow row places).length - places)).map digitChar ++ '.' ::
        ((pointRow row places).drop ((pointRow row places).length - places)).map digitChar := by
  have hrow : List.replicate (places + 1 - (row.map digitChar).length) '0' ++ row.map digitChar =
      (pointRow row places).map digitChar := by
    rw [pointRow, List.map_append, List.map_replicate, List.length_map, digitChar_zero]
  unfold withPoint
  dsimp only
  rw [hrow, List.length_map, List.map_take, List.map_drop]

theorem mem_pointRow {row : List Nat} (h : ∀ d ∈ row, d < 10) {places d : Nat}
    (hd : d ∈ pointRow row places) : d < 10 := by
  rcases List.mem_append.mp hd with hd | hd
  · rw [(List.mem_replicate.mp hd).2]
    decide
  · exact h d hd

/-- **The digits around the point**: at least one before it, and as many after it as there are places.
-/
theorem withPoint_parts (row : List Nat) (places : Nat) :
    ∃ whole fraction, pointRow row places = whole ++ fraction ∧ whole ≠ [] ∧
      fraction.length = places ∧ withPoint (row.map digitChar) places =
        if fraction = [] then whole.map digitChar
        else whole.map digitChar ++ '.' :: fraction.map digitChar := by
  have hlength : places < (pointRow row places).length := by
    rw [pointRow, List.length_append, List.length_replicate]
    omega
  have hfraction : ((pointRow row places).drop ((pointRow row places).length - places)).length =
      places := by
    rw [List.length_drop]
    omega
  refine ⟨_, _, (List.take_append_drop ((pointRow row places).length - places) _).symm, ?_,
    hfraction, ?_⟩
  · rw [← List.length_pos_iff, List.length_take]
    omega
  · rw [withPoint_eq]
    by_cases hzero : places = 0
    · rw [if_pos hzero, if_pos (List.length_eq_zero_iff.mp (hfraction.trans hzero)), hzero,
        Nat.sub_zero, List.take_length]
    · rw [if_neg hzero, if_neg]
      rintro hnil
      rw [hnil] at hfraction
      exact hzero hfraction.symm

theorem isNumeric_of_mem_withPoint {row : List Nat} (h : ∀ d ∈ row, d < 10) {places : Nat}
    {c : Char} (hc : c ∈ withPoint (row.map digitChar) places) :
    isDigit c = true ∨ c = '.' := by
  obtain ⟨whole, fraction, hrow, -, -, htext⟩ := withPoint_parts row places
  have hdigit : c ∈ (whole ++ fraction).map digitChar → isDigit c = true := fun hmem =>
    isDigit_of_mem_row (fun d hd => mem_pointRow h (hrow ▸ hd)) c hmem
  rw [List.map_append, List.mem_append] at hdigit
  rw [htext] at hc
  split at hc
  · exact .inl (hdigit (.inl hc))
  · rcases List.mem_append.mp hc with hc | hc
    · exact .inl (hdigit (.inl hc))
    · rcases List.mem_cons.mp hc with rfl | hc
      · exact .inr rfl
      · exact .inl (hdigit (.inr hc))

/-- The text after the sign of a plain text. -/
def plainBody (x : Decimal) : List Char :=
  if x.exponent ≤ 0 then withPoint (numeral x.coefficient) x.exponent.natAbs
  else if x.isZero then numeral x.coefficient
  else numeral x.coefficient ++ List.replicate x.exponent.toNat '0'

theorem plain_eq (x : Decimal) : x.plain = x.signText ++ x.plainBody := by
  unfold plain plainBody
  split
  · rfl
  · split
    · rfl
    · exact List.append_assoc ..

theorem mem_plainBody {x : Decimal} {c : Char} (h : c ∈ x.plainBody) :
    isDigit c = true ∨ c = '.' := by
  unfold plainBody at h
  split at h
  · exact isNumeric_of_mem_withPoint (fun _ => mem_digitsOf) h
  · split at h
    · exact .inl (isDigit_of_mem_numeral h)
    · rcases List.mem_append.mp h with h | h
      · exact .inl (isDigit_of_mem_numeral h)
      · rw [(List.mem_replicate.mp h).2]
        exact .inl (by decide)

/-- **A plain text is numeric.** -/
theorem isNumeric_of_mem_plain {x : Decimal} {c : Char} (h : c ∈ x.plain) :
    IsNumeric c ∧ c ≠ '_' := by
  rw [plain_eq] at h
  rcases List.mem_append.mp h with h | h
  · unfold signText at h
    split at h
    · rw [List.mem_singleton.mp h]
      exact ⟨.inr (.inr (.inl rfl)), by decide⟩
    · exact absurd h List.not_mem_nil
  · rcases mem_plainBody h with h | rfl
    · refine ⟨.inl h, ?_⟩
      rintro rfl
      exact absurd h (by decide)
    · exact ⟨.inr (.inl rfl), by decide⟩

/-! ### Reading them back -/

/-- An unsigned text of digits around a point, or without one. The digits may be of any script. -/
theorem readUnsigned?_point {whole fraction : List Char}
    (hwhole : ∀ c ∈ whole, isDigit c = true) (hne : whole ≠ [])
    (hfraction : ∀ c ∈ fraction, isDigit c = true) (negative : Bool) :
    readUnsigned? negative (if fraction = [] then whole else whole ++ '.' :: fraction) =
      let x : Decimal := ⟨negative, digitsValue ((whole ++ fraction).filterMap digitValue?),
        -(fraction.length : Int)⟩
      if maxWrittenPlace < x.adjusted ∨ x.exponent < minWrittenExponent then none else some x := by
  have hempty : (whole.filterMap digitValue?).isEmpty = false := by
    rw [List.isEmpty_eq_false_iff, ← List.length_pos_iff, length_filterMap_digitValue? hwhole]
    exact List.length_pos_of_ne_nil hne
  by_cases hnone : fraction = []
  · rw [if_pos hnone, readUnsigned?, spanDigits_digits hwhole]
    simp [hempty, hnone, readExponent?]
  · have hspan : spanDigits (whole ++ '.' :: fraction) =
        (whole.filterMap digitValue?, '.' :: fraction) :=
      spanDigits_run hwhole (by rintro c ⟨⟩; decide)
    rw [if_neg hnone, readUnsigned?, hspan]
    simp [hempty, spanDigits_digits hfraction, readExponent?,
      length_filterMap_digitValue? hfraction]

/-- A text of two rows of digits around a point, or of one. -/
theorem readUnsigned?_row {whole : List Nat} (hwhole : ∀ d ∈ whole, d < 10) (hne : whole ≠ [])
    {fraction : List Nat} (hfraction : ∀ d ∈ fraction, d < 10) (negative : Bool) {text : List Char}
    (htext : text = if fraction = [] then whole.map digitChar
      else whole.map digitChar ++ '.' :: fraction.map digitChar) :
    readUnsigned? negative text =
      let x : Decimal := ⟨negative, digitsValue (whole ++ fraction), -(fraction.length : Int)⟩
      if maxWrittenPlace < x.adjusted ∨ x.exponent < minWrittenExponent then none else some x := by
  have hread := readUnsigned?_point (isDigit_of_mem_row hwhole) (by simpa using hne)
    (isDigit_of_mem_row hfraction) negative
  rw [← List.map_append, filterMap_digitValue?_row fun d hd =>
    (List.mem_append.mp hd).elim (hwhole d) (hfraction d), List.length_map] at hread
  rw [htext, ← hread]
  simp only [List.map_eq_nil_iff]

/-- The decimal that a plain text is read as: zeros stand in for a positive exponent. -/
def rewritten (x : Decimal) : Decimal :=
  ⟨x.negative, x.coefficient * tenPow x.exponent.toNat, min x.exponent 0⟩

theorem digitsOf_ne_nil (n : Nat) : digitsOf n ≠ [] := by
  rw [← List.length_pos_iff, length_digitsOf]
  exact digitCount_pos _

/-- Digits with a point among them are read as the decimal. -/
theorem readUnsigned?_withPoint {x : Decimal} (he : x.exponent ≤ 0) :
    readUnsigned? x.negative (withPoint (numeral x.coefficient) x.exponent.natAbs) =
      if maxWrittenPlace < x.rewritten.adjusted ∨ x.rewritten.exponent < minWrittenExponent
      then none else some x.rewritten := by
  obtain ⟨whole, fraction, hsplit, hwhole, hplaces, htext⟩ :=
    withPoint_parts (digitsOf x.coefficient) x.exponent.natAbs
  have hrow : ∀ d ∈ whole ++ fraction, d < 10 := fun d hd =>
    mem_pointRow (fun _ => mem_digitsOf) (hsplit ▸ hd)
  have hvalue : digitsValue (whole ++ fraction) = x.coefficient := by
    rw [← hsplit, pointRow, digitsValue_zeros_append, digitsValue_digitsOf]
  have hrewritten : (⟨x.negative, digitsValue (whole ++ fraction), -(fraction.length : Int)⟩ :
      Decimal) = x.rewritten := by
    rw [hvalue, hplaces, rewritten, Int.toNat_of_nonpos he]
    congr 1
    · exact (Nat.mul_one _).symm
    · omega
  rw [numeral, htext, ← hrewritten]
  exact readUnsigned?_row (fun d hd => hrow d (List.mem_append_left _ hd)) hwhole
    (fun d hd => hrow d (List.mem_append_right _ hd)) _ rfl

/-- Digits and zeros after them are read as the decimal with these zeros in its coefficient. -/
theorem readUnsigned?_zeros (n count : Nat) (negative : Bool) :
    readUnsigned? negative ((digitsOf n ++ List.replicate count 0).map digitChar) =
      let x : Decimal := ⟨negative, n * tenPow count, 0⟩
      if maxWrittenPlace < x.adjusted ∨ x.exponent < minWrittenExponent then none else some x := by
  have hrow : ∀ d ∈ digitsOf n ++ List.replicate count 0, d < 10 := by
    intro d hd
    rcases List.mem_append.mp hd with hd | hd
    · exact mem_digitsOf hd
    · rw [(List.mem_replicate.mp hd).2]
      decide
  have hnone : ∀ d ∈ ([] : List Nat), d < 10 := nofun
  have hread := readUnsigned?_row hrow (by simp [digitsOf_ne_nil]) hnone negative rfl
  rw [List.append_nil, digitsValue_append_zeros, digitsValue_digitsOf] at hread
  exact hread

/-- Without a point, zeros stand in for a positive exponent; a zero needs none. -/
theorem exists_zeros (x : Decimal) :
    ∃ count, (if x.isZero then numeral x.coefficient
        else numeral x.coefficient ++ List.replicate x.exponent.toNat '0') =
          (digitsOf x.coefficient ++ List.replicate count 0).map digitChar ∧
        x.coefficient * tenPow count = x.coefficient * tenPow x.exponent.toNat := by
  cases hx : x.isZero with
  | true =>
      refine ⟨0, by simp [numeral], ?_⟩
      rw [show x.coefficient = 0 by simpa [isZero] using hx, Nat.zero_mul, Nat.zero_mul]
  | false => exact ⟨x.exponent.toNat, by simp [numeral, digitChar_zero], rfl⟩

theorem readUnsigned?_plainBody (x : Decimal) (negative : Bool)
    (hnegative : negative = x.negative) : readUnsigned? negative x.plainBody =
      if maxWrittenPlace < x.rewritten.adjusted ∨ x.rewritten.exponent < minWrittenExponent
      then none else some x.rewritten := by
  subst hnegative
  unfold plainBody
  by_cases he : x.exponent ≤ 0
  · rw [if_pos he]
    exact readUnsigned?_withPoint he
  · obtain ⟨count, htext, hvalue⟩ := exists_zeros x
    have hrewritten : x.rewritten = ⟨x.negative, x.coefficient * tenPow count, 0⟩ := by
      rw [rewritten, hvalue, min_eq_right (by omega)]
    rw [if_neg he, htext, hrewritten]
    exact readUnsigned?_zeros x.coefficient count x.negative

theorem spanSign_plain (x : Decimal) : spanSign x.plain = (x.negative, x.plainBody) := by
  rw [plain_eq]
  unfold signText
  cases hnegative : x.negative with
  | true => rfl
  | false =>
      show spanSign x.plainBody = _
      unfold spanSign
      split
      · rename_i hbody
        exact absurd (mem_plainBody (x := x) (hbody ▸ List.mem_cons_self)) (by decide)
      · rename_i hbody
        exact absurd (mem_plainBody (x := x) (hbody ▸ List.mem_cons_self)) (by decide)
      · rfl

theorem not_blank_of_isNumeric {c : Char} (h : IsNumeric c) : isBlank c = false := by
  by_contra hblank
  rw [Bool.not_eq_false] at hblank
  rcases h with h | rfl | rfl | rfl
  · rw [isDigit_of_isBlank hblank] at h
    exact absurd h (by decide)
  all_goals exact absurd hblank (by decide)

/-- **A plain text is read back**: as the same decimal, or with zeros for a positive exponent. -/
theorem read?_plain {x : Decimal} (hplace : x.rewritten.adjusted ≤ maxWrittenPlace)
    (hexponent : minWrittenExponent ≤ x.rewritten.exponent) :
    Number.read? x.plain = some (.finite x.rewritten) := by
  have hstrip : strip x.plain = x.plain := strip_of_not_blank fun c hc =>
    not_blank_of_isNumeric (isNumeric_of_mem_plain hc).1
  rw [Number.read?_numeric fun c hc => (isNumeric_of_mem_plain hc).1, hstrip, spanSign_plain,
    readUnsigned?_plainBody x _ rfl, if_neg (by omega)]
  rfl

end Decimal

end DecimalCalc
