import DecimalCalc.Proofs.DisplayedNumbers

/-!
# The display is faithful

A number is shown in a layout of its own (`Layout`): a sign, the digits of its integral part in blocks,
and after the point the digits of its fraction, without a zero that could be left out. In no locale can
the point or the mark between blocks be taken for one another, for a digit or for a sign. So deleting
the marks gives the plain text of the trimmed number again (`Layout.Proper.erased_text`).

**What is shown determines the number that is meant** (`Number.display_faithful`): it is read back as
the same value, and numbers of different values are never shown alike. Only a zero whose exponent is
the largest that there is cannot be trimmed, as a format with room for one digit more is refused.
-/

set_option autoImplicit false

namespace DecimalCalc

/-! ## Separators -/

namespace Separators

/-- **Separators that cannot be mistaken** for one another, for a digit or for a sign. -/
structure Distinct (s : Separators) : Prop where
  apart : s.point ≠ s.group
  point : s.point.isDigit = false ∧ s.point ≠ '-'
  group : s.group.isDigit = false ∧ s.group ≠ '-'

/-- The separators of a locale are those of English or of some known locale. -/
theorem ofLocale_mem (locale : List Char) :
    ofLocale locale ∈ english :: known.map Prod.snd := by
  have hmem : ∀ {name : List Char} {s : Separators}, known.lookup name = some s →
      s ∈ known.map Prod.snd := by
    intro name s h
    obtain ⟨before, after, heq, -⟩ := List.lookup_eq_some_iff.mp h
    rw [heq]
    simp
  unfold ofLocale
  dsimp only
  split
  · rename_i s hs
    exact List.mem_cons_of_mem _ (hmem hs)
  · cases hlanguage : known.lookup ((locale.map fun c => if c = '-' then '_' else c).takeWhile
      (· ≠ '_')) with
    | none => exact List.mem_cons_self
    | some s => exact List.mem_cons_of_mem _ (hmem hlanguage)

/-- **The separators of every locale are distinct.** -/
theorem ofLocale_distinct (locale : List Char) : (ofLocale locale).Distinct := by
  have hall : ∀ s ∈ english :: known.map Prod.snd, s.point ≠ s.group ∧
      (s.point.isDigit = false ∧ s.point ≠ '-') ∧ s.group.isDigit = false ∧ s.group ≠ '-' := by
    decide
  obtain ⟨apart, point, group⟩ := hall _ (ofLocale_mem locale)
  exact ⟨apart, point, group⟩

/-- A text without the marks between blocks, and with the point of expressions. -/
def erased (s : Separators) (text : List Char) : List Char :=
  (text.filter (· ≠ s.group)).map fun c => if c = s.point then '.' else c

variable {s : Separators}

theorem erased_append (text text' : List Char) :
    s.erased (text ++ text') = s.erased text ++ s.erased text' := by
  rw [erased, List.filter_append, List.map_append]
  rfl

theorem erased_group (text : List Char) : s.erased (s.group :: text) = s.erased text := by
  rw [erased, List.filter_cons_of_neg (by simp)]
  rfl

theorem Distinct.erased_point (h : s.Distinct) (text : List Char) :
    s.erased (s.point :: text) = '.' :: s.erased text := by
  rw [erased, List.filter_cons_of_pos (by simpa using h.apart), List.map_cons, if_pos rfl]
  rfl

/-- Digits and signs stay. -/
theorem Distinct.erased_of_plain (h : s.Distinct) {text : List Char}
    (htext : ∀ c ∈ text, c.isDigit = true ∨ c = '-') : s.erased text = text := by
  have hapart : ∀ c ∈ text, c ≠ s.group ∧ c ≠ s.point := by
    intro c hc
    constructor
    · rintro rfl
      simpa [h.group] using htext _ hc
    · rintro rfl
      simpa [h.point] using htext _ hc
  rw [erased, List.filter_eq_self.mpr fun c hc => by simpa using (hapart c hc).1]
  exact (List.map_congr_left fun c hc => if_neg (hapart c hc).2).trans (List.map_id text)

/-- **Deleting the marks joins the blocks.** -/
theorem Distinct.erased_intercalate (h : s.Distinct) {blocks : List (List Char)}
    (hblocks : ∀ c ∈ blocks.flatten, c.isDigit = true) :
    s.erased ([s.group].intercalate blocks) = blocks.flatten := by
  induction blocks with
  | nil => rfl
  | cons block rest ih =>
      rw [List.flatten_cons] at hblocks
      have hblock : s.erased block = block :=
        h.erased_of_plain fun c hc => .inl (hblocks c (List.mem_append_left _ hc))
      have hrest := ih fun c hc => hblocks c (List.mem_append_right _ hc)
      cases rest with
      | nil => simpa using hblock
      | cons next rest =>
          rw [List.intercalate_cons_cons, List.append_assoc, erased_append, hblock,
            List.singleton_append, erased_group, hrest]
          rfl

end Separators

/-! ## Blocks of digits -/

/-- **Digits in blocks**: in a single one, or with grouping in blocks of three, the first of which may
have less. -/
def InBlocks (grouping : Bool) : List (List Char) → Prop
  | [] => False
  | first :: rest =>
    if grouping then first ≠ [] ∧ first.length ≤ 3 ∧ ∀ block ∈ rest, block.length = 3 else rest = []

theorem intercalate_concat {mark : List Char} (first : List Char) (blocks : List (List Char))
    (last : List Char) : mark.intercalate (first :: (blocks ++ [last])) =
      mark.intercalate (first :: blocks) ++ mark ++ last := by
  induction blocks generalizing first with
  | nil => simp [List.intercalate_cons_cons]
  | cons next blocks ih =>
      rw [List.cons_append, List.intercalate_cons_cons, ih, List.intercalate_cons_cons]
      simp only [List.append_assoc]

/-- A row of digits that is grouped from its end is a first block and blocks of three. -/
theorem groupReversed_blocks (mark : Char) (row : List Char) : row ≠ [] →
    ∃ first blocks, InBlocks true (first :: blocks) ∧ (first :: blocks).flatten = row.reverse ∧
      (groupReversed mark row).reverse = [mark].intercalate (first :: blocks) := by
  fun_induction groupReversed mark row with
  | case1 a b c d rest ih =>
      intro _
      obtain ⟨first, blocks, ⟨hne, hshort, hthree⟩, hflat, hgrouped⟩ := ih (List.cons_ne_nil d rest)
      refine ⟨first, blocks ++ [[c, b, a]], ⟨hne, hshort, ?_⟩, ?_, ?_⟩
      · intro block hblock
        rcases List.mem_append.mp hblock with hblock | hblock
        · exact hthree block hblock
        · rw [List.mem_singleton.mp hblock]
          rfl
      · rw [← List.cons_append, List.flatten_append, hflat]
        simp
      · rw [intercalate_concat, ← hgrouped]
        simp
  | case2 short hshort =>
      intro hne
      refine ⟨short.reverse, [], ⟨by simpa using hne, ?_, nofun⟩, by simp, by simp⟩
      rw [List.length_reverse]
      by_contra hlong
      -- four digits or more are the other case
      match short with
      | [] | [_] | [_, _] | [_, _, _] => simp at hlong
      | a :: b :: c :: d :: rest => exact hshort a b c d rest rfl

/-- **Digits are shown in blocks.** -/
theorem exists_blocks (mark : Char) (grouping : Bool) {row : List Char} (hne : row ≠ []) :
    ∃ blocks, InBlocks grouping blocks ∧ blocks.flatten = row ∧
      (if grouping then groupDigits mark row else row) = [mark].intercalate blocks := by
  cases grouping with
  | true =>
      obtain ⟨first, blocks, hblocks, hflat, hgrouped⟩ :=
        groupReversed_blocks mark row.reverse (by simpa using hne)
      exact ⟨first :: blocks, hblocks, by rw [hflat, List.reverse_reverse], hgrouped⟩
  | false => exact ⟨[row], rfl, by simp, by simp⟩

/-! ## Layouts -/

/-- **The layout of a shown number**: whether it has a minus sign, the blocks of its integral digits, and
the digits of its fraction. -/
structure Layout where
  negative : Bool
  blocks : List (List Char)
  fraction : List Char

namespace Layout

/-- The digits before the point. -/
def integral (l : Layout) : List Char := l.blocks.flatten

/-- The text of a layout: a mark stands between two blocks, and the point before a fraction. -/
def text (s : Separators) (l : Layout) : List Char :=
  (if l.negative then ['-'] else []) ++ [s.group].intercalate l.blocks ++
    if l.fraction.isEmpty then [] else s.point :: l.fraction

/-- The plain text of a layout: no marks, and the point of expressions. -/
def plain (l : Layout) : List Char :=
  (if l.negative then ['-'] else []) ++
    if l.fraction = [] then l.integral else l.integral ++ '.' :: l.fraction

/-- **A proper layout**: nothing but digits, at least one of them before the point, none of them a zero
that could be left out, and the integral ones in blocks. -/
structure Proper (grouping : Bool) (l : Layout) : Prop where
  digits : ∀ c ∈ l.integral ++ l.fraction, c.isDigit = true
  whole : l.integral ≠ []
  leading : l.integral.head? = some '0' → l.integral = ['0']
  trailing : l.fraction.getLast? ≠ some '0'
  blocked : InBlocks grouping l.blocks

/-- **Deleting the marks and writing the point of expressions** gives the plain text. -/
theorem Proper.erased_text {grouping : Bool} {l : Layout} (h : l.Proper grouping) {s : Separators}
    (distinct : s.Distinct) : s.erased (l.text s) = l.plain := by
  have hsign : s.erased (if l.negative then ['-'] else []) = if l.negative then ['-'] else [] := by
    refine distinct.erased_of_plain fun c hc => ?_
    split at hc
    · exact .inr (List.mem_singleton.mp hc)
    · cases hc
  have hintegral : s.erased ([s.group].intercalate l.blocks) = l.integral :=
    distinct.erased_intercalate fun c hc => h.digits c (List.mem_append_left _ hc)
  have hfraction : s.erased l.fraction = l.fraction :=
    distinct.erased_of_plain fun c hc => .inl (h.digits c (List.mem_append_right _ hc))
  rw [text, plain, Separators.erased_append, Separators.erased_append, hsign, hintegral,
    List.append_assoc]
  congr 1
  cases hempty : l.fraction with
  | nil => simp [Separators.erased]
  | cons c rest =>
      rw [List.isEmpty_cons, if_neg Bool.false_ne_true, distinct.erased_point, ← hempty, hfraction,
        if_neg (by simp [hempty])]

end Layout

theorem isDigit_of_mem_map {row : List Nat} (hrow : ∀ d ∈ row, d < 10) :
    ∀ c ∈ row.map digitChar, c.isDigit = true := by
  intro c hc
  obtain ⟨d, hd, rfl⟩ := List.mem_map.mp hc
  have hall : ∀ d < 10, (digitChar d).isDigit = true := by decide
  exact hall d (hrow d hd)

/-- Only zero is written as a zero. -/
theorem digitChar_eq_zero {d : Nat} (hd : d < 10) (h : digitChar d = '0') : d = 0 := by
  have hall : ∀ d < 10, digitChar d = '0' → d = 0 := by decide
  exact hall d hd h

namespace Decimal

/-- **The digits before the point** start with a zero only if that is all. -/
theorem whole_eq_zero {n places : Nat} {whole fraction : List Nat}
    (hsplit : pointRow (digitsOf n) places = whole ++ fraction)
    (hplaces : fraction.length = places) (hhead : whole.head? = some 0) : whole = [0] := by
  obtain ⟨rest, rfl⟩ := List.head?_eq_some_iff.mp hhead
  have hlength := congrArg List.length hsplit
  rw [pointRow, List.length_append, List.length_replicate, List.length_append, List.length_cons,
    hplaces] at hlength
  suffices hrest : rest.length = 0 by rw [List.length_eq_zero_iff.mp hrest]
  by_cases hshort : (digitsOf n).length ≤ places
  · -- zeros fill the row up to the one digit before the point
    omega
  · rw [pointRow, show places + 1 - (digitsOf n).length = 0 by omega, List.replicate_zero,
      List.nil_append] at hsplit
    have hzero : n = 0 := by
      by_contra hn
      exact head?_digitsOf hn (by rw [hsplit]; rfl)
    have hone : (digitsOf n).length = 1 := by rw [length_digitsOf, hzero, digitCount_zero]
    omega

/-- **The digits after the point** of a trimmed decimal do not end in a zero. -/
theorem Trimmed.getLast?_fraction {d : Decimal} (h : d.Trimmed) {whole fraction : List Nat}
    (hsplit : pointRow (digitsOf d.coefficient) d.exponent.natAbs = whole ++ fraction)
    (hplaces : fraction.length = d.exponent.natAbs) : fraction.getLast? ≠ some 0 := by
  intro hlast
  have hne : fraction ≠ [] := by
    rintro rfl
    cases hlast
  have hpositive := List.length_pos_of_ne_nil hne
  have hrow := congrArg List.getLast? hsplit
  rw [List.getLast?_append_of_ne_nil _ hne, hlast, pointRow, List.getLast?_append,
    getLast?_digitsOf] at hrow
  have hten : d.coefficient % 10 = 0 := by simpa using hrow
  have hplaces' := h.places
  exact h.ended (by omega) (Nat.dvd_of_mod_eq_zero hten)

/-- **A trimmed decimal has a proper layout**, which its plain text is shown in. -/
theorem Trimmed.exists_layout {d : Decimal} (h : d.Trimmed) (s : Separators) (grouping : Bool) :
    ∃ l : Layout, l.Proper grouping ∧ localized s grouping d.plain = l.text s ∧
      d.plain = l.plain := by
  obtain ⟨whole, fraction, hsplit, hwhole, hplaces, htext⟩ :=
    withPoint_parts (digitsOf d.coefficient) d.exponent.natAbs
  have hrow : ∀ n ∈ whole ++ fraction, n < 10 := fun n hn =>
    mem_pointRow (fun _ => mem_digitsOf) (hsplit ▸ hn)
  have hintegral : ∀ n ∈ whole, n < 10 := fun n hn => hrow n (List.mem_append_left _ hn)
  have hplain : d.plain = (if d.negative then ['-'] else []) ++
      if fraction.map digitChar = [] then whole.map digitChar
      else whole.map digitChar ++ '.' :: fraction.map digitChar := by
    rw [plain_eq, plainBody, if_pos h.places, numeral, htext, signText]
    simp only [List.map_eq_nil_iff]
  have hne : whole.map digitChar ≠ [] := by simpa using hwhole
  obtain ⟨blocks, hblocks, hflat, hgrouped⟩ := exists_blocks s.group grouping hne
  refine ⟨⟨d.negative, blocks, fraction.map digitChar⟩, ⟨?_, ?_, ?_, ?_, hblocks⟩, ?_, ?_⟩
  · rw [Layout.integral, hflat, ← List.map_append]
    exact isDigit_of_mem_map hrow
  · rwa [Layout.integral, hflat]
  · -- a zero in front
    rw [Layout.integral, hflat, List.head?_map]
    intro hhead
    obtain ⟨n, hn, hzero⟩ := Option.map_eq_some_iff.mp hhead
    obtain rfl := digitChar_eq_zero (hintegral n (List.mem_of_mem_head? hn)) hzero
    rw [whole_eq_zero hsplit hplaces hn]
    rfl
  · -- a zero at the end
    rw [List.getLast?_map]
    intro hlast
    obtain ⟨n, hn, hzero⟩ := Option.map_eq_some_iff.mp hlast
    obtain rfl := digitChar_eq_zero
      (hrow n (List.mem_append_right _ (List.mem_of_getLast? hn))) hzero
    exact h.getLast?_fraction hsplit hplaces hn
  · rw [hplain, localized_parts s grouping _ (isDigit_of_mem_row hintegral), hgrouped]
    rfl
  · rw [hplain, Layout.plain, Layout.integral, hflat]

end Decimal

/-! ## What is shown -/

/-- **A decimal of moderate size**: zero, or with its leading digit within the limits of a format. It has
no more digits, and none at a higher place, than there may be. -/
structure Decimal.Moderate (d : Decimal) : Prop where
  digits : d.digits ≤ Format.maxPrecision
  highest : d.adjusted ≤ Decimal.maxWrittenPlace
  place : d.isZero = true ∨ Format.minExponent ≤ d.adjusted ∧ d.adjusted ≤ Format.maxExponent

/-- Only a zero stands at the highest place. -/
theorem Decimal.Moderate.isZero {d : Decimal} (h : d.Moderate)
    (hhighest : d.adjusted = Decimal.maxWrittenPlace) : d.isZero = true := by
  refine h.place.resolve_right fun hplace => ?_
  rw [hhighest] at hplace
  exact absurd hplace.2 (by decide)

/-- Below the highest place all digits can be written. -/
theorem Decimal.Moderate.written_le {d : Decimal} (h : d.Moderate)
    (hhighest : d.adjusted ≠ Decimal.maxWrittenPlace) :
    (Number.written d).precision ≤ Format.maxPrecision := by
  have hbelow := h.highest
  have hdigits := h.digits
  unfold Decimal.maxWrittenPlace at hhighest hbelow
  unfold Format.maxPrecision at hdigits ⊢
  simp only [Number.written, Number.writtenDigits]
  omega

namespace Number

variable {d e : Decimal} {locale text : List Char} {grouping : Bool}

/-- **A zero at the highest place is not shown**: a format for one digit more than there may be is
refused. -/
theorem display_highest (h : d.Moderate) (hhighest : d.adjusted = Decimal.maxWrittenPlace) :
    (finite d).display locale grouping = .error .precisionTooLarge := by
  have hzero := h.isZero hhighest
  have hdigits := h.digits
  have hprecision : (written d).precision = Format.maxPrecision + 1 := by
    unfold Decimal.maxWrittenPlace at hhighest
    unfold Format.maxPrecision at hdigits ⊢
    simp only [written, writtenDigits]
    omega
  have hcheck : (written d).check = .error .precisionTooLarge := by
    rw [Format.check, hprecision]
    rfl
  have hinteger : d.isInteger = true := by simp [Decimal.isInteger, hzero]
  have htrim : (finite d).trim = .error .precisionTooLarge := by
    show (if d.isInteger then quantize (written d) (.finite d) 0
      else normalize (written d) (.finite d)) = _
    rw [hinteger, if_pos rfl, quantize, lift₁, hcheck]
    rfl
  rw [display, htrim]
  rfl

/-- **A decimal of moderate size is shown in a proper layout, and read back from it.** -/
theorem exists_layout (h : d.Moderate) (hhighest : d.adjusted ≠ Decimal.maxWrittenPlace) :
    ∃ l : Layout, l.Proper grouping ∧
      (finite d).display locale grouping = .ok (l.text (Separators.ofLocale locale)) ∧
      (Separators.ofLocale locale).erased (l.text (Separators.ofLocale locale)) = l.plain ∧
      ∃ y, read? l.plain = some (.finite y) ∧ y.value = d.value := by
  have hroom := h.written_le hhighest
  obtain ⟨y, htrim, hvalue, htrimmed, hfits⟩ := trim_exact hroom h.place
  obtain ⟨l, hproper, hlocalized, hplain⟩ :=
    htrimmed.exists_layout (Separators.ofLocale locale) grouping
  refine ⟨l, hproper, ?_, hproper.erased_text (Separators.ofLocale_distinct locale), y.rewritten,
    ?_, ?_⟩
  · rw [display, htrim]
    exact congrArg Except.ok hlocalized
  · rw [← hplain]
    exact Decimal.read?_plain_of_fits hroom hfits
  · exact Eq.trans y.rewritten_same hvalue

/-- **Different numbers are never shown alike.** -/
theorem value_eq_of_display (hd : d.Moderate) (he : e.Moderate)
    (hshown : (finite d).display locale grouping = .ok text)
    (hshown' : (finite e).display locale grouping = .ok text) : d.value = e.value := by
  have hread : ∀ {d : Decimal}, d.Moderate → (finite d).display locale grouping = .ok text →
      ∃ y, read? ((Separators.ofLocale locale).erased text) = some (.finite y) ∧
        y.value = d.value := by
    intro d h hshown
    have hhighest : d.adjusted ≠ Decimal.maxWrittenPlace := by
      intro hhighest
      rw [display_highest h hhighest] at hshown
      cases hshown
    obtain ⟨l, -, htext, herased, hvalue⟩ := exists_layout h hhighest
    obtain rfl := Except.ok.inj (htext.symm.trans hshown)
    rw [herased]
    exact hvalue
  obtain ⟨y, hy, hvalue⟩ := hread hd hshown
  obtain ⟨z, hz, hvalue'⟩ := hread he hshown'
  obtain rfl : y = z := by simpa [hy] using hz
  exact hvalue.symm.trans hvalue'

/-- **The display is faithful.** In every locale, with or without grouping, a decimal of moderate size is
shown in a proper layout; deleting the marks between blocks and writing the point of expressions gives
a text that is read as the same value; and decimals of different values are never shown alike. Only a
zero at the highest place is not shown: the format for it is refused. -/
theorem display_faithful (locale : List Char) (grouping : Bool) :
    (∀ d : Decimal, d.Moderate → d.adjusted ≠ Decimal.maxWrittenPlace →
      ∃ l : Layout, l.Proper grouping ∧
        (finite d).display locale grouping = .ok (l.text (Separators.ofLocale locale)) ∧
        (Separators.ofLocale locale).erased (l.text (Separators.ofLocale locale)) = l.plain ∧
        ∃ y, read? l.plain = some (.finite y) ∧ y.value = d.value) ∧
    (∀ d : Decimal, d.Moderate → d.adjusted = Decimal.maxWrittenPlace →
      (finite d).display locale grouping = .error .precisionTooLarge) ∧
    ∀ (d e : Decimal) (text : List Char), d.Moderate → e.Moderate → d.value ≠ e.value →
      (finite d).display locale grouping = .ok text →
        (finite e).display locale grouping ≠ .ok text := by
  refine ⟨?_, ?_, ?_⟩
  · intro d h hhighest
    exact exists_layout h hhighest
  · intro d h hhighest
    exact display_highest h hhighest
  · intro d e text hd he hne hshown hshown'
    exact hne (value_eq_of_display hd he hshown hshown')

/-- A negative number in German notation, with grouping. Its last zero is left out, and without the
marks its text is read as its value. -/
theorem display_faithful_millions :
    let d : Decimal := ⟨true, 1234567890, -3⟩
    let s := Separators.ofLocale "de-AT".toList
    d.Moderate ∧ (finite d).display "de-AT".toList true = .ok "-1.234.567,89".toList ∧
      s.erased "-1.234.567,89".toList = "-1234567.89".toList ∧
      ∃ y, read? "-1234567.89".toList = some (.finite y) ∧ y.value = d.value := by
  intro d s
  have hd : d.Moderate := ⟨by decide +kernel, by decide +kernel, .inr (by decide +kernel)⟩
  have hshown : (finite d).display "de-AT".toList true = .ok "-1.234.567,89".toList := by
    decide +kernel
  have herased : s.erased "-1.234.567,89".toList = "-1234567.89".toList := by decide +kernel
  obtain ⟨l, -, htext, hplain, y, hy, hvalue⟩ :=
    (display_faithful "de-AT".toList true).1 d hd (by decide +kernel)
  rw [Except.ok.inj (htext.symm.trans hshown)] at hplain
  rw [← hplain] at hy
  exact ⟨hd, hshown, herased, y, herased ▸ hy, hvalue⟩

/-- **Not every zero is shown**: with the largest exponent that there is, it is refused. -/
theorem display_zero_refused :
    let d : Decimal := ⟨false, 0, 999999999999999999⟩
    d.Moderate ∧ d.isZero = true ∧
      (finite d).display "en".toList false = .error .precisionTooLarge := by
  intro d
  exact ⟨⟨by decide +kernel, by decide +kernel, .inl rfl⟩, rfl, by decide +kernel⟩

end Number

end DecimalCalc
