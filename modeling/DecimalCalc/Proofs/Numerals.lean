import DecimalCalc.Proofs.DigitCounts
import DecimalCalc.Text.DecimalDigit

/-!
# Numerals

What a row of digits is worth, and which row writes a number. Halving is only a way to be fast: a row
that is paired up round after round is worth what it is worth digit by digit (`digitsValue_eq`), and
the row of a number that is split in the middle again and again is worth that number
(`digitsValue_digitsOf`).
-/

set_option autoImplicit false

namespace DecimalCalc

/-! ## What a row is worth -/

theorem ofDigits_pairDigits (base : Nat) (row : List Nat) :
    Nat.ofDigits (base * base) (pairDigits base row) = Nat.ofDigits base row := by
  fun_induction pairDigits base row with
  | case1 low high rest ih =>
      rw [Nat.ofDigits_cons, Nat.ofDigits_cons, Nat.ofDigits_cons, ih]
      ring
  | case2 short hshort =>
      match short, hshort with
      | [], _ => rfl
      | [digit], _ => simp
      | low :: high :: rest, hshort => exact absurd rfl (hshort low high rest)

theorem rowValue_eq (rounds : Nat) : ∀ (base : Nat) (row : List Nat),
    rowValue rounds base row = Nat.ofDigits base row := by
  induction rounds with
  | zero =>
      intro base row
      rw [Nat.ofDigits_eq_foldr]
      rfl
  | succ rounds ih =>
      intro base row
      rw [rowValue, ih, ofDigits_pairDigits]

/-- **The worth of a row of digits**, counted from its end. -/
theorem digitsValue_eq (digits : List Nat) :
    digitsValue digits = Nat.ofDigits 10 digits.reverse := rowValue_eq _ _ _

theorem digitsValue_append (high low : List Nat) :
    digitsValue (high ++ low) = digitsValue high * tenPow low.length + digitsValue low := by
  rw [digitsValue_eq, digitsValue_eq, digitsValue_eq, List.reverse_append, Nat.ofDigits_append,
    List.length_reverse, tenPow_eq]
  ring

/-- The first digit of a row stands at the highest place. -/
theorem digitsValue_cons (digit : Nat) (digits : List Nat) :
    digitsValue (digit :: digits) = digit * tenPow digits.length + digitsValue digits := by
  have hsingle : digitsValue [digit] = digit := by
    rw [digitsValue_eq]
    exact Nat.ofDigits_singleton
  rw [← List.singleton_append, digitsValue_append, hsingle]

theorem digitsValue_zeros (n : Nat) : digitsValue (List.replicate n 0) = 0 := by
  induction n with
  | zero => rfl
  | succ n ih =>
      rw [List.replicate_succ', digitsValue_append, ih]
      rfl

/-- Zeros in front do not count. -/
theorem digitsValue_zeros_append (n : Nat) (digits : List Nat) :
    digitsValue (List.replicate n 0 ++ digits) = digitsValue digits := by
  rw [digitsValue_append, digitsValue_zeros, Nat.zero_mul, Nat.zero_add]

/-- Zeros at the end multiply. -/
theorem digitsValue_append_zeros (n : Nat) (digits : List Nat) :
    digitsValue (digits ++ List.replicate n 0) = digitsValue digits * tenPow n := by
  rw [digitsValue_append, digitsValue_zeros, List.length_replicate, Nat.add_zero]

/-- A row of digits is worth less than the power of ten with as many zeros. -/
theorem digitsValue_lt {digits : List Nat} (h : ∀ d ∈ digits, d < 10) :
    digitsValue digits < tenPow digits.length := by
  rw [digitsValue_eq, tenPow_eq, ← List.length_reverse]
  exact Nat.ofDigits_lt_base_pow_length (by decide) fun d hd => h d (List.mem_reverse.mp hd)

/-! ## The row of a number -/

theorem lowDigits_spec (k : Nat) : ∀ n : Nat, (lowDigits k n).length = 2 ^ k ∧
    (∀ d ∈ lowDigits k n, d < 10) ∧ digitsValue (lowDigits k n) = n % tenPow (2 ^ k) := by
  induction k with
  | zero =>
      intro n
      refine ⟨rfl, ?_, ?_⟩
      · simp only [lowDigits, List.mem_singleton]
        rintro d rfl
        exact Nat.mod_lt _ (by decide)
      · simp [lowDigits, digitsValue_eq, tenPow_eq]
  | succ k ih =>
      intro n
      obtain ⟨hlength, hlow, hvalue⟩ := ih (n % tenPow (2 ^ k))
      obtain ⟨hlength', hlow', hvalue'⟩ := ih (n / tenPow (2 ^ k) % tenPow (2 ^ k))
      simp only [lowDigits, Nat.one_shiftLeft]
      refine ⟨?_, ?_, ?_⟩
      · rw [List.length_append, hlength, hlength', pow_succ]
        omega
      · intro d hd
        rcases List.mem_append.mp hd with hd | hd
        · exact hlow' d hd
        · exact hlow d hd
      · rw [digitsValue_append, hlength, hvalue, hvalue', Nat.mod_mod, Nat.mod_mod,
          show (2 : Nat) ^ (k + 1) = 2 ^ k + 2 ^ k by rw [pow_succ]; omega, tenPow_add,
          Nat.mod_mul]
        ring

theorem digitCount_le_lowDigits (n : Nat) :
    digitCount n ≤ (lowDigits ((digitCount n).log2 + 1) n).length := by
  rw [(lowDigits_spec _ _).1]
  exact Nat.lt_log2_self.le

/-- A row has as many digits as are counted. -/
theorem length_digitsOf (n : Nat) : (digitsOf n).length = digitCount n := by
  have := digitCount_le_lowDigits n
  simp only [digitsOf, List.length_drop]
  omega

theorem mem_digitsOf {n d : Nat} (h : d ∈ digitsOf n) : d < 10 :=
  (lowDigits_spec _ n).2.1 d (List.mem_of_mem_drop h)

/-- **The row of a number is worth the number.** -/
theorem digitsValue_digitsOf (n : Nat) : digitsValue (digitsOf n) = n := by
  obtain ⟨-, -, hvalue⟩ := lowDigits_spec ((digitCount n).log2 + 1) n
  have hlt : n < tenPow (digitCount n) := lt_tenPow_digitCount n
  have hwhole : n % tenPow (2 ^ ((digitCount n).log2 + 1)) = n :=
    Nat.mod_eq_of_lt (hlt.trans_le (tenPow_le Nat.lt_log2_self.le))
  have hlength := length_digitsOf n
  have hsplit := List.take_append_drop
    ((lowDigits ((digitCount n).log2 + 1) n).length - digitCount n)
    (lowDigits ((digitCount n).log2 + 1) n)
  rw [hwhole, ← hsplit, digitsValue_append] at hvalue
  change digitsValue _ * tenPow (digitsOf n).length + digitsValue (digitsOf n) = n at hvalue
  rw [hlength] at hvalue
  -- what is cut off is worth nothing, since `n` has no more digits than are kept
  rcases Nat.eq_zero_or_pos (digitsValue ((lowDigits ((digitCount n).log2 + 1) n).take
    ((lowDigits ((digitCount n).log2 + 1) n).length - digitCount n))) with hzero | hpos
  · rwa [hzero, Nat.zero_mul, Nat.zero_add] at hvalue
  · have := Nat.le_mul_of_pos_left (tenPow (digitCount n)) hpos
    omega

/-- **No zero in front**: only the row of zero starts with a zero. -/
theorem head?_digitsOf {n : Nat} (h : n ≠ 0) : (digitsOf n).head? ≠ some 0 := by
  intro hhead
  obtain ⟨rest, hrow⟩ := List.head?_eq_some_iff.mp hhead
  have hvalue : digitsValue rest = n := by
    have hzero := digitsValue_zeros_append 1 rest
    rw [← hzero]
    exact (congrArg digitsValue hrow.symm).trans (digitsValue_digitsOf n)
  have hlow : ∀ d ∈ rest, d < 10 := fun d hd => mem_digitsOf (hrow ▸ List.mem_cons_of_mem 0 hd)
  have hlength : rest.length = digitCount n - 1 := by
    rw [← length_digitsOf, hrow]
    rfl
  have hlt := digitsValue_lt hlow
  rw [hvalue, hlength] at hlt
  exact absurd hlt (not_lt.mpr (tenPow_le_of_ne_zero h))

/-- The last digit of a number. -/
theorem getLast?_digitsOf (n : Nat) : (digitsOf n).getLast? = some (n % 10) := by
  have hne : digitsOf n ≠ [] := by
    rw [← List.length_pos_iff, length_digitsOf]
    exact digitCount_pos n
  obtain ⟨front, last, hrow⟩ : ∃ front last, digitsOf n = front ++ [last] :=
    ⟨_, _, (List.dropLast_append_getLast hne).symm⟩
  have hlast : last < 10 := mem_digitsOf (by rw [hrow]; simp)
  have hvalue : digitsValue front * 10 + last = n := by
    rw [← digitsValue_digitsOf n, hrow, digitsValue_append]
    simp [digitsValue_eq, tenPow_eq]
  rw [hrow, List.getLast?_concat]
  congr 1
  omega

/-! ## Characters -/

theorem valueInRows_lt {point d : Nat} (rows : List Nat)
    (h : Text.valueInRows point rows = some d) : d < 10 := by
  induction rows with
  | nil => cases h
  | cons first rest ih =>
      rw [Text.valueInRows] at h
      split_ifs at h with hbelow hrow
      · obtain rfl := Option.some.inj h
        omega
      · exact ih h

theorem digitValue?_lt {c : Char} {d : Nat} (h : Text.digitValue? c = some d) : d < 10 :=
  valueInRows_lt _ h

theorem digitValue?_digitChar {d : Nat} (h : d < 10) : Text.digitValue? (digitChar d) = some d := by
  interval_cases d <;> rfl

theorem isDigit_digitChar {d : Nat} (h : d < 10) : Text.isDigit (digitChar d) = true := by
  rw [Text.isDigit, digitValue?_digitChar h]
  rfl

theorem digitChar_zero : digitChar 0 = '0' := rfl

theorem isDigit_of_mem_numeral {n : Nat} {c : Char} (h : c ∈ numeral n) :
    Text.isDigit c = true := by
  obtain ⟨d, hd, rfl⟩ := List.mem_map.mp h
  exact isDigit_digitChar (mem_digitsOf hd)

end DecimalCalc
