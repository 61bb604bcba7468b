import DecimalCalc.Decimal.Power
import DecimalCalc.Proofs.Fitting

/-!
# Integers as decimals

An integer is written as a decimal whose exponent is zero (`Decimal.Whole`). A format has room for
the integer if it has as many digits as the precision allows (`Format.Holds`), and nothing is
rounded then. So sums, products, remainders and powers of integers are exact where the format has
room for the exact result. The products on the way to a power are powers of the same integer with
smaller exponents, for which there is room as well.
-/

set_option autoImplicit false

namespace DecimalCalc

variable {f g : Format} {a b : Int}

/-! ## Room for integers -/

theorem digitCount_mono {m n : Nat} (h : m ≤ n) : digitCount m ≤ digitCount n := by
  rw [digitCount_eq, digitCount_eq]
  exact Nat.succ_le_succ (Nat.log_mono_right h)

namespace Format

/-- **A format that has room for an integer**: it keeps all its digits, and its first digit is not
beyond the highest place. -/
structure Holds (f : Format) (n : Int) : Prop where
  digits : digitCount n.natAbs ≤ f.precision
  place : (digitCount n.natAbs : Int) ≤ maxExponent + 1

/-- There is room for what is not larger. -/
theorem Holds.of_le (h : f.Holds b) (hle : a.natAbs ≤ b.natAbs) : f.Holds a := by
  have hmono := digitCount_mono hle
  have hplace := h.place
  exact ⟨hmono.trans h.digits, by omega⟩

theorem Holds.of_precision (h : f.Holds a) (hle : f.precision ≤ g.precision) : g.Holds a :=
  ⟨h.digits.trans hle, h.place⟩

/-- With at most as many digits as there are places, all that counts are the digits. -/
theorem holds_of_lt (hp : 0 < f.precision) (hmax : f.precision ≤ 999999)
    (h : a.natAbs < 10 ^ f.precision) : f.Holds a := by
  have hdigits : digitCount a.natAbs ≤ f.precision := (digitCount_le_iff hp).mpr h
  exact ⟨hdigits, by unfold maxExponent; omega⟩

/-- There is room for no number with more digits than there are places. -/
theorem Holds.lt (h : f.Holds a) : a.natAbs < tenPow 1000000 := by
  have hplace := h.place
  unfold maxExponent at hplace
  exact (digitCount_le_iff (by decide)).mp (by omega)

end Format

namespace Decimal

variable {x y : Decimal} {mode : Rounding}

/-! ## Decimals without exponents -/

/-- **A decimal that writes an integer.** It has no zeros after a point, and none left out. -/
structure Whole (x : Decimal) (n : Int) : Prop where
  exponent : x.exponent = 0
  signed : x.signed = n

theorem whole_ofInt (n : Int) : (ofInt n).Whole n := by
  refine ⟨rfl, ?_⟩
  by_cases h : n < 0
  · simp only [ofInt, Decimal.signed, h, decide_true, if_true]
    omega
  · simp only [ofInt, Decimal.signed, h, decide_false, Bool.false_eq_true, if_false]
    omega

theorem whole_zero : zero.Whole 0 := ⟨rfl, rfl⟩

theorem whole_one : one.Whole 1 := ⟨rfl, rfl⟩

/-- A decimal with the magnitude of an integer writes the integer, if its sign is right where it
matters. -/
theorem whole_of_natAbs {negative : Bool}
    (hsign : a ≠ 0 → negative = decide (a < 0)) : Whole ⟨negative, a.natAbs, 0⟩ a := by
  refine ⟨rfl, ?_⟩
  by_cases hzero : a = 0
  · subst hzero
    simp [Decimal.signed]
  · by_cases hneg : a < 0
    · simp only [Decimal.signed, hsign hzero, hneg, decide_true, if_true]
      omega
    · simp only [Decimal.signed, hsign hzero, hneg, decide_false, Bool.false_eq_true, if_false]
      omega

namespace Whole

theorem coefficient (h : x.Whole a) : x.coefficient = a.natAbs := by
  have hsigned := h.signed
  unfold Decimal.signed at hsigned
  split at hsigned <;> omega

theorem value (h : x.Whole a) : x.value = a := by
  rw [Decimal.value, h.signed, h.exponent, zpow_zero, mul_one]

theorem isZero_iff (h : x.Whole a) : x.isZero = true ↔ a = 0 := by
  rw [← value_eq_zero_iff, h.value, Int.cast_eq_zero]

theorem isZero_eq_false (h : x.Whole a) (ha : a ≠ 0) : x.isZero = false := by
  rw [← Bool.not_eq_true, h.isZero_iff]
  exact ha

theorem negative (h : x.Whole a) (ha : a ≠ 0) : x.negative = decide (a < 0) := by
  have hsign := negative_iff (h.isZero_eq_false ha)
  rw [h.value, Int.cast_lt_zero] at hsign
  rw [Bool.eq_iff_iff, hsign, decide_eq_true_iff]

theorem digits (h : x.Whole a) : x.digits = digitCount a.natAbs := by
  rw [Decimal.digits, h.coefficient]

theorem adjusted (h : x.Whole a) : x.adjusted = digitCount a.natAbs - 1 := by
  rw [Decimal.adjusted, h.digits, h.exponent, Int.zero_add]

theorem isInteger (h : x.Whole a) : x.isInteger = true :=
  isInteger_iff.mpr ⟨a, h.value⟩

theorem truncate (h : x.Whole a) : x.truncate = a := by
  rw [truncate_eq, h.value]
  by_cases hneg : a < 0
  · have hneg' : ¬(0 : ℚ) ≤ a := not_le.mpr (Int.cast_lt_zero.mpr hneg)
    rw [if_neg hneg', ← Int.cast_abs, Int.floor_intCast, abs_of_neg hneg, neg_neg]
  · have hpos : (0 : ℚ) ≤ a := Int.cast_nonneg (not_lt.mp hneg)
    rw [if_pos hpos, ← Int.cast_abs, Int.floor_intCast, abs_of_nonneg (not_lt.mp hneg)]

theorem neg (h : x.Whole a) : x.neg.Whole (-a) := by
  refine ⟨h.exponent, ?_⟩
  rw [← h.signed]
  unfold Decimal.signed Decimal.neg
  cases x.negative <;> simp

theorem magnitude (h : x.Whole a) : x.magnitude.Whole a.natAbs := by
  refine ⟨h.exponent, ?_⟩
  rw [← h.coefficient]
  rfl

/-! ## Rounding -/

/-- **An integer that a format has room for is not rounded.** -/
theorem round (h : x.Whole a) (holds : f.Holds a) : x.round f = .ok x := by
  have hexponent := h.exponent
  have htiny : f.tiny ≤ 0 := by
    unfold Format.tiny Format.minExponent
    omega
  by_cases ha : a = 0
  · have hkept : min (max x.exponent f.tiny) Format.maxExponent = x.exponent := by
      unfold Format.maxExponent
      omega
    rw [Decimal.round, if_pos (h.isZero_iff.mpr ha), hkept]
  · refine round_of_fits ⟨h.digits ▸ holds.digits, ?_, by omega⟩ (h.isZero_eq_false ha)
    have hplace := holds.place
    rw [h.adjusted]
    omega

theorem plus (h : x.Whole a) (holds : f.Holds a) : ∃ y, x.plus f = .ok y ∧ y.Whole a := by
  rw [Decimal.plus]
  split
  · -- a zero loses its sign
    rename_i hzero
    obtain rfl : a = 0 := h.isZero_iff.mp (Bool.and_eq_true_iff.mp hzero).1
    exact ⟨_, h.magnitude.round holds, h.magnitude⟩
  · exact ⟨x, h.round holds, h⟩

theorem minus (h : x.Whole a) (holds : f.Holds a) : ∃ y, x.minus f = .ok y ∧ y.Whole (-a) := by
  rw [Decimal.minus]
  split
  · rename_i hzero
    obtain rfl : a = 0 := h.isZero_iff.mp (Bool.and_eq_true_iff.mp hzero).1
    exact ⟨_, h.magnitude.round holds, h.magnitude⟩
  · exact ⟨x.neg, h.neg.round (holds.of_le (Int.natAbs_neg a).le), h.neg⟩

theorem abs (h : x.Whole a) (holds : f.Holds a) : ∃ y, x.abs f = .ok y ∧ y.Whole |a| := by
  have hsigned := h.signed
  unfold Decimal.signed at hsigned
  rw [Decimal.abs]
  by_cases hneg : x.negative = true
  · rw [if_pos hneg] at hsigned ⊢
    rw [abs_of_nonpos (by omega)]
    exact h.minus holds
  · rw [if_neg hneg] at hsigned ⊢
    rw [abs_of_nonneg (by omega)]
    exact h.plus holds

/-! ## Sums, products and remainders -/

theorem scaledTo (h : x.Whole a) : x.scaledTo 0 = a := by
  rw [Decimal.scaledTo, h.signed, h.exponent]
  exact Int.mul_one a

theorem exactSum (hx : x.Whole a) (hy : y.Whole b) : (exactSum mode x y).Whole (a + b) := by
  rw [Decimal.exactSum, hx.exponent, hy.exponent]
  simp only [min_self, hx.scaledTo, hy.scaledTo]
  split
  · rename_i hzero
    rw [hzero]
    exact ⟨rfl, by simp [Decimal.signed]⟩
  · exact whole_of_natAbs fun _ => rfl

theorem exactProduct (hx : x.Whole a) (hy : y.Whole b) : (exactProduct x y).Whole (a * b) := by
  refine ⟨?_, ?_⟩
  · show x.exponent + y.exponent = 0
    rw [hx.exponent, hy.exponent]
    rfl
  · rw [← hx.signed, ← hy.signed]
    unfold Decimal.exactProduct Decimal.signed
    cases x.negative <;> cases y.negative <;> simp

theorem add (hx : x.Whole a) (hy : y.Whole b) (holds : f.Holds (a + b)) :
    ∃ z, add f x y = .ok z ∧ z.Whole (a + b) :=
  ⟨_, (hx.exactSum hy).round holds, hx.exactSum hy⟩

theorem multiply (hx : x.Whole a) (hy : y.Whole b) (holds : f.Holds (a * b)) :
    ∃ z, multiply f x y = .ok z ∧ z.Whole (a * b) :=
  ⟨_, (hx.exactProduct hy).round holds, hx.exactProduct hy⟩

/-- The remainder has the sign of the dividend. -/
theorem remainder (hx : x.Whole a) (hy : y.Whole b) (holds : f.Holds a) :
    ∃ z, remainder f x y = .ok z ∧ z.Whole (a.tmod b) := by
  have hquotient : digitCount (a.natAbs / b.natAbs) ≤ f.precision :=
    (digitCount_mono (Nat.div_le_self _ _)).trans holds.digits
  have hwhole : Whole ⟨x.negative, a.natAbs % b.natAbs, 0⟩ (a.tmod b) := by
    rw [← Int.natAbs_tmod]
    refine whole_of_natAbs fun hne => ?_
    have ha : a ≠ 0 := by
      rintro rfl
      exact hne (Int.zero_tmod b)
    rw [hx.negative ha, decide_eq_decide]
    have hpos := Int.tmod_nonneg (a := a) b
    have hneg := Int.tmod_nonneg (a := -a) b
    rw [Int.neg_tmod] at hneg
    omega
  rw [Decimal.remainder, hx.exponent, hy.exponent]
  simp only [min_self, hx.scaledTo, hy.scaledTo]
  rw [if_neg (not_lt.mpr hquotient)]
  refine ⟨_, hwhole.round (holds.of_le ?_), hwhole⟩
  rw [Int.natAbs_tmod]
  exact Nat.mod_le _ _

/-! ## Powers -/

theorem isOne_iff (h : x.Whole a) : x.magnitude.isOne = true ↔ a.natAbs = 1 := by
  rw [isOne, compare_eq, h.magnitude.value, value_one, beq_iff_eq, compare_eq_iff_eq]
  norm_cast

theorem isOdd (h : x.Whole a) : x.isOdd = (a % 2 != 0) := by
  rw [Decimal.isOdd, h.isInteger, h.truncate, Bool.true_and]

/-- Where there is room for a power, there is for those with smaller exponents. -/
theorem holds_pow_of_le {m n : Nat} (ha : a ≠ 0) (hle : m ≤ n) (holds : f.Holds (a ^ n)) :
    f.Holds (a ^ m) := by
  refine holds.of_le ?_
  rw [Int.natAbs_pow, Int.natAbs_pow]
  exact Nat.pow_le_pow_right (Int.natAbs_pos.mpr ha) hle

/-- **Squaring and multiplying** is exact. All that is made on the way are smaller powers. -/
theorem powerBySquaring (h : x.Whole a) (ha : a ≠ 0) (steps : Nat) : ∀ n : Nat,
    n / 2 ^ steps = 1 → f.Holds (a ^ n) →
      ∃ y, powerBySquaring f x steps n = .ok y ∧ y.Whole (a ^ n) := by
  induction steps with
  | zero =>
      intro n hn holds
      obtain rfl : n = 1 := by simpa using hn
      exact ⟨x, rfl, by rwa [pow_one]⟩
  | succ steps ih =>
      intro n hn holds
      have hhalf : n / 2 / 2 ^ steps = 1 := by
        rw [Nat.div_div_eq_div_mul, ← Nat.pow_succ']
        exact hn
      have hsquare : a ^ (n / 2) * a ^ (n / 2) = a ^ (2 * (n / 2)) := by
        rw [← pow_add, ← two_mul]
      obtain ⟨root, hroot, wroot⟩ := ih (n / 2) hhalf (holds_pow_of_le ha (by omega) holds)
      obtain ⟨square, heq, wsquare⟩ := wroot.multiply wroot (f := f)
        (by rw [hsquare]; exact holds_pow_of_le ha (by omega) holds)
      rw [hsquare] at wsquare
      rw [Decimal.powerBySquaring, hroot]
      show ∃ y, (Decimal.multiply f root root).bind _ = _ ∧ _
      rw [heq]
      by_cases hodd : n % 2 = 1
      · have hn' : a ^ (2 * (n / 2)) * a = a ^ n := by
          rw [← pow_succ]
          congr 1
          omega
        rw [← hn'] at holds ⊢
        obtain ⟨y, hy, wy⟩ := wsquare.multiply h holds
        exact ⟨y, by simp only [Except.bind, hodd, if_true, hy], wy⟩
      · have hn' : 2 * (n / 2) = n := by omega
        rw [hn'] at wsquare
        exact ⟨square, by simp only [Except.bind, hodd, if_false, pure, Except.pure], wsquare⟩

/-- A power is negative if an odd number of factors is. -/
theorem pow_neg_iff {n : Nat} : a ^ n < 0 ↔ a < 0 ∧ n % 2 = 1 := by
  rcases Nat.even_or_odd n with heven | hodd
  · have hpos := heven.pow_nonneg a
    have hmod := Nat.even_iff.mp heven
    omega
  · have hiff : a ^ n < 0 ↔ a < 0 := hodd.pow_neg_iff
    have hmod := Nat.odd_iff.mp hodd
    omega

/-- The sign that a power is given. -/
theorem negative_pow (h : x.Whole a) (ha : a ≠ 0) (n : Nat) :
    (x.negative && (n : Int) % 2 != 0) = decide (a ^ n < 0) := by
  rw [h.negative ha, Bool.eq_iff_iff, decide_eq_true_iff, pow_neg_iff]
  simp only [Bool.and_eq_true, decide_eq_true_iff, bne_iff_ne]
  omega

theorem integerPower (h : x.Whole a) (ha : a ≠ 0) {n : Nat} (hn : n ≠ 0)
    (holds : f.Holds (a ^ n)) : ∃ y, integerPower f x n = .ok y ∧ y.Whole (a ^ n) := by
  have hsteps : n / 2 ^ n.log2 = 1 := by
    refine Nat.div_eq_of_lt_le ?_ ?_
    · rw [Nat.one_mul]
      exact Nat.log2_self_le hn
    · rw [← Nat.pow_succ']
      exact Nat.lt_log2_self
  obtain ⟨power, hpower, wpower⟩ := h.powerBySquaring ha n.log2 n hsteps
    (f := ⟨f.precision + digitCount n + 2, .halfEven⟩)
    (holds.of_precision (by dsimp only; omega))
  -- the sign is put on the power once more
  have hwhole : Whole { power with negative := x.negative && (n : Int) % 2 != 0 } (a ^ n) := by
    rw [wpower.exponent, wpower.coefficient, h.negative_pow ha]
    exact whole_of_natAbs fun _ => rfl
  refine ⟨_, ?_, hwhole⟩
  rw [Decimal.integerPower]
  simp only [Int.natAbs_natCast, if_neg (Int.natCast_nonneg n).not_gt]
  show (Decimal.powerBySquaring _ x n.log2 n).bind _ = _
  rw [hpower]
  exact hwhole.round holds

/-! ### The range of powers -/

/-- Places of digits add up to at most the place of a product. -/
theorem tenPow_add_le_mul {m n : Nat} (hm : m ≠ 0) (hn : n ≠ 0) :
    tenPow (digitCount m - 1 + (digitCount n - 1)) ≤ m * n := by
  rw [tenPow_add]
  exact Nat.mul_le_mul (tenPow_le_of_ne_zero hm) (tenPow_le_of_ne_zero hn)

/-- An exponent of a power that there is room for is limited by the digits of the base. -/
theorem mul_lt_of_holds {n : Nat} (holds : f.Holds (a ^ n)) (ha : a ≠ 0) :
    (digitCount a.natAbs - 1) * n < 1000000 := by
  have hle : tenPow ((digitCount a.natAbs - 1) * n) ≤ (a ^ n).natAbs := by
    rw [Int.natAbs_pow, tenPow_eq, Nat.pow_mul, ← tenPow_eq]
    exact Nat.pow_le_pow_left (tenPow_le_of_ne_zero (Int.natAbs_ne_zero.mpr ha)) n
  exact tenPow_lt_iff.mp (hle.trans_lt holds.lt)

theorem lt_of_two_pow_lt {k n : Nat} (h : 2 ^ n < tenPow k) : n < 4 * k := by
  have hten : tenPow k ≤ 2 ^ (4 * k) := by
    rw [Nat.pow_mul, tenPow_eq]
    exact Nat.pow_le_pow_left (by decide) k
  exact (Nat.pow_lt_pow_iff_right (by decide)).mp (h.trans_le hten)

/-- Whatever the base is, unless it is one. -/
theorem lt_of_holds {n : Nat} (holds : f.Holds (a ^ n)) (ha : 2 ≤ a.natAbs) :
    n < 4 * 1000000 := by
  have hle : 2 ^ n ≤ (a ^ n).natAbs := by
    rw [Int.natAbs_pow]
    exact Nat.pow_le_pow_left ha n
  exact lt_of_two_pow_lt (hle.trans_lt holds.lt)

/-- The logarithm of an integer, in its leading place. -/
theorem logPlace (h : x.Whole a) (ha : 2 ≤ a.natAbs) :
    x.logPlace = if digitCount a.natAbs = 1 then -2
      else (digitCount (digitCount a.natAbs - 1) : Int) - 1 := by
  have hpos := digitCount_pos a.natAbs
  have hadjusted := h.adjusted
  rw [Decimal.logPlace]
  by_cases hone : digitCount a.natAbs = 1
  · -- an integer below ten is one more than a digit
    have hten : a.natAbs < tenPow 1 := (digitCount_le_iff (by decide)).mp hone.le
    have hdistance : (Decimal.exactSum .halfEven x.magnitude one.neg).Whole (a.natAbs + -1) :=
      h.magnitude.exactSum whole_one.neg
    have hdigits : digitCount ((a.natAbs : Int) + -1).natAbs = 1 := by
      refine digitCount_eq_of_le_of_lt (k := 0) ?_ ?_
      · show 1 ≤ _
        omega
      · show _ < 10
        change _ < 10 at hten
        omega
    have hsign := hdistance.negative (by omega)
    have hplace := hdistance.adjusted
    rw [decide_eq_false (by omega)] at hsign
    rw [hdigits] at hplace
    rw [if_neg (by omega), if_neg (by omega), hsign, if_neg Bool.false_ne_true, hplace, if_pos hone]
    rfl
  · have hnat : x.adjusted.natAbs = digitCount a.natAbs - 1 := by omega
    rw [if_pos (by omega), hnat, if_neg hone]

/-- **A power that there is room for is in range.** -/
theorem powerOutOfRange (hx : x.Whole a) (ha : 2 ≤ a.natAbs) {n : Nat} (hy : y.Whole n)
    (hn : n ≠ 0) (holds : f.Holds (a ^ n)) : powerOutOfRange f x y = false := by
  have hgrows : powerGrows x y = true := by
    have hpos := digitCount_pos a.natAbs
    have hsign := hy.negative (by omega)
    rw [decide_eq_false (by omega)] at hsign
    rw [powerGrows, hsign, hx.adjusted, decide_eq_true (by omega)]
    rfl
  have hlimit : digitCount Format.maxExponent.natAbs = 6 := by decide
  have hy' : y.adjusted = digitCount n - 1 := hy.adjusted
  rw [Decimal.powerOutOfRange, hgrows, if_pos rfl, decide_eq_false_iff_not, hlimit, hx.logPlace ha,
    hy']
  -- of a single digit the number of places tells nothing, but its powers grow too
  by_cases hone : digitCount a.natAbs = 1
  · have hlt : n < 4 * 1000000 := lt_of_holds holds ha
    have hdigits : digitCount n ≤ 7 := (digitCount_le_iff (by decide)).mpr (hlt.trans (by decide))
    rw [if_pos hone]
    omega
  · have hpos := digitCount_pos a.natAbs
    have hfactors := tenPow_add_le_mul (m := digitCount a.natAbs - 1) (by omega) hn
    have hlt : (digitCount a.natAbs - 1) * n < tenPow 6 := mul_lt_of_holds holds (by omega)
    have hplaces := tenPow_lt_iff.mp (hfactors.trans_lt hlt)
    rw [if_neg hone]
    omega

theorem power (hx : x.Whole a) (ha : a ≠ 0) {n : Nat} (hy : y.Whole n) (hn : n ≠ 0)
    (holds : f.Holds (a ^ n)) : ∃ z, power f x y = .ok z ∧ z.Whole (a ^ n) := by
  have hsign := hy.negative (by omega)
  rw [decide_eq_false (by omega)] at hsign
  rw [Decimal.power]
  simp only [hy.isInteger, hy.truncate, Bool.not_true, Bool.and_false, Bool.false_eq_true, if_false,
    hsign]
  by_cases hone : a.natAbs = 1
  · -- a power of one is not computed
    have hwhole : Whole (paddedOne (x.negative && y.isOdd) 0) (a ^ n) := by
      have habs : (a ^ n).natAbs = 1 := by rw [Int.natAbs_pow, hone, one_pow]
      rw [hy.isOdd, hx.negative_pow ha, paddedOne, tenPow_zero, ← habs]
      exact whole_of_natAbs fun _ => rfl
    rw [if_pos (hx.isOne_iff.mpr hone), hx.exponent]
    simp only [Int.natAbs_zero, Nat.zero_mul, Nat.zero_min]
    exact ⟨_, hwhole.round holds, hwhole⟩
  · rw [if_neg (mt hx.isOne_iff.mp hone), hx.powerOutOfRange (by omega) hy hn holds,
      if_neg Bool.false_ne_true]
    simp only [if_true]
    exact hx.integerPower ha hn holds

end Whole

end Decimal

end DecimalCalc
