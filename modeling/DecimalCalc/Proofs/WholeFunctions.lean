import DecimalCalc.Functions.Catalogue
import DecimalCalc.Proofs.FittingResults
import DecimalCalc.Proofs.WholeDecimals
import Mathlib.Data.Nat.Choose.Basic
import Mathlib.Data.Nat.Factorial.Basic

/-!
# Operations on integers are exact

Where the format of the settings has room for the exact result, the arithmetic operations, the
factorial, the selections and the common divisors and multiples of integers answer it (`Answers`). A
remainder is taken in a wider format, and made positive there. Factorials and selections are
computed from their definition, as products of successive numbers (`successiveProduct_eq`), and
refused beyond a limit; but there is no room for what is beyond it.
-/

set_option autoImplicit false

namespace DecimalCalc

open Nat (choose ascFactorial descFactorial)
open scoped Nat

/-! ## Products of successive numbers -/

theorem productByHalves_eq (levels : Nat) : ∀ first count : Nat, count ≤ 2 ^ levels →
    productByHalves levels first count = first.ascFactorial count := by
  induction levels with
  | zero =>
      intro first count hcount
      obtain rfl | rfl : count = 0 ∨ count = 1 := by
        rw [pow_zero] at hcount
        omega
      · rfl
      · simp [productByHalves, ascFactorial]
  | succ levels ih =>
      intro first count hcount
      rw [pow_succ] at hcount
      rw [productByHalves, ih first _ (by omega), ih _ _ (by omega),
        Nat.ascFactorial_mul_ascFactorial]
      congr 1
      omega

/-- **The product of successive numbers**, however it is halved. -/
theorem successiveProduct_eq (first count : Nat) :
    successiveProduct first count = first.ascFactorial count :=
  productByHalves_eq _ first count Nat.lt_log2_self.le

theorem successiveProduct_one (n : Nat) : successiveProduct 1 n = n ! := by
  rw [successiveProduct_eq, Nat.one_ascFactorial]

theorem successiveProduct_sub {n k : Nat} (h : k ≤ n) :
    successiveProduct (n - k + 1) k = n.descFactorial k := by
  rw [successiveProduct_eq, ← Nat.add_descFactorial_eq_ascFactorial, Nat.sub_add_cancel h]

/-! ## Limits -/

/-- A factorial grows at least like the powers of a number half as large. -/
theorem lt_of_factorial_lt {m k e n : Nat} (hbase : tenPow e ≤ m + 1)
    (h : n ! < tenPow (e * k)) : n < m + k := by
  by_contra hge
  have hle : tenPow (e * k) ≤ n ! :=
    calc tenPow (e * k) = tenPow e ^ k := Nat.pow_mul 10 e k
      _ ≤ (m + 1) ^ k := Nat.pow_le_pow_left hbase k
      _ ≤ m ! * (m + 1) ^ k := Nat.le_mul_of_pos_left _ m.factorial_pos
      _ ≤ (m + k)! := Nat.factorial_mul_pow_le_factorial
      _ ≤ n ! := Nat.factorial_le (not_lt.mp hge)
  exact absurd h (not_lt.mpr hle)

/-- **Factorials below the highest place** are within the limit. -/
theorem le_maxFactors {n : Nat} (h : n ! < tenPow 1000000) : n ≤ maxFactors := by
  have hmore : n ! < tenPow (5 * 200001) := h.trans_le (tenPow_le (by decide))
  have hlt := lt_of_factorial_lt (m := 200000) (by decide) hmore
  unfold maxFactors
  omega

theorem two_pow_le_choose (k : Nat) : ∀ n : Nat, 2 * k ≤ n → 2 ^ k ≤ n.choose k := by
  induction k with
  | zero => exact fun n _ => (Nat.choose_zero_right n).ge
  | succ k ih =>
      intro n hn
      obtain ⟨n, rfl⟩ : ∃ m, n = m + 1 := ⟨n - 1, by omega⟩
      have hrow := Nat.add_one_mul_choose_eq n k
      have hmul : 2 ^ (k + 1) * (k + 1) ≤ (n + 1).choose (k + 1) * (k + 1) :=
        calc 2 ^ (k + 1) * (k + 1) = 2 * (k + 1) * 2 ^ k := by ring
          _ ≤ (n + 1) * n.choose k := Nat.mul_le_mul hn (ih n (by omega))
          _ = (n + 1).choose (k + 1) * (k + 1) := hrow
      exact Nat.le_of_mul_le_mul_right hmul (Nat.succ_pos k)

/-- **Selections below the highest place** are within the limit. -/
theorem le_maxSelection {n k : Nat} (hk : 2 * k ≤ n) (h : n.choose k < tenPow 1000000) :
    k ≤ maxSelection := by
  have hpow : (2 ^ k : Nat) < tenPow 1000000 := (two_pow_le_choose k n hk).trans_lt h
  have hstart := tenPow_start_le (n := 2 ^ k) (pow_ne_zero k (by decide))
  have hlt := tenPow_lt_iff.mp (hstart.trans_lt hpow)
  rw [Nat.log2_two_pow] at hlt
  unfold maxSelection
  omega

/-! ## Numbers that write integers -/

namespace Number

/-- **A number that writes an integer**: a decimal that does. -/
def Whole (x : Number) (n : Int) : Prop := ∃ d, x = .finite d ∧ d.Whole n

variable {f : Format} {x y : Number} {a b : Int}

theorem whole_ofInt (n : Int) : (ofInt n).Whole n := ⟨_, rfl, Decimal.whole_ofInt n⟩

theorem whole_zero : zero.Whole 0 := ⟨_, rfl, Decimal.whole_zero⟩

theorem whole_one : one.Whole 1 := ⟨_, rfl, Decimal.whole_one⟩

namespace Whole

theorem isZero_iff (h : x.Whole a) : x.isZero = true ↔ a = 0 := by
  obtain ⟨d, rfl, h⟩ := h
  exact h.isZero_iff

theorem neg (h : x.Whole a) : x.neg.Whole (-a) := by
  obtain ⟨d, rfl, h⟩ := h
  exact ⟨_, rfl, h.neg⟩

theorem magnitude (h : x.Whole a) : x.magnitude.Whole a.natAbs := by
  obtain ⟨d, rfl, h⟩ := h
  exact ⟨_, rfl, h.magnitude⟩

theorem adjusted (h : x.Whole a) : x.adjusted = digitCount a.natAbs - 1 := by
  obtain ⟨d, rfl, h⟩ := h
  exact h.adjusted

theorem isBelow (hx : x.Whole a) (hy : y.Whole b) : x.isBelow y = .ok (decide (a < b)) := by
  obtain ⟨d, rfl, hd⟩ := hx
  obtain ⟨e, rfl, he⟩ := hy
  have hlt : (d.compare e == .lt) = decide (a < b) := by
    rw [Decimal.compare_eq, hd.value, he.value, Bool.eq_iff_iff, beq_iff_eq, compare_lt_iff_lt,
      decide_eq_true_iff, Int.cast_lt]
  exact congrArg Except.ok hlt

theorem integer (h : x.Whole a) (task : IntegerTask) : x.integer task = .ok a := by
  obtain ⟨d, rfl, h⟩ := h
  have hask : (finite d).isInteger = .ok true := congrArg Except.ok h.isInteger
  rw [Number.integer, hask]
  exact congrArg Except.ok h.truncate

end Whole

end Number

/-- **A computation that answers an integer.** -/
def Answers {ε : Type} (result : Except ε Number) (n : Int) : Prop :=
  ∃ z, result = .ok z ∧ z.Whole n

namespace Answers

variable {a b : Int} {f : Format} {x y : Number}

theorem ofSignal {result : Except Signal Number} (h : Answers result a) :
    Answers (Outcome.ofSignal result) a := by
  obtain ⟨z, rfl, hz⟩ := h
  exact ⟨z, rfl, hz⟩

theorem guarded {result : Outcome Number} (h : Answers result a) (operation : Operation)
    (operands : List Number) : Answers (Outcome.guarded operation operands result) a := by
  obtain ⟨z, rfl, hz⟩ := h
  exact ⟨z, rfl, hz⟩

theorem bind {ε : Type} {result : Except ε Number} {next : Number → Except ε Number}
    (h : Answers result a) (hnext : ∀ z, z.Whole a → Answers (next z) b) :
    Answers (result.bind next) b := by
  obtain ⟨z, rfl, hz⟩ := h
  exact hnext z hz

theorem lift₁ (hroom : f.precision ≤ Format.maxPrecision)
    {onFinite : Decimal → Except Signal Decimal} {onInfinite : Bool → Except Signal Number}
    (h : ∀ d : Decimal, d.Whole a → ∃ z, onFinite d = .ok z ∧ z.Whole b) (hx : x.Whole a) :
    Answers (Number.lift₁ f onFinite onInfinite x) b := by
  obtain ⟨d, rfl, hd⟩ := hx
  obtain ⟨z, hz, wz⟩ := h d hd
  refine ⟨.finite z, ?_, z, rfl, wz⟩
  rw [Number.lift₁_finite hroom, hz]
  rfl

theorem lift₂ {c : Int} (hroom : f.precision ≤ Format.maxPrecision)
    {onFinite : Decimal → Decimal → Except Signal Decimal}
    {onInfinite : Number → Number → Except Signal Number}
    (h : ∀ d e : Decimal, d.Whole a → e.Whole b → ∃ z, onFinite d e = .ok z ∧ z.Whole c)
    (hx : x.Whole a) (hy : y.Whole b) : Answers (Number.lift₂ f onFinite onInfinite x y) c := by
  obtain ⟨d, rfl, hd⟩ := hx
  obtain ⟨e, rfl, he⟩ := hy
  obtain ⟨z, hz, wz⟩ := h d e hd he
  refine ⟨.finite z, ?_, z, rfl, wz⟩
  rw [Number.lift₂_finite hroom, hz]
  rfl

end Answers

namespace Number

variable {f : Format} {x y : Number} {a b : Int}

section

variable (hroom : f.precision ≤ Format.maxPrecision) (hx : x.Whole a)

include hroom hx

theorem plus_answers (holds : f.Holds a) : Answers (plus f x) a :=
  Answers.lift₁ hroom (fun _ hd => hd.plus holds) hx

theorem minus_answers (holds : f.Holds a) : Answers (minus f x) (-a) :=
  Answers.lift₁ hroom (fun _ hd => hd.minus holds) hx

theorem abs_answers (holds : f.Holds a) : Answers (abs f x) |a| :=
  Answers.lift₁ hroom (fun _ hd => hd.abs holds) hx

variable (hy : y.Whole b)

include hy

theorem add_answers (holds : f.Holds (a + b)) : Answers (add f x y) (a + b) :=
  Answers.lift₂ hroom (fun _ _ hd he => hd.add he holds) hx hy

theorem subtract_answers (holds : f.Holds (a - b)) : Answers (subtract f x y) (a - b) := by
  have hneg := hy.neg
  obtain ⟨e, rfl, -⟩ := hy
  exact add_answers hroom hx hneg holds

theorem multiply_answers (holds : f.Holds (a * b)) : Answers (multiply f x y) (a * b) :=
  Answers.lift₂ hroom (fun _ _ hd he => hd.multiply he holds) hx hy

theorem remainder_answers (holds : f.Holds a) : Answers (remainder f x y) (a.tmod b) :=
  Answers.lift₂ hroom (fun _ _ hd he => hd.remainder he holds) hx hy

end

/-- A power of zero is not computed. -/
theorem power_answers (hroom : f.precision ≤ Format.maxPrecision) (hx : x.Whole a) {n : Nat}
    (hy : y.Whole n) (hn : n ≠ 0) (holds : f.Holds (a ^ n)) : Answers (power f x y) (a ^ n) := by
  refine Answers.lift₂ hroom (fun d e hd he => ?_) hx hy
  by_cases ha : a = 0
  · subst ha
    rw [if_pos (hd.isZero_iff.mpr rfl), zero_pow hn]
    exact ⟨_, rfl, Decimal.whole_of_natAbs fun h => absurd rfl h⟩
  · rw [hd.isZero_eq_false ha, if_neg Bool.false_ne_true]
    exact hd.power ha he hn holds

end Number

/-! ## Functions -/

namespace Functions

/-- The remainder that takes the sign of the dividend is made positive by adding the magnitude of
the divisor. -/
theorem emod_eq_of_tmod (a : Int) {b : Int} (hb : b ≠ 0) :
    a % b = if a.tmod b.natAbs < 0 then a.tmod b.natAbs + b.natAbs else a.tmod b.natAbs := by
  have hpos : (0 : Int) < b.natAbs := by omega
  have hnonneg := Int.emod_nonneg a hpos.ne'
  have hlt := Int.emod_lt_of_pos a hpos
  rw [← Int.emod_abs, Int.abs_eq_natAbs, Int.tmod_eq_emod]
  by_cases hexact : 0 ≤ a ∨ (b.natAbs : Int) ∣ a
  · rw [if_pos hexact, if_neg (by omega)]
    omega
  · rw [if_neg hexact, Int.natAbs_natCast, if_pos (by omega)]
    omega

/-- The wider format has room for the remainder and for its sum with the divisor. -/
theorem residue_answers {f : Format} {x y : Number} {a b : Int} (hmax : f.precision ≤ 999999)
    (hx : x.Whole a) (hy : y.Whole b) (hb : b ≠ 0) (hdividend : f.Holds a)
    (holds : f.Holds (a % b)) : Answers (residue f x y) (a % b) := by
  unfold residue
  dsimp only
  generalize hexact : (⟨(max (x.adjusted - y.magnitude.adjusted) 0).toNat + f.precision + 2,
    f.rounding⟩ : Format) = exact
  have hwider : f.precision ≤ exact.precision := by
    rw [← hexact]
    dsimp only
    omega
  have hroom : exact.precision ≤ Format.maxPrecision := by
    have hplace := hdividend.place
    rw [← hexact, hx.adjusted, hy.magnitude.adjusted]
    unfold Format.maxExponent at hplace
    unfold Format.maxPrecision
    dsimp only
    omega
  have hrest := emod_eq_of_tmod a hb
  refine Answers.bind (Number.remainder_answers hroom hx hy.magnitude
    (hdividend.of_precision hwider)) fun rest hwhole => ?_
  rw [hwhole.isBelow Number.whole_zero]
  have hround : ∀ z : Number, z.Whole (a % b) → Answers (Number.plus f z) (a % b) :=
    fun z hz => Number.plus_answers (hmax.trans (by decide)) hz holds
  -- only a remainder below zero is added to, still in the wider format
  by_cases hneg : a.tmod b.natAbs < 0
  · rw [if_pos hneg] at hrest
    rw [decide_eq_true hneg]
    refine Answers.bind ?_ hround
    rw [hrest] at holds ⊢
    exact Number.add_answers hroom hwhole hy.magnitude (holds.of_precision hwider)
  · rw [if_neg hneg] at hrest
    rw [decide_eq_false hneg]
    exact hround rest (hrest ▸ hwhole)

variable {s : Settings} {x y : Number} {a b : Int}

section

variable (hmax : s.precision ≤ 999999)

include hmax

theorem room : s.format.precision ≤ Format.maxPrecision := hmax.trans (by decide)

theorem ofInteger_answers (holds : s.format.Holds a) : Answers (ofInteger s a) a :=
  (Number.plus_answers (room hmax) (Number.whole_ofInt a) holds).ofSignal

variable (hx : x.Whole a)

include hx

theorem negate_answers (holds : s.format.Holds (-a)) : Answers (negate s x) (-a) :=
  (Number.minus_answers (room hmax) hx (holds.of_le (Int.natAbs_neg a).ge)).ofSignal

theorem absolute_answers (holds : s.format.Holds |a|) : Answers (absolute s x) |a| :=
  (Number.abs_answers (room hmax) hx (holds.of_le (Int.natAbs_abs a).ge)).ofSignal

theorem factorial_answers (ha : 0 ≤ a) (holds : s.format.Holds (a.toNat)!) :
    Answers (factorial s x) (a.toNat)! := by
  refine Answers.guarded ?_ _ _
  have hlimit : a.toNat ≤ maxFactors := le_maxFactors holds.lt
  rw [hx.integer]
  show Answers (if a < 0 then _ else if (maxFactors : Int) < a then _ else _) _
  rw [if_neg (by omega), if_neg (by omega), successiveProduct_one]
  exact ofInteger_answers hmax holds

variable (hy : y.Whole b)

include hy

theorem add_answers (holds : s.format.Holds (a + b)) : Answers (add s x y) (a + b) :=
  (Number.add_answers (room hmax) hx hy holds).ofSignal.guarded _ _

theorem subtract_answers (holds : s.format.Holds (a - b)) : Answers (subtract s x y) (a - b) :=
  (Number.subtract_answers (room hmax) hx hy holds).ofSignal.guarded _ _

theorem multiply_answers (holds : s.format.Holds (a * b)) : Answers (multiply s x y) (a * b) :=
  (Number.multiply_answers (room hmax) hx hy holds).ofSignal.guarded _ _

/-- **The remainder is from zero up to the magnitude of the divisor.** -/
theorem modulo_answers (hb : b ≠ 0) (hdividend : s.format.Holds a)
    (holds : s.format.Holds (a % b)) : Answers (modulo s x y) (a % b) := by
  refine Answers.guarded ?_ _ _
  rw [if_neg (mt hy.isZero_iff.mp hb)]
  exact (residue_answers hmax hx hy hb hdividend holds).ofSignal

/-- **Powers**, also of zero. -/
theorem power_answers (hb : 0 ≤ b) (holds : s.format.Holds (a ^ b.toNat)) :
    Answers (power s x y) (a ^ b.toNat) := by
  refine Answers.guarded ?_ _ _
  by_cases hzero : b = 0
  · subst hzero
    rw [if_pos (hy.isZero_iff.mpr rfl), Int.toNat_zero, pow_zero]
    exact ⟨_, rfl, Number.whole_one⟩
  · have hpower := Number.power_answers (room hmax) hx (n := b.toNat)
      (by rwa [Int.toNat_of_nonneg hb]) (by omega) holds
    rw [if_neg (mt hy.isZero_iff.mp hzero), hy.isBelow Number.whole_zero,
      decide_eq_false (not_lt.mpr hb)]
    -- only of zero is it asked whether the exponent is negative
    cases x.isZero <;> exact hpower.ofSignal

omit hmax in
/-- The operands of a selection. -/
theorem selection_eq (task : IntegerTask) (hb : 0 ≤ b) (hle : b ≤ a) :
    selection task x y = .ok (a.toNat, b.toNat) := by
  rw [selection, hx.integer, hy.integer]
  show (if a < 0 ∨ b < 0 then _ else if a < b then _ else _) = _
  rw [if_neg (by omega), if_neg (by omega)]
  rfl

theorem permutation_answers (hb : 0 ≤ b) (hle : b ≤ a)
    (holds : s.format.Holds (a.toNat.descFactorial b.toNat)) :
    Answers (permutation s x y) (a.toNat.descFactorial b.toNat) := by
  have hfactors : b.toNat ≤ maxFactors := by
    refine le_maxFactors (lt_of_le_of_lt ?_ holds.lt)
    rw [Int.natAbs_natCast, Nat.descFactorial_eq_factorial_mul_choose]
    exact Nat.le_mul_of_pos_right _ (Nat.choose_pos (by omega))
  rw [permutation, selection_eq hx hy .permutations hb hle]
  show Answers (if maxWord < b.toNat then _ else if maxFactors < b.toNat then _ else _) _
  rw [if_neg (not_lt.mpr (hfactors.trans (by decide))), if_neg (not_lt.mpr hfactors),
    successiveProduct_sub (by omega)]
  exact ofInteger_answers hmax holds

/-- Selecting and leaving out are one, so that only the smaller of both is computed. -/
theorem combination_answers (hb : 0 ≤ b) (hle : b ≤ a)
    (holds : s.format.Holds (a.toNat.choose b.toNat)) :
    Answers (combination s x y) (a.toNat.choose b.toNat) := by
  rw [combination, selection_eq hx hy .combinations hb hle]
  generalize hn : a.toNat = n at holds ⊢
  generalize hk : b.toNat = k at holds ⊢
  have hkn : k ≤ n := by omega
  have hfewer : n.choose (min k (n - k)) = n.choose k := by
    rcases min_choice k (n - k) with hmin | hmin
    · rw [hmin]
    · rw [hmin, Nat.choose_symm hkn]
  have hlimit : min k (n - k) ≤ maxSelection := by
    refine le_maxSelection (n := n) (by omega) ?_
    rw [hfewer]
    exact holds.lt
  show Answers (if maxWord < min k (n - k) then _ else
    if maxSelection < min k (n - k) then _ else _) _
  rw [if_neg (not_lt.mpr (hlimit.trans (by decide))), if_neg (not_lt.mpr hlimit),
    successiveProduct_sub (by omega), successiveProduct_one,
    ← Nat.choose_eq_descFactorial_div_factorial, hfewer]
  exact ofInteger_answers hmax holds

theorem gcd_answers (holds : s.format.Holds (a.gcd b)) : Answers (gcd s x y) (a.gcd b) := by
  rw [gcd, hx.integer, hy.integer]
  exact ofInteger_answers hmax holds

theorem lcm_answers (holds : s.format.Holds (a.lcm b)) : Answers (lcm s x y) (a.lcm b) := by
  rw [lcm, hx.integer, hy.integer]
  exact ofInteger_answers hmax holds

end

end Functions

end DecimalCalc
