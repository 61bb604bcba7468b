import DecimalCalc.Proofs.FaithfulRounding
import DecimalCalc.Proofs.ValueArithmetic

/-!
# Square roots are correctly rounded

The square root of a decimal is the root of its value, rounded once, and always with halves to the
even neighbour, whatever the rounding mode of the format is (`Decimal.squareRoot_value`). The root is
cut off at a place below the last one that is kept; the digit that stands there is raised where
rounding could take it for exact, so the cut-off root lies among the multiples of five where the root
itself does (`Decimal.alike_cutRoot`).

The root need not be a rational number, so the statements are about any ordered field that has it.
-/

set_option autoImplicit false

namespace DecimalCalc

variable {K : Type} [Field K] [LinearOrder K] [IsStrictOrderedRing K] [FloorSemiring K]

namespace Decimal

variable {f : Format} {x : Decimal} {ρ : K} {v : ℚ}

/-- A root lies between the whole number that it is cut off at and the next one. -/
theorem sqrt_floor_bounds (hρ : 0 ≤ ρ) (hsquare : ρ * ρ = (v : K)) :
    (⌊v⌋₊.sqrt : K) ≤ ρ ∧ ρ < ⌊v⌋₊.sqrt + 1 := by
  have hv : 0 ≤ v := by
    have hnonneg : (0 : K) ≤ (v : K) := hsquare ▸ mul_nonneg hρ hρ
    exact_mod_cast hnonneg
  have hlow : ((⌊v⌋₊.sqrt * ⌊v⌋₊.sqrt : Nat) : ℚ) ≤ v :=
    (Nat.cast_le.mpr (Nat.sqrt_le ⌊v⌋₊)).trans (Nat.floor_le hv)
  have hhigh : v < (((⌊v⌋₊.sqrt + 1) * (⌊v⌋₊.sqrt + 1) : Nat) : ℚ) := by
    refine (Nat.lt_floor_add_one v).trans_le ?_
    exact_mod_cast Nat.succ_le_of_lt (Nat.lt_succ_sqrt ⌊v⌋₊)
  generalize ⌊v⌋₊.sqrt = r at hlow hhigh ⊢
  have hlow' : (r : K) * r ≤ ρ * ρ := by
    rw [hsquare]
    exact_mod_cast (Rat.cast_le (K := K)).mpr hlow
  have hhigh' : ρ * ρ < ((r : K) + 1) * (r + 1) := by
    rw [hsquare]
    exact_mod_cast (Rat.cast_lt (K := K)).mpr hhigh
  have hpos : (0 : K) ≤ r + 1 := by positivity
  exact ⟨(mul_self_le_mul_self_iff (Nat.cast_nonneg r) hρ).mpr hlow',
    (mul_self_lt_mul_self_iff hρ hpos).mpr hhigh'⟩

/-- **A root that is cut off** lies among the multiples of five where the root itself does. -/
theorem alike_cutRoot (hρ : 0 ≤ ρ) (hsquare : ρ * ρ = (v : K)) :
    Alike 5 ((cutRoot v : Nat) : K) ρ := by
  obtain ⟨hlow, hhigh⟩ := sqrt_floor_bounds hρ hsquare
  unfold cutRoot
  generalize ⌊v⌋₊.sqrt = r at hlow hhigh ⊢
  by_cases hexact : ((r * r : Nat) : ℚ) = v
  · -- nothing is cut off
    have hroot : (r : K) = ρ := by
      have hsame : (r : K) * r = ρ * ρ := by
        rw [hsquare, ← hexact]
        push_cast
        rfl
      exact (mul_self_inj (Nat.cast_nonneg r) hρ).mp hsame
    rw [if_pos hexact, hroot]
    exact fun n => ⟨Iff.rfl, Iff.rfl⟩
  · have hne : (r : K) ≠ ρ := by
      intro hroot
      apply hexact
      have hcast : ((r * r : Nat) : K) = (v : K) := by
        rw [← hsquare, ← hroot, Nat.cast_mul]
      exact_mod_cast hcast
    rw [if_neg hexact]
    exact alike_raised (lt_of_le_of_ne hlow hne) hhigh

/-! ## The root of a decimal -/

omit [IsStrictOrderedRing K] in
/-- The root of zero is a zero. -/
theorem squareRoot_of_isZero (hx : x.isZero = true) :
    (squareRoot f x).map (fun y => (y.value : K)) = .ok 0 := by
  have hzero : Decimal.isZero { x with exponent := x.exponent.fdiv 2 } = true := hx
  obtain ⟨y, hy, hy0⟩ := round_zero { f with rounding := .halfEven } hzero
  have hyvalue : (y.value : K) = 0 := by exact_mod_cast value_eq_zero_iff.mpr hy0
  unfold squareRoot
  rw [if_pos hx, hy]
  exact congrArg Except.ok hyvalue

omit [FloorSemiring K] in
theorem value_nonneg_of_square (hsquare : ρ * ρ = (x.value : K)) : 0 ≤ x.value := by
  have hnonneg : (0 : K) ≤ (x.value : K) := hsquare ▸ mul_self_nonneg ρ
  exact_mod_cast hnonneg

/-- A root has all the digits that are kept above the unit that it is cut off at. -/
theorem root_large (hx : x.isZero = false) (hρ : 0 ≤ ρ) (hsquare : ρ * ρ = (x.value : K)) :
    (10 : K) ^ (rootUnit f x + f.precision) ≤ |ρ| := by
  have hnonneg : (0 : K) ≤ (x.value : K) := hsquare ▸ mul_self_nonneg ρ
  have hsquares : (10 : K) ^ (rootUnit f x + f.precision) *
      10 ^ (rootUnit f x + f.precision) ≤ ρ * ρ := by
    have hle := (cast_le_adjusted_iff (K := K) hx).mp (le_refl x.adjusted)
    rw [hsquare, ← abs_of_nonneg hnonneg, ← ten_zpow_add]
    refine (ten_zpow_le_iff.mpr ?_).trans hle
    unfold rootUnit
    omega
  rw [abs_of_nonneg hρ]
  exact (mul_self_le_mul_self_iff (ten_zpow_pos _).le hρ).mpr hsquares

/-- What the root is cut off to lies among the multiples of five units where the root does. -/
theorem alike_root {u : Int} {c : ℚ} (hρ : 0 ≤ ρ) (hsquare : ρ * ρ = (v : K))
    (hc : c = cutRoot (v / 10 ^ (2 * u)) * 10 ^ u) : Alike (5 * 10 ^ u) ρ (c : K) := by
  have hunit := ten_zpow_pos (K := K) u
  have hscaled : ρ / 10 ^ u * (ρ / 10 ^ u) = ((v / 10 ^ (2 * u) : ℚ) : K) := by
    rw [div_mul_div_comm, hsquare, two_mul, ten_zpow_add]
    push_cast
    rfl
  have hcut := (alike_cutRoot (div_nonneg hρ hunit.le) hscaled).mul hunit
  rw [div_mul_cancel₀ _ hunit.ne'] at hcut
  rw [hc]
  push_cast
  exact hcut.symm

/-- **Square roots are correctly rounded**, with halves to the even neighbour. -/
theorem squareRoot_value (hp : 0 < f.precision) (hρ : 0 ≤ ρ) (hsquare : ρ * ρ = (x.value : K)) :
    (squareRoot f x).map (fun y => (y.value : K)) =
      Format.rounded { f with rounding := .halfEven } ρ := by
  cases hx : x.isZero with
  | true =>
      have hvalue : (x.value : K) = 0 := by exact_mod_cast value_eq_zero_iff.mpr hx
      obtain rfl : ρ = 0 := mul_self_eq_zero.mp (hsquare.trans hvalue)
      rw [squareRoot_of_isZero hx, Format.rounded_zero]
  | false =>
      obtain ⟨z, hz, hsign, habs⟩ := squareRoot_eq_round (f := f) hx
      have hvalue := value_nonneg_of_square hsquare
      rw [abs_of_nonneg hvalue] at habs
      have halike : Alike (5 * 10 ^ rootUnit f x) |ρ| |(z.value : K)| := by
        rw [abs_of_nonneg hρ, ← Rat.cast_abs]
        exact alike_root hρ hsquare habs
      have hnegative : ρ < 0 ↔ z.negative = true := by
        rw [hsign, negative_iff hx]
        exact iff_of_false (not_lt.mpr hρ) (not_lt.mpr hvalue)
      rw [hz]
      exact round_of_alike (f := { f with rounding := .halfEven }) hp hnegative halike
        (root_large hx hρ hsquare)

end Decimal

end DecimalCalc
