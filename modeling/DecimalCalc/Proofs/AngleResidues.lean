import DecimalCalc.Proofs.Residues
import DecimalCalc.Proofs.SettledResults

/-!
# Places of residues

A number is on a place if it is a whole number of units of that place. Sums and multiples of numbers on
a place are on it, and so is what a division leaves of one by another (`OnPlace.truncatedRest`). So a
residue has no digits below the last digit of the operands, and if the dividend is not small, the last
digit of a number of a format is not far below the point: then the residue has so few digits that no
rounding changes it.

Whether a rounded residue is zero can be told from the exact one even where it has more digits
(`roundedResidue_eq_zero_iff`), as long as the remainder is not close to minus the divisor.
-/

set_option autoImplicit false

namespace DecimalCalc

open Except

/-! ## Places -/

/-- **A number on a place**: a whole number of its units. -/
def OnPlace (e : Int) (v : ℚ) : Prop := ∃ n : ℤ, v = n * 10 ^ e

namespace OnPlace

variable {f : Format} {d e : Int} {v w : ℚ}

theorem mono (h : OnPlace e v) (hle : d ≤ e) : OnPlace d v := by
  obtain ⟨n, rfl⟩ := h
  refine ⟨n * tenPow (e - d).toNat, ?_⟩
  have hscaled := cast_scaled (K := ℚ) 1 hle
  rw [Nat.one_mul, Nat.cast_one, one_mul] at hscaled
  rw [Int.cast_mul, Int.cast_natCast, mul_assoc, hscaled]

theorem sub (hv : OnPlace e v) (hw : OnPlace e w) : OnPlace e (v - w) := by
  obtain ⟨m, rfl⟩ := hv
  obtain ⟨n, rfl⟩ := hw
  exact ⟨m - n, by push_cast; ring⟩

theorem add (hv : OnPlace e v) (hw : OnPlace e w) : OnPlace e (v + w) := by
  obtain ⟨m, rfl⟩ := hv
  obtain ⟨n, rfl⟩ := hw
  exact ⟨m + n, by push_cast; ring⟩

theorem mul (k : ℤ) (h : OnPlace e v) : OnPlace e (k * v) := by
  obtain ⟨n, rfl⟩ := h
  exact ⟨k * n, by push_cast; ring⟩

/-- A number on a place is not smaller than a unit of it. -/
theorem le_abs (h : OnPlace e v) (hv : v ≠ 0) : 10 ^ e ≤ |v| := by
  obtain ⟨n, rfl⟩ := h
  have hpos := ten_zpow_pos (K := ℚ) e
  have hn : n ≠ 0 := by
    rintro rfl
    exact hv (by simp)
  have hone : (1 : ℚ) ≤ |(n : ℚ)| := by exact_mod_cast Int.one_le_abs hn
  rw [abs_mul, abs_of_pos hpos]
  exact le_mul_of_one_le_left hpos.le hone

/-- What a division leaves is on the place that both operands are on. -/
theorem truncatedRest (hv : OnPlace e v) (hw : OnPlace e w) : OnPlace e (truncatedRest v w) := by
  obtain ⟨k, hk⟩ := truncatedRest_multiple v w
  rw [show DecimalCalc.truncatedRest v w = v - k * w by linarith]
  exact hv.sub (hw.mul k)

/-- **A number of few digits above a place** is a number of the format. -/
theorem represents {k : Nat} (h : OnPlace e v) (hp : 0 < f.precision)
    (hdigits : k ≤ f.precision) (hlt : |v| < 10 ^ (e + k)) (he : f.tiny ≤ e)
    (htop : |v| < 10 ^ (Format.maxExponent + 1)) : f.Represents v := by
  obtain ⟨n, rfl⟩ := h
  have habs : |(n : ℚ) * 10 ^ e| = n.natAbs * 10 ^ e := by
    rw [abs_mul, abs_of_pos (ten_zpow_pos (K := ℚ) e), Nat.cast_natAbs, Int.cast_abs]
  rw [← Format.represents_abs]
  rw [habs] at hlt htop ⊢
  refine Format.represents_of_place ?_ he htop hp
  rw [add_comm, ten_zpow_add, ← cast_tenPow, mul_lt_mul_iff_left₀ (ten_zpow_pos e)] at hlt
  exact (Nat.cast_lt.mp hlt).trans_le (tenPow_le hdigits)

end OnPlace

/-- **The last place of a number of a format** is not far below its first. -/
theorem Format.Represents.onPlace {f : Format} {v : ℚ} {e : Int} (h : f.Represents v)
    (hlarge : 10 ^ e ≤ |v|) : OnPlace (e + 1 - f.precision) v := by
  obtain ⟨n, d, habs, hn, -⟩ := h.place
  have hlast : e + 1 - f.precision ≤ d := by
    have hlt : (10 : ℚ) ^ e < 10 ^ (f.precision + d : Int) := by
      rw [ten_zpow_add, ← cast_tenPow]
      refine (habs ▸ hlarge).trans_lt ?_
      exact mul_lt_mul_of_pos_right (Nat.cast_lt.mpr hn) (ten_zpow_pos d)
    have := ten_zpow_lt_iff.mp hlt
    omega
  refine OnPlace.mono ?_ hlast
  rcases abs_choice v with heq | heq
  · exact ⟨n, by rw [Int.cast_natCast, ← habs, heq]⟩
  · exact ⟨-n, by rw [Int.cast_neg, Int.cast_natCast, neg_mul, ← habs, heq, neg_neg]⟩

/-! ## Residues that are zero -/

/-- **Nothing is left** of a multiple of the divisor only. -/
theorem truncatedRest_eq_zero_iff {v w : ℚ} (hw : w ≠ 0) :
    truncatedRest v w = 0 ↔ ∃ k : ℤ, v = k * w := by
  constructor
  · intro hzero
    obtain ⟨k, hk⟩ := truncatedRest_multiple v w
    exact ⟨k, by rwa [hzero, sub_zero] at hk⟩
  · rintro ⟨k, hk⟩
    have hresidue : IsResidue v w 0 := ⟨le_rfl, abs_pos.mpr hw, k, by rw [sub_zero, hk]⟩
    have hzero := hresidue.unique (isResidue_truncatedRest v hw)
    have habove := neg_abs_lt_truncatedRest (v := v) hw
    split at hzero
    · linarith
    · exact hzero.symm

section HalfTurn

open Decimal (roundedResidue roundedResidue_of_neg roundedResidue_of_nonneg)

variable {f g : Format} {t : ℚ} {e : Int}

/-- What is rounded stays between a power of ten and a thousand. -/
theorem Format.rounded_small {v : ℚ} {e : Int} (hp : 0 < f.precision) (htiny : f.tiny ≤ e)
    (he : e ≤ 1) (hle : 10 ^ e ≤ v) (hlt : v ≤ 1000) :
    ∃ r, f.rounded v = .ok r ∧ 10 ^ e ≤ r ∧ r ≤ 1000 := by
  have hlow : f.Represents ((10 : ℚ) ^ e) := by
    refine represents_ten_zpow hp htiny ?_
    unfold maxExponent
    omega
  have hhigh : f.Represents (1000 : ℚ) := by
    have hthousand := represents_ten_zpow (K := ℚ) (f := f) (e := 3) hp
      (f.tiny_le.trans (by decide)) (by decide)
    norm_num at hthousand
    exact hthousand
  have hpos : 0 ≤ v := (ten_zpow_pos e).le.trans hle
  obtain ⟨r, hr⟩ := rounded_ok hhigh ((abs_of_nonneg hpos).trans_le hlt)
  exact ⟨r, hr, le_rounded hlow hle r hr, rounded_le hhigh hlt r hr⟩

/-- A negative remainder on a place is rounded to a negative number, and that is not close to minus a
half turn, or nothing was rounded. -/
theorem exists_rounded_neg (hg : 0 < g.precision) (htiny : g.tiny ≤ e) (he : e ≤ 1)
    (hle : 10 ^ e ≤ -t) (h : -100 ≤ t ∨ g.Represents t) :
    ∃ t', g.rounded t = .ok t' ∧ t' ≤ -10 ^ e ∧ (-100 ≤ t' ∨ t' = t) := by
  have hunit := ten_zpow_pos (K := ℚ) e
  rcases h with hclose | hrepresents
  · have hhundred : g.Represents (100 : ℚ) := by
      have hpower := Format.represents_ten_zpow (K := ℚ) (f := g) (e := 2) hg
        (g.tiny_le.trans (by decide)) (by decide)
      norm_num at hpower
      exact hpower
    have hstep : g.Represents ((10 : ℚ) ^ e) := by
      refine Format.represents_ten_zpow hg htiny ?_
      unfold Format.maxExponent
      omega
    obtain ⟨t', ht'⟩ := Format.rounded_ok hhundred (abs_le.mpr ⟨hclose, by linarith⟩)
    refine ⟨t', ht', Format.rounded_le hstep.neg (by linarith) t' ht', .inl ?_⟩
    exact Format.le_rounded hhundred.neg hclose t' ht'
  · exact ⟨t, hrepresents.rounded, by linarith, .inr rfl⟩

/-- What is left of a half turn is at least a power of ten, which is as fine as the remainder. -/
theorem exists_le_lifted {t' : ℚ} (hplace : OnPlace e t) (htiny : f.tiny ≤ e) (he : e ≤ 1)
    (hlow : -180 < t) (hbelow : -100 ≤ t' ∨ t' = t) :
    ∃ d : Int, f.tiny ≤ d ∧ d ≤ 1 ∧ 10 ^ d ≤ t' + 180 := by
  rcases hbelow with hclose | rfl
  · exact ⟨1, f.tiny_le.trans (by decide), le_rfl, by norm_num; linarith⟩
  · have hlifted : OnPlace e (t' + 180) := hplace.add (OnPlace.mono ⟨18, by norm_num⟩ he)
    have hleft := hlifted.le_abs (by linarith)
    rw [abs_of_pos (by linarith)] at hleft
    exact ⟨e, htiny, he, hleft⟩

/-- **A rounded residue by a half turn** is zero only if the remainder is. A remainder that is close to
minus the divisor has to be a number of the format, since it might be rounded to that. -/
theorem roundedResidue_eq_zero_iff (hp : 0 < f.precision) (hle : f.precision ≤ g.precision)
    (hplace : OnPlace e t) (htiny : f.tiny ≤ e) (he : e ≤ 1) (ht : |t| < 180)
    (h : -100 ≤ t ∨ g.Represents t) :
    ∃ r, roundedResidue f g t 180 = .ok r ∧ (r = 0 ↔ t = 0) := by
  have hg : 0 < g.precision := hp.trans_le hle
  have hfiner : ∀ {d : Int}, f.tiny ≤ d → g.tiny ≤ d := by
    intro d hd
    unfold Format.tiny at hd ⊢
    omega
  have hunit := ten_zpow_pos (K := ℚ) e
  obtain ⟨hlow, hhigh⟩ := abs_lt.mp ht
  -- a remainder below zero is rounded, lifted by the divisor and rounded again
  rcases lt_trichotomy t 0 with hneg | rfl | hpos
  · have habs : 10 ^ e ≤ -t := abs_of_neg hneg ▸ hplace.le_abs hneg.ne
    obtain ⟨t', ht', hupper, hbelow⟩ := exists_rounded_neg hg (hfiner htiny) he habs h
    obtain ⟨d, hd, hd1, hsum⟩ := exists_le_lifted hplace htiny he hlow hbelow
    obtain ⟨sum, hsum', hlower, hbound⟩ :=
      Format.rounded_small hg (hfiner hd) hd1 hsum (by linarith)
    obtain ⟨r, hr, hlower', -⟩ := Format.rounded_small hp hd hd1 hlower hbound
    have hrpos : 0 < r := (ten_zpow_pos d).trans_le hlower'
    refine ⟨r, ?_, iff_of_false hrpos.ne' hneg.ne⟩
    rw [roundedResidue_of_neg ht' (by linarith), hsum']
    exact hr
  · refine ⟨0, ?_, Iff.rfl⟩
    rw [roundedResidue_of_nonneg (Format.rounded_zero g) le_rfl, Format.rounded_zero]
  · have habs : 10 ^ e ≤ t := abs_of_pos hpos ▸ hplace.le_abs hpos.ne'
    obtain ⟨t', ht', hlower, hbound⟩ :=
      Format.rounded_small hg (hfiner htiny) he habs (by linarith)
    obtain ⟨r, hr, hlower', -⟩ := Format.rounded_small hp htiny he hlower hbound
    refine ⟨r, ?_, iff_of_false (hunit.trans_le hlower').ne' hpos.ne'⟩
    rw [roundedResidue_of_nonneg ht' (hunit.le.trans hlower)]
    exact hr

end HalfTurn

/-! ## Turns -/

namespace Functions

variable {f : Format} {d : Decimal}

/-- **The residue of a decimal by a positive integer** follows the rule of residues. -/
theorem moduloIn_answers_iff {n : ℤ} (hp : 0 < f.precision) (hn : 0 < n)
    (hmax : (working f d (Decimal.ofInt n)).precision ≤ Format.maxPrecision) {v : ℚ} :
    (moduloIn f (.finite d) (Number.ofInt n)).Answers v ↔
      Decimal.roundedResidue f (working f d (Decimal.ofInt n)) (truncatedRest d.value n) n =
        .ok v := by
  have hvalue : (Decimal.ofInt n).value = n := Decimal.value_ofInt n
  have hpos : (0 : ℚ) < n := by exact_mod_cast hn
  have hnonzero : (Decimal.ofInt n).isZero = false := by
    rw [← Decimal.value_ne_zero_iff, hvalue]
    exact hpos.ne'
  have hrule := residue_ok_iff hp hnonzero hmax (v := v)
  rw [hvalue, abs_of_pos hpos] at hrule
  rw [← hrule]
  exact exists_congr fun r => and_congr_left' (moduloIn_eq_ok hnonzero)

end Functions

end DecimalCalc
