import DecimalCalc.Proofs.ComputedTangents
import DecimalCalc.Proofs.PoleDetection
import DecimalCalc.Proofs.ReportedFailures

/-!
# Angles that differ by whole turns

In degrees, sine, cosine, tangent and cotangent answer one number for two angles that differ by whole
turns, or report a fault for both (`Functions.degrees_periodic`). If the angles are not the same number,
then one of them is not small, and both of them are on a place that is not far below the point. So their
common residue by a full turn has no more digits than the precision, and is found without rounding. From
then on the computations are the same.

The tangent is an exception close to the lowest number of the format: the difference of an angle from
ninety may overflow where that of an equivalent one does not, whose tangent is computed
(`Functions.tan_refused_near_lowest`).
-/

set_option autoImplicit false

namespace DecimalCalc

open Except

/-! ## Common residues -/

/-- Numbers that differ by a multiple of the divisor have one residue. -/
theorem IsResidue.of_multiple {v v' w m : ℚ} (h : IsResidue v w m) {k : ℤ} (hk : v' = v + w * k) :
    IsResidue v' w m := by
  obtain ⟨j, hj⟩ := h.multiple
  refine ⟨h.nonneg, h.lt, j + k, ?_⟩
  push_cast
  linarith

/-- A residue is on the place that both operands are on. -/
theorem IsResidue.onPlace {v w m : ℚ} {e : Int} (h : IsResidue v w m) (hv : OnPlace e v)
    (hw : OnPlace e w) : OnPlace e m := by
  obtain ⟨k, hk⟩ := h.multiple
  rw [show m = v - k * w by linarith]
  exact hv.sub (hw.mul k)

/-- The residue by a full turn. -/
theorem exists_isResidue (v : ℚ) : ∃ m, IsResidue v 360 m :=
  ⟨_, isResidue_truncatedRest v (by norm_num)⟩

/-- **Angles that differ by whole turns, and not by none, are on a place** that is not far below the
point, since one of them is not small. -/
theorem onPlace_of_turns {f : Format} {v w : ℚ} {k : ℤ} (hv : f.Represents v) (hw : f.Represents w)
    (h : w = v + 360 * k) (hk : k ≠ 0) :
    OnPlace (min (3 - f.precision) 1) v ∧ OnPlace (min (3 - f.precision) 1) w := by
  have hturns : OnPlace (min (3 - (f.precision : Int)) 1) (360 * k : ℚ) :=
    OnPlace.mono ⟨36 * k, by push_cast; ring⟩ (min_le_right _ _)
  have hlarge : ∀ {c : ℚ}, f.Represents c → 100 ≤ |c| → OnPlace (min (3 - (f.precision : Int)) 1) c :=
    fun hc hle => (hc.onPlace (e := 2) (by norm_num; exact hle)).mono (min_le_left _ _)
  -- if the one is small, the other is not, since they are a turn apart
  by_cases hle : 100 ≤ |v|
  · have hplace := hlarge hv hle
    exact ⟨hplace, h ▸ hplace.add hturns⟩
  · have hle' : 100 ≤ |w| := by
      have hk1 : (1 : ℚ) ≤ |(k : ℚ)| := by exact_mod_cast Int.one_le_abs hk
      have htotal : |360 * (k : ℚ)| ≤ |w| + |v| := by
        rw [show 360 * (k : ℚ) = w - v by linarith]
        exact abs_sub w v
      rw [abs_mul, abs_of_pos (by norm_num : (0 : ℚ) < 360)] at htotal
      linarith [not_le.mp hle]
    have hplace := hlarge hw hle'
    refine ⟨?_, hplace⟩
    rw [show v = w - 360 * k by linarith]
    exact hplace.sub hturns

/-- **A residue by a full turn is exact** for an angle on such a place. -/
theorem roundedResidue_fullTurn {f g : Format} {v m : ℚ} {digits : Nat} (hp : 0 < f.precision)
    (hle : f.precision ≤ g.precision) (hv : g.Represents v) (hm : IsResidue v 360 m)
    (hplace : OnPlace (min (3 - digits) 1) v) (hdigits : digits + 2 ≤ f.precision) :
    Decimal.roundedResidue f g (truncatedRest v 360) 360 = .ok m := by
  have hturn : OnPlace (min (3 - (digits : Int)) 1) 360 :=
    OnPlace.mono ⟨36, by norm_num⟩ (min_le_right _ _)
  have hlt : |m| < 360 := by
    rw [abs_of_nonneg hm.nonneg]
    exact hm.lt.trans_eq (abs_of_pos (by norm_num))
  -- the residue is below a full turn and on the place of the angle, so that it needs few digits
  have hrepresents : f.Represents m := by
    refine (hm.onPlace hplace hturn).represents (k := digits + 2) hp hdigits ?_ ?_ ?_
    · refine hlt.trans_le ?_
      calc (360 : ℚ) ≤ 10 ^ (3 : Int) := by norm_num
        _ ≤ 10 ^ (min (3 - (digits : Int)) 1 + (digits + 2 : Nat)) :=
          ten_zpow_le_iff.mpr (by push_cast; omega)
    · unfold Format.tiny Format.minExponent
      omega
    · refine hlt.trans_le ?_
      calc (360 : ℚ) ≤ 10 ^ (3 : Int) := by norm_num
        _ ≤ 10 ^ (Format.maxExponent + 1) := ten_zpow_le_iff.mpr (by decide)
  have hturn' : g.Represents (360 : ℚ) := by
    have hten : OnPlace 1 (360 : ℚ) := ⟨36, by norm_num⟩
    refine hten.represents (k := 2) (by omega) (by omega) (by norm_num)
      (g.tiny_le.trans (by decide)) ?_
    calc |(360 : ℚ)| ≤ 10 ^ (3 : Int) := by norm_num
      _ < 10 ^ (Format.maxExponent + 1) := ten_zpow_lt_iff.mpr (by decide)
  have hrule := roundedResidue_of_represents (f := f) hv hturn' hm
  rw [abs_of_pos (by norm_num : (0 : ℚ) < 360)] at hrule
  rw [hrule, (hrepresents.mono hle).rounded]
  exact hrepresents.rounded

namespace Functions

open Number (Same)
open Outcome OperationError

variable {s : Settings} {x y : Decimal} {k : ℤ}

/-! ## Steps that see no turns -/

/-- **The residue of an angle by a full turn** is found without rounding, if the angle is on a place that
is not far below the point. -/
theorem residue_answered (hroomy : s.Roomy) (hx : x.Fits s.format) {m : ℚ}
    (hm : IsResidue x.value 360 m) (hplace : OnPlace (min (3 - (s.format.precision : Int)) 1) x.value) :
    (moduloIn (s.widened guardDigits) (.finite x) fullTurn).Answers m := by
  have hwide : (s.widened guardDigits).precision ≤
      (working (s.widened guardDigits) x (Decimal.ofInt 360)).precision := le_working _ _ _
  have hmax : (working (s.widened guardDigits) x (Decimal.ofInt 360)).precision ≤
      Format.maxPrecision := by
    have hlead : (Decimal.ofInt 360).adjusted = 2 := by decide
    have hhighest := hx.highest
    unfold Settings.Roomy at hroomy
    unfold Format.maxExponent at hhighest
    simp only [working, hlead, Settings.widened, guardDigits]
    omega
  have hrepresents : (working (s.widened guardDigits) x (Decimal.ofInt 360)).Represents x.value :=
    Format.Represents.mono (f := s.format) ⟨x, hx, rfl⟩ (le_trans (Nat.le_add_right _ _) hwide)
  have hrule := roundedResidue_fullTurn (f := s.widened guardDigits) (Nat.succ_pos _) hwide
    hrepresents hm hplace (Nat.add_le_add_left (by decide) _)
  exact (moduloIn_answers_iff (n := 360) (Nat.succ_pos _) (by decide) hmax).mpr
    (by exact_mod_cast hrule)

/-- **Sine and cosine are computed alike** for angles that differ by whole turns. -/
theorem agree_sinCos_of_turns (hdegrees : s.angleUnit = .degrees) (hroomy : s.Roomy)
    (hx : x.Fits s.format) (hy : y.Fits s.format) (h : y.value = x.value + 360 * k) :
    Agree Eq (sinCos s (.finite x)) (sinCos s (.finite y)) := by
  -- without a turn it is one angle, and that may be as small as the format allows
  by_cases hk : k = 0
  · have hsame : Same (.finite x) (.finite y) := .finite (by rw [Decimal.Same, h, hk]; simp)
    refine agree_sinCos s hsame hroomy ?_ ?_
    · rintro d ⟨⟩
      exact hx
    · rintro d ⟨⟩
      exact hy
  · obtain ⟨m, hm⟩ := exists_isResidue x.value
    obtain ⟨hplace, hplace'⟩ := onPlace_of_turns (f := s.format) ⟨x, hx, rfl⟩ ⟨y, hy, rfl⟩ h hk
    obtain ⟨a, ha, hvalue⟩ := residue_answered hroomy hx hm hplace
    obtain ⟨b, hb, hvalue'⟩ := residue_answered hroomy hy (hm.of_multiple h) hplace'
    have hsame : a.Same b := hvalue.trans hvalue'.symm
    unfold sinCos
    rw [hdegrees]
    dsimp only
    rw [ha, hb]
    refine .ok ?_
    funext bits
    rw [Interval.sinCosDegrees_congr hsame]

/-- There is room for the comparison of an angle with a pole. -/
theorem comparable_of_fits (hroomy : s.Roomy) (hx : x.Fits s.format) {offset : Decimal}
    (hhigh : offset.adjusted ≤ 1) (hexponent : offset.exponent = 0)
    (hrange : |x.value - offset.value| < 10 ^ (Format.maxExponent + 1)) :
    Comparable s x offset := by
  refine ⟨angleFormat_le s hroomy hx hhigh hexponent.ge, ?_, hrange⟩
  have hplace : (Decimal.exactSum .halfEven x offset.neg).adjusted ≤ 999999 := by
    cases hzero : (Decimal.exactSum .halfEven x offset.neg).isZero with
    | true =>
        have hcoefficient := Decimal.coefficient_eq_zero hzero
        have hlow := exponent_difference_le x hexponent
        rw [Decimal.adjusted, Decimal.digits, hcoefficient, digitCount_zero]
        omega
    | false =>
        have hlt := (Decimal.adjusted_lt_iff hzero).mpr (value_difference x offset ▸ hrange)
        unfold Format.maxExponent at hlt
        omega
  unfold Settings.Roomy at hroomy
  omega

/-- **The comparison with a pole** sees no turns. -/
theorem agree_onHalfTurns_of_turns (hdegrees : s.angleUnit = .degrees) (hroomy : s.Roomy)
    (hx : x.Fits s.format) (hy : y.Fits s.format) (h : y.value = x.value + 360 * k)
    {offset : Decimal} (hoffset : offset = Decimal.zero ∨ offset = Decimal.ofInt 90)
    (hrange : |x.value - offset.value| < 10 ^ (Format.maxExponent + 1))
    (hrange' : |y.value - offset.value| < 10 ^ (Format.maxExponent + 1)) :
    ∃ b, onHalfTurns s (.finite x) offset = .ok b ∧ onHalfTurns s (.finite y) offset = .ok b ∧
      (b = true ↔ ∃ j : ℤ, x.value = offset.value + 180 * j) := by
  have hparts : offset.adjusted ≤ 1 ∧ offset.exponent = 0 := by
    rcases hoffset with rfl | rfl
    · decide
    · decide
  have htest := (poles_detected s hdegrees (x := x) ⟨x, hx, rfl⟩).1 offset hoffset
    (comparable_of_fits hroomy hx hparts.1 hparts.2 hrange)
  have htest' := (poles_detected s hdegrees (x := y) ⟨y, hy, rfl⟩).1 offset hoffset
    (comparable_of_fits hroomy hy hparts.1 hparts.2 hrange')
  obtain ⟨b, hb, hiff⟩ := htest
  obtain ⟨b', hb', hiff'⟩ := htest'
  have hsame : b = b' := by
    rw [Bool.eq_iff_iff, hiff, hiff', h]
    constructor
    · rintro ⟨j, hj⟩
      exact ⟨j + 2 * k, by push_cast; linarith⟩
    · rintro ⟨j, hj⟩
      exact ⟨j - 2 * k, by push_cast; linarith⟩
  exact ⟨b, hb, hsame ▸ hb', hiff⟩

/-! ## A precision without results -/

/-- **No result has more places** after the point than the last one that is looked for. -/
theorem settleAtPlaces_gives_false (h : 2000054 < s.precision) (computed : Except Signal Decimal) :
    (s.settleAtPlaces computed).Gives fun _ => False := by
  refine Gives.mapError ?_ _
  refine gives_bind fun w => ?_
  have hshift : Decimal.shiftPoint Format.standard Decimal.one (-(s.precision : Int)) =
      .error .invalidOperation := by
    rw [Decimal.shiftPoint, if_pos]
    show 2 * (Format.maxExponent + 28) < _
    unfold Format.maxExponent
    omega
  dsimp only
  rw [hshift]
  exact gives_error _

/-- Calls without results agree. -/
theorem agree_of_gives_false {a b : Outcome Number} (ha : a.Gives fun _ => False)
    (hb : b.Gives fun _ => False) : Agree Same a b := by
  cases a with
  | ok z => exact absurd rfl fun h => ha z h
  | error e =>
      cases b with
      | ok z => exact absurd rfl fun h => hb z h
      | error e' => exact .error e e'

/-! ## The functions -/

/-- **Two calls with one outcome**: they answer one number, or report a fault both. -/
structure AnswerAlike (result result' : Outcome Number) : Prop where
  agree : Agree Same result result'
  fails : result.FailsWith IsFault
  fails' : result'.FailsWith IsFault

/-- What is computed from sine and cosine agrees where these do. -/
theorem agree_computed (h : Agree Eq (sinCos s (.finite x)) (sinCos s (.finite y)))
    (ratio : (Nat → Option (Interval × Interval)) → Enclosure) :
    Agree Same ((sinCos s (.finite x)).bind fun both => s.computedAtPlaces (ratio both))
      ((sinCos s (.finite y)).bind fun both => s.computedAtPlaces (ratio both)) :=
  h.bind fun _ _ _ _ heq => Number.same_of_eq (by rw [heq]) (s.computedAtPlaces_gives _)

/-- **Degree trigonometry is periodic.** For angles of at most as many digits as the precision that
differ by whole turns, each of sine, cosine and cotangent answers one number or reports a fault for both,
and so does tangent, if the angles are one number or their differences from ninety are in the range of
exponents. -/
theorem degrees_periodic (s : Settings) (hdegrees : s.angleUnit = .degrees) {x y : Decimal} {k : ℤ}
    (hx : x.Fits s.format) (hy : y.Fits s.format) (h : y.value = x.value + 360 * k) :
    AnswerAlike (sin s (.finite x)) (sin s (.finite y)) ∧
    AnswerAlike (cos s (.finite x)) (cos s (.finite y)) ∧
    AnswerAlike (cot s (.finite x)) (cot s (.finite y)) ∧
    (k = 0 ∨ |x.value - 90| < 10 ^ (Format.maxExponent + 1) ∧
        |y.value - 90| < 10 ^ (Format.maxExponent + 1) →
      AnswerAlike (tan s (.finite x)) (tan s (.finite y))) := by
  suffices hagree : Agree Same (sin s (.finite x)) (sin s (.finite y)) ∧
      Agree Same (cos s (.finite x)) (cos s (.finite y)) ∧
      Agree Same (cot s (.finite x)) (cot s (.finite y)) ∧
      (k = 0 ∨ |x.value - 90| < 10 ^ (Format.maxExponent + 1) ∧
          |y.value - 90| < 10 ^ (Format.maxExponent + 1) →
        Agree Same (tan s (.finite x)) (tan s (.finite y))) from
    ⟨⟨hagree.1, fails_guarded rfl _ _, fails_guarded rfl _ _⟩,
      ⟨hagree.2.1, fails_guarded rfl _ _, fails_guarded rfl _ _⟩,
      ⟨hagree.2.2.1, fails_guarded rfl _ _, fails_guarded rfl _ _⟩,
      fun hrange => ⟨hagree.2.2.2 hrange, fails_guarded rfl _ _, fails_guarded rfl _ _⟩⟩
  by_cases hroomy : s.precision ≤ 2000054
  · have hroomy : s.Roomy := by
      unfold Settings.Roomy Format.maxPrecision
      omega
    have hboth := agree_sinCos_of_turns hdegrees hroomy hx hy h
    have htop : |x.value| < 10 ^ (Format.maxExponent + 1) :=
      Format.Represents.abs_lt (f := s.format) ⟨x, hx, rfl⟩
    have htop' : |y.value| < 10 ^ (Format.maxExponent + 1) :=
      Format.Represents.abs_lt (f := s.format) ⟨y, hy, rfl⟩
    refine ⟨agree_guarded (agree_computed hboth _), agree_guarded (agree_computed hboth _), ?_,
      fun hrange => ?_⟩
    · obtain ⟨b, hb, hb', hiff⟩ := agree_onHalfTurns_of_turns hdegrees hroomy hx hy h (.inl rfl)
        (by rwa [Decimal.value_zero, sub_zero]) (by rwa [Decimal.value_zero, sub_zero])
      simp only [Decimal.value_zero, zero_add] at hiff
      -- zero is among the poles that are found
      have hxzero : (b || (Number.finite x).isZero) = b := by
        refine Bool.or_eq_left_iff_imp.mpr fun hzero => hiff.mpr ⟨0, ?_⟩
        rw [Decimal.value_eq_zero_iff.mpr hzero, Int.cast_zero, mul_zero]
      have hyzero : (b || (Number.finite y).isZero) = b := by
        refine Bool.or_eq_left_iff_imp.mpr fun hzero => hiff.mpr ⟨-2 * k, ?_⟩
        rw [Decimal.value_eq_zero_iff.mpr hzero] at h
        push_cast
        linarith
      unfold cot
      rw [hb, hb']
      refine agree_guarded ?_
      show Agree Same (if (b || (Number.finite x).isZero) then _ else _)
        (if (b || (Number.finite y).isZero) then _ else _)
      rw [hxzero, hyzero]
      exact agree_ite Iff.rfl (fun _ => agree_fail _ _) fun _ => agree_computed hboth _
    · rcases hrange with hk | ⟨hrange, hrange'⟩
      · have hsame : Same (.finite x) (.finite y) := .finite (by rw [Decimal.Same, h, hk]; simp)
        refine agree_tan s hsame hroomy ?_ ?_
        · rintro d ⟨⟩
          exact hx
        · rintro d ⟨⟩
          exact hy
      · have hninety : (Decimal.ofInt 90).value = 90 := Decimal.value_ofInt 90
        obtain ⟨b, hb, hb', -⟩ := agree_onHalfTurns_of_turns hdegrees hroomy hx hy h (.inr rfl)
          (by rwa [hninety]) (by rwa [hninety])
        unfold tan
        rw [hb, hb']
        exact agree_guarded
          (agree_ite Iff.rfl (fun _ => agree_fail _ _) fun _ => agree_computed hboth _)
  · have hnone : ∀ (z : Decimal) (ratio : (Nat → Option (Interval × Interval)) → Enclosure),
        ((sinCos s (.finite z)).bind fun both => s.computedAtPlaces (ratio both)).Gives
          fun _ => False :=
      fun z ratio => gives_bind fun both => settleAtPlaces_gives_false (not_le.mp hroomy) _
    refine ⟨?_, ?_, ?_, fun _ => ?_⟩
    · exact agree_of_gives_false (gives_guarded (hnone x _)) (gives_guarded (hnone y _))
    · exact agree_of_gives_false (gives_guarded (hnone x _)) (gives_guarded (hnone y _))
    · exact agree_of_gives_false
        (gives_guarded (gives_bind fun _ => gives_ite (gives_error _) (hnone x _)))
        (gives_guarded (gives_bind fun _ => gives_ite (gives_error _) (hnone y _)))
    · exact agree_of_gives_false
        (gives_guarded (gives_bind fun _ => gives_ite (gives_error _) (hnone x _)))
        (gives_guarded (gives_bind fun _ => gives_ite (gives_error _) (hnone y _)))

/-- The sine of an angle below zero, in a precision of three digits: it is that of thirty degrees. -/
theorem degrees_periodic_thirty :
    let s : Settings := { Settings.initial with precision := 3, precision_pos := by decide }
    ∃ r : Decimal, sin s (.finite ⟨true, 690, 0⟩) = .ok (.finite r) ∧ r.value = 1 / 2 := by
  intro s
  have hturns : Decimal.value ⟨false, 30, 0⟩ = Decimal.value ⟨true, 690, 0⟩ + 360 * (2 : ℤ) := by
    norm_num [Decimal.value, Decimal.signed]
  have hrun : sin s (.finite ⟨false, 30, 0⟩) = .ok (.finite ⟨false, 500, -3⟩) := by decide +kernel
  obtain ⟨hsin, -⟩ := degrees_periodic s rfl (by decide +kernel) (by decide +kernel) hturns
  obtain ⟨z, hz, hsame⟩ := hsin.agree.exists_eq_ok hrun
  cases hsame with
  | finite hsame =>
      have hhalf : Decimal.value ⟨false, 500, -3⟩ = 1 / 2 := by
        norm_num [Decimal.value, Decimal.signed]
      exact ⟨_, hz, Eq.trans hsame hhalf⟩

/-! ## Angles close to the lowest number -/

/-- **Tangent is refused where the difference from ninety overflows**, whatever the tangent is. -/
theorem tan_refused_of_overflow (hdegrees : s.angleUnit = .degrees) (hroomy : s.Roomy)
    (hx : x.Fits s.format) (hrange : 10 ^ (Format.maxExponent + 1) ≤ |x.value - 90|) :
    tan s (.finite x) = .error (.fault (.refused .tan [.finite x])) := by
  have hninety : (Decimal.ofInt 90).value = 90 := Decimal.value_ofInt 90
  have hmax : (angleFormat x (Decimal.ofInt 90)).precision ≤ Format.maxPrecision :=
    angleFormat_le s hroomy hx (by decide) (by decide)
  have hvalue := value_difference x (Decimal.ofInt 90)
  have hdigits : (Decimal.exactSum .halfEven x (Decimal.ofInt 90).neg).isZero = false → _ :=
    digits_difference .halfEven
  have hsubtract : Number.subtract (angleFormat x (Decimal.ofInt 90)) (.finite x)
      (.finite (Decimal.ofInt 90)) = .error .overflow := by
    show Number.add _ (.finite x) (.finite (Decimal.ofInt 90).neg) = _
    rw [Number.add, Number.lift₂_finite hmax]
    show ((Decimal.exactSum .halfEven x (Decimal.ofInt 90).neg).round _).map _ = _
    rw [hninety] at hvalue
    generalize Decimal.exactSum .halfEven x (Decimal.ofInt 90).neg = sum at *
    have hzero : sum.isZero = false := by
      rw [← Decimal.value_ne_zero_iff, hvalue, ← abs_pos]
      exact (ten_zpow_pos _).trans_le hrange
    -- there is room for every digit of the difference, so that only its size is left to fail
    obtain ⟨hfew, htiny⟩ := hdigits hzero
    have hhigh : Format.maxExponent < sum.adjusted := by
      rw [Decimal.overflows_iff (K := ℚ) (fun hz => absurd hz (by simp [hzero])), Rat.cast_id, hvalue]
      exact hrange
    rw [Decimal.round_of_room hfew htiny hzero, if_pos hhigh]
    rfl
  have hpole : onHalfTurns s (.finite x) (Decimal.ofInt 90) = .error (.signal .overflow) := by
    unfold onHalfTurns
    rw [hdegrees]
    show (ofSignal (Number.subtract (angleFormat x (Decimal.ofInt 90)) (.finite x)
      (.finite (Decimal.ofInt 90)))).bind _ = _
    rw [hsubtract]
    rfl
  unfold tan
  rw [hpole]
  rfl

/-- The powers of ten from a thousand on have one residue by a full turn. -/
theorem turns_dvd_tenPow (n : Nat) : 360 ∣ tenPow (n + 3) + 80 := by
  induction n with
  | zero => decide
  | succ n ih =>
      have hnext : tenPow (n + 1 + 3) = tenPow (n + 3) * 10 := tenPow_succ (n + 3)
      omega

/-- A coefficient close to the least power of ten beyond the range of a format. -/
theorem tan_refused_of_lowest {s : Settings} {n : Nat} (hdegrees : s.angleUnit = .degrees)
    (hroomy : s.Roomy) (hp : 1000000 ≤ s.precision) (hn : n + 55 = tenPow 1000000) :
    Decimal.Fits s.format ⟨true, n, 0⟩ ∧
      (∃ k : ℤ, (Decimal.value ⟨false, 135, 0⟩) = Decimal.value ⟨true, n, 0⟩ + 360 * k) ∧
      tan s (.finite ⟨true, n, 0⟩) = .error (.fault (.refused .tan [.finite ⟨true, n, 0⟩])) := by
  have hvalue : Decimal.value ⟨true, n, 0⟩ = -n := by
    simp [Decimal.value, Decimal.signed]
  have hcount : digitCount n ≤ 1000000 := (digitCount_le_iff (by decide)).mpr (by omega)
  have hfits : Decimal.Fits s.format ⟨true, n, 0⟩ := by
    refine ⟨hcount.trans hp, ?_, ?_⟩
    · unfold Decimal.adjusted Decimal.digits Format.maxExponent
      dsimp only
      omega
    · unfold Format.tiny Format.minExponent
      dsimp only
      omega
  refine ⟨hfits, ?_, tan_refused_of_overflow hdegrees hroomy hfits ?_⟩
  · -- the angle and 135 are apart by a power of ten and 80, which are whole turns
    obtain ⟨k, hk⟩ := turns_dvd_tenPow 999997
    rw [← hn] at hk
    refine ⟨k, ?_⟩
    have hk' : (n : ℚ) + 55 + 80 = 360 * k := by exact_mod_cast hk
    have hy : Decimal.value ⟨false, 135, 0⟩ = 135 := by norm_num [Decimal.value, Decimal.signed]
    rw [hvalue, Int.cast_natCast, ← hk', hy]
    ring
  · have hpower : (n : ℚ) + 55 = 10 ^ (Format.maxExponent + 1) := by
      rw [show Format.maxExponent + 1 = ((1000000 : Nat) : Int) from rfl, ← cast_tenPow, ← hn]
      push_cast
      rfl
    rw [hvalue, ← hpower, abs_of_neg] <;> linarith [Nat.cast_nonneg (α := ℚ) n]

/-! ## Three eighths of a turn -/

section ThreeEighths

variable (hdegrees : s.angleUnit = .degrees) (hlow : 3 ≤ s.precision) (hroomy : s.Roomy)

theorem value_threeEighths : Decimal.value ⟨false, 135, 0⟩ = 135 := by
  norm_num [Decimal.value, Decimal.signed]

include hlow

theorem fits_threeEighths : Decimal.Fits s.format ⟨false, 135, 0⟩ := by
  refine ⟨hlow, by decide, ?_⟩
  show -999999 - (s.precision : Int) + 1 ≤ 0
  omega

include hdegrees hroomy

/-- Three eighths of a turn are no pole of the tangent. -/
theorem onHalfTurns_threeEighths :
    onHalfTurns s (.finite ⟨false, 135, 0⟩) (Decimal.ofInt 90) = .ok false := by
  have hfits := fits_threeEighths hlow
  have hnear : |Decimal.value ⟨false, 135, 0⟩ - (Decimal.ofInt 90).value| <
      10 ^ (Format.maxExponent + 1) := by
    rw [value_threeEighths, Decimal.value_ofInt]
    calc |(135 : ℚ) - (90 : Int)| < 10 ^ (2 : Int) := by norm_num [abs_of_pos]
      _ ≤ 10 ^ (Format.maxExponent + 1) := ten_zpow_le_iff.mpr (by decide)
  have hcomparable : Comparable s ⟨false, 135, 0⟩ (Decimal.ofInt 90) :=
    comparable_of_fits hroomy hfits (by decide) (by decide) hnear
  obtain ⟨b, hb, hiff⟩ := hcomparable.onHalfTurns hdegrees ⟨_, hfits, rfl⟩ (by decide)
    (.inr (Decimal.value_ofInt 90))
  have hpole : b = false := by
    rw [Bool.eq_false_iff, ne_eq, hiff, value_threeEighths, Decimal.value_ofInt]
    rintro ⟨k, hk⟩
    have hwhole : (135 : Int) = 90 + 180 * k := by exact_mod_cast hk
    omega
  rw [hb, hpole]

/-- Sine and cosine of three eighths of a turn are computed without a reduction. -/
theorem sinCos_threeEighths : sinCos s (.finite ⟨false, 135, 0⟩) =
    .ok fun bits => some (Interval.sinCosDegrees bits ⟨false, 135, 0⟩) := by
  have hresidue : IsResidue (Decimal.value ⟨false, 135, 0⟩) 360 135 :=
    ⟨by norm_num, by norm_num, 0, by rw [value_threeEighths]; norm_num⟩
  have hplace : OnPlace (min (3 - (s.format.precision : Int)) 1) (Decimal.value ⟨false, 135, 0⟩) := by
    have hunit : OnPlace 0 (Decimal.value ⟨false, 135, 0⟩) :=
      ⟨135, by rw [value_threeEighths]; norm_num⟩
    refine hunit.mono ?_
    show min (3 - (s.precision : Int)) 1 ≤ 0
    omega
  obtain ⟨m, hm, hsame⟩ := residue_answered hroomy (fits_threeEighths hlow) hresidue hplace
  unfold sinCos
  rw [hdegrees]
  dsimp only
  rw [hm]
  refine congrArg ok (funext fun bits => ?_)
  rw [Interval.sinCosDegrees_congr (hsame.trans value_threeEighths.symm)]

end ThreeEighths

/-- **The tangent of three eighths of a turn is computed**, if the precision is not beyond the range of
exponents. -/
theorem exists_tan (hdegrees : s.angleUnit = .degrees) (hlow : 3 ≤ s.precision)
    (hp : s.precision ≤ 1000000) :
    ∃ z : Decimal, tan s (.finite ⟨false, 135, 0⟩) = .ok (.finite z) := by
  have hroomy : s.Roomy := by
    unfold Settings.Roomy Format.maxPrecision
    omega
  obtain ⟨z, hz⟩ := s.exists_computedAtPlaces hp (.inr fun bits hbits => Interval.exists_tangent hbits)
  refine ⟨z, ?_⟩
  unfold tan
  rw [onHalfTurns_threeEighths hdegrees hlow hroomy, sinCos_threeEighths hdegrees hlow hroomy]
  exact Outcome.guarded_eq_ok.mpr hz

/-- **Tangent is not periodic close to the lowest number of the format**: an angle that has as many
digits as the largest one differs by whole turns from one hundred and thirty-five degrees, and is
refused, while these have a tangent. -/
theorem tan_refused_near_lowest :
    let s : Settings := { Settings.initial with precision := 1000000, precision_pos := by decide }
    let x : Decimal := ⟨true, tenPow 1000000 - 55, 0⟩
    let y : Decimal := ⟨false, 135, 0⟩
    x.Fits s.format ∧ y.Fits s.format ∧ (∃ k : ℤ, y.value = x.value + 360 * k) ∧
      tan s (.finite x) = .error (.fault (.refused .tan [.finite x])) ∧
      ∃ z : Decimal, tan s (.finite y) = .ok (.finite z) := by
  intro s x y
  have hlarge : tenPow 2 ≤ tenPow 1000000 := tenPow_le (by decide)
  have hn : tenPow 1000000 - 55 + 55 = tenPow 1000000 :=
    Nat.sub_add_cancel (le_trans (by decide) hlarge)
  have hroomy : s.Roomy := by
    unfold Settings.Roomy
    decide
  obtain ⟨hfits, hturns, hrun⟩ := tan_refused_of_lowest (s := s) rfl hroomy le_rfl hn
  exact ⟨hfits, by decide +kernel, hturns, hrun, exists_tan rfl (by decide) le_rfl⟩

end Functions

end DecimalCalc
