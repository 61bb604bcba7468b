import DecimalCalc.Proofs.AngleResidues
import DecimalCalc.Proofs.ValueFunctions

/-!
# Poles are found exactly

In degrees, tangent has its poles at the odd multiples of ninety, and cotangent at the multiples of one
hundred and eighty. Whether an angle is one of them is found out exactly, however large or small it is
and however many digits it has (`Functions.poles_detected`): the difference from a pole is taken with all
digits, and what is left of it by a half turn is rounded to zero only if it is zero.

There are angles for which this cannot be computed: the formats of the difference and of the division
have a largest precision, and the difference has to be in the range of exponents
(`Functions.Comparable`).
-/

set_option autoImplicit false

namespace DecimalCalc

open Except

namespace Functions

variable {s : Settings} {f : Format} {x d offset : Decimal}

/-! ## Comparing an angle with a pole -/

/-- **An angle can be compared with a pole** if there is room for the difference and for its division by
a half turn, and the difference is in range. -/
structure Comparable (s : Settings) (x offset : Decimal) : Prop where
  difference : (angleFormat x offset).precision ≤ Format.maxPrecision
  division : (max ((Decimal.exactSum .halfEven x offset.neg).adjusted - 2) 0).toNat +
    s.precision + 2 ≤ Format.maxPrecision
  range : |x.value - offset.value| < 10 ^ (Format.maxExponent + 1)

theorem value_difference (x offset : Decimal) :
    (Decimal.exactSum .halfEven x offset.neg).value = x.value - offset.value := by
  rw [Decimal.value_exactSum, Decimal.value_neg, sub_eq_add_neg]

/-- The last digit of a difference does not stand before the point, if that of one operand is there. -/
theorem exponent_difference_le (x : Decimal) (hoffset : offset.exponent = 0) :
    (Decimal.exactSum .halfEven x offset.neg).exponent ≤ 0 := by
  have hmin : (Decimal.exactSum .halfEven x offset.neg).exponent =
      min x.exponent offset.exponent := by
    unfold Decimal.exactSum
    dsimp only
    split <;> rfl
  omega

/-- A zero whose last digit does not stand before the point does not do so when it is rounded. -/
theorem exists_round_of_isZero (hd : d.isZero = true) (hexponent : d.exponent ≤ 0) :
    ∃ z, d.round f = .ok z ∧ z.isZero = true ∧ z.adjusted ≤ 0 := by
  have htiny := f.tiny_le
  have hcoefficient : d.coefficient = 0 := Decimal.coefficient_eq_zero hd
  rw [Decimal.round, if_pos hd]
  refine ⟨_, rfl, hd, ?_⟩
  simp only [Decimal.adjusted, Decimal.digits, hcoefficient, digitCount_zero]
  unfold Format.minExponent at htiny
  omega

/-- **The difference from a pole** is exact. -/
theorem Comparable.subtract (h : Comparable s x offset) (hoffset : offset.exponent = 0) :
    ∃ d : Decimal, Number.subtract (angleFormat x offset) (.finite x) (.finite offset) =
        .ok (.finite d) ∧ d.value = x.value - offset.value ∧
      (working s.format d (Decimal.ofInt 180)).precision ≤ Format.maxPrecision := by
  obtain ⟨hmax, hroom, hrange⟩ := h
  have hplace : (Decimal.ofInt 180).adjusted = 2 := by decide
  have hdigits : (Decimal.exactSum .halfEven x offset.neg).isZero = false → _ :=
    digits_difference .halfEven
  have hvalue := value_difference x offset
  have hexponent := exponent_difference_le x hoffset
  have hsubtract : Number.subtract (angleFormat x offset) (.finite x) (.finite offset) =
      ((Decimal.exactSum .halfEven x offset.neg).round (angleFormat x offset)).map .finite := by
    show Number.add _ (.finite x) (.finite offset.neg) = _
    rw [Number.add, Number.lift₂_finite hmax]
    rfl
  -- the format of the comparison has room for all digits of the exact difference
  rw [hsubtract]
  generalize Decimal.exactSum .halfEven x offset.neg = sum at *
  cases hzero : sum.isZero with
  | true =>
      obtain ⟨z, hz, hz0, hlow⟩ := exists_round_of_isZero (f := angleFormat x offset) hzero hexponent
      refine ⟨z, by rw [hz]; rfl, ?_, ?_⟩
      · rw [← hvalue, Decimal.value_eq_zero_iff.mpr hzero, Decimal.value_eq_zero_iff.mpr hz0]
      · simp only [working, hplace, Settings.format]
        omega
  | false =>
      obtain ⟨hfew, htiny⟩ := hdigits hzero
      have hhighest : ¬Format.maxExponent < sum.adjusted := by
        rw [Decimal.overflows_iff (K := ℚ) (fun hz => absurd hz (by simp [hzero])), Rat.cast_id,
          hvalue]
        exact not_le.mpr hrange
      refine ⟨sum, ?_, hvalue, ?_⟩
      · rw [Decimal.round_of_room hfew htiny hzero, if_neg hhighest]
        rfl
      · simp only [working, hplace, Settings.format]
        exact hroom

/-- What a division leaves is not larger than the dividend. -/
theorem abs_truncatedRest_le {v w : ℚ} (hw : w ≠ 0) : |truncatedRest v w| ≤ |v| := by
  rw [abs_truncatedRest hw]
  exact magnitudeRest_le

/-- What is left by a half turn is on every place that the angle is on, up to the tens. -/
theorem onPlace_halfTurnRest {v w : ℚ} {e : Int} (hw : w = 0 ∨ w = 90) (he : e ≤ 1)
    (hplace : OnPlace e v) : OnPlace e (truncatedRest (v - w) 180) := by
  have hwhole : OnPlace e w := by
    refine OnPlace.mono ?_ he
    rcases hw with rfl | rfl
    · exact ⟨0, by norm_num⟩
    · exact ⟨9, by norm_num⟩
  exact (hplace.sub hwhole).truncatedRest (OnPlace.mono ⟨18, by norm_num⟩ he)

theorem abs_halfTurnRest_lt (v w : ℚ) : |truncatedRest (v - w) 180| < 180 := by
  have hturn : (180 : ℚ) ≠ 0 := by norm_num
  rw [abs_truncatedRest hturn]
  exact (magnitudeRest_lt hturn).trans_eq (abs_of_pos (by norm_num))

/-- What is left by a half turn has few digits unless the angle is small, and then it is not close to
minus a half turn. -/
theorem represents_halfTurnRest {v w : ℚ} {g : Format} (hp : 0 < f.precision)
    (hg : f.precision + 2 ≤ g.precision) (hv : f.Represents v) (hw : w = 0 ∨ w = 90) :
    -100 ≤ truncatedRest (v - w) 180 ∨ g.Represents (truncatedRest (v - w) 180) := by
  have hlt := abs_halfTurnRest_lt v w
  -- a small angle may have digits far below the point, but stays clear of minus a half turn
  by_cases hsmall : |v| < 10
  · left
    have hbound : |v - w| ≤ 100 := by
      obtain ⟨hlow, hhigh⟩ := abs_lt.mp hsmall
      rw [abs_le]
      rcases hw with rfl | rfl
      · constructor <;> linarith
      · constructor <;> linarith
    exact (abs_le.mp ((abs_truncatedRest_le (by norm_num)).trans hbound)).1
  · right
    have hlast : OnPlace (1 + 1 - f.precision) v :=
      hv.onPlace (by rw [zpow_one]; exact not_lt.mp hsmall)
    have hrest := onPlace_halfTurnRest hw (min_le_right (1 + 1 - (f.precision : Int)) 1)
      (hlast.mono (min_le_left _ _))
    refine hrest.represents (k := f.precision + 2) (by omega) hg ?_ ?_ ?_
    · refine hlt.trans_le ?_
      calc (180 : ℚ) ≤ 10 ^ (3 : Int) := by norm_num
        _ ≤ 10 ^ (min (1 + 1 - (f.precision : Int)) 1 + (f.precision + 2 : Nat)) :=
          ten_zpow_le_iff.mpr (by push_cast; omega)
    · unfold Format.tiny Format.minExponent
      omega
    · refine hlt.trans_le ?_
      calc (180 : ℚ) ≤ 10 ^ (3 : Int) := by norm_num
        _ ≤ 10 ^ (Format.maxExponent + 1) := ten_zpow_le_iff.mpr (by decide)

/-- **What is left of the difference** by a half turn is rounded to zero only if it is zero. -/
theorem roundedResidue_halfTurn {v w : ℚ} {g : Format} (hp : 0 < f.precision)
    (hg : f.precision + 2 ≤ g.precision) (hv : f.Represents v) (hw : w = 0 ∨ w = 90) :
    ∃ r, Decimal.roundedResidue f g (truncatedRest (v - w) 180) 180 = .ok r ∧
      (r = 0 ↔ ∃ k : ℤ, v = w + 180 * k) := by
  have htiny : f.tiny ≤ 1 := f.tiny_le.trans (by decide)
  obtain ⟨r, hr, hzero⟩ := roundedResidue_eq_zero_iff (g := g) hp (by omega)
    (onPlace_halfTurnRest hw htiny hv.multiple) le_rfl htiny (abs_halfTurnRest_lt v w)
    (represents_halfTurnRest hp hg hv hw)
  refine ⟨r, hr, hzero.trans ((truncatedRest_eq_zero_iff (by norm_num)).trans ?_)⟩
  refine exists_congr fun k => ?_
  constructor
  · intro h
    linarith
  · intro h
    linarith

/-- **The comparison with a pole is right** wherever it can be made. -/
theorem Comparable.onHalfTurns (h : Comparable s x offset) (hdegrees : s.angleUnit = .degrees)
    (hx : s.format.Represents x.value) (hexponent : offset.exponent = 0)
    (hoffset : offset.value = 0 ∨ offset.value = 90) :
    ∃ b, onHalfTurns s (.finite x) offset = .ok b ∧
      (b = true ↔ ∃ k : ℤ, x.value = offset.value + 180 * k) := by
  obtain ⟨d, hd, hvalue, hroom⟩ := h.subtract hexponent
  have hwide : s.format.precision + 2 ≤ (working s.format d (Decimal.ofInt 180)).precision := by
    unfold working
    dsimp only
    omega
  obtain ⟨v, hv, hzero⟩ :=
    roundedResidue_halfTurn (f := s.format) s.precision_pos hwide hx hoffset
  rw [← hvalue] at hv
  obtain ⟨r, hr, rfl⟩ :=
    (moduloIn_answers_iff (n := 180) s.precision_pos (by decide) hroom).mpr (by exact_mod_cast hv)
  -- what is tested is whether the rounded residue is zero
  refine ⟨r.isZero, ?_, by rw [← Decimal.value_eq_zero_iff]; exact hzero⟩
  have hmodulo : moduloIn s.format (.finite d) halfTurn = .ok (.finite r) := hr
  unfold Functions.onHalfTurns
  rw [hdegrees]
  show (Outcome.ofSignal (Number.subtract (angleFormat x offset) (.finite x) (.finite offset))).bind
    _ = _
  rw [hd]
  show (moduloIn s.format (.finite d) halfTurn).bind _ = _
  rw [hmodulo]
  rfl

/-! ## What is reported -/

/-- **A failure that reports no pole.** -/
def ReportsNoPole (e : OperationError) : Prop :=
  ∀ angle, e ≠ .fault (.tangentPole angle) ∧ e ≠ .fault (.cotangentPole angle)

theorem failsWith_guarded {α : Type} {operation : Operation} {operands : List Number}
    {result : Outcome α} (h : result.FailsWith ReportsNoPole) :
    (Outcome.guarded operation operands result).FailsWith ReportsNoPole := by
  unfold Outcome.guarded
  split
  · split
    · exact failsWith_error fun _ => ⟨nofun, nofun⟩
    · exact failsWith_error fun _ => ⟨nofun, nofun⟩
  · exact h

theorem failsWith_ofSignal {α : Type} (result : Except Signal α) :
    (Outcome.ofSignal result).FailsWith ReportsNoPole := by
  cases result with
  | ok a => exact failsWith_ok a
  | error signal => exact failsWith_error fun _ => ⟨nofun, nofun⟩

/-- No sine and no cosine has a pole. -/
theorem sinCos_failsWith (s : Settings) (x : Decimal) :
    (sinCos s (.finite x)).FailsWith ReportsNoPole := by
  unfold sinCos
  split
  · refine FailsWith.bind (failsWith_guarded ?_) fun reduced _ => FailsWith.bind ?_ fun _ _ =>
      failsWith_ok _
    · split
      · exact failsWith_error fun _ => ⟨nofun, nofun⟩
      · exact failsWith_ofSignal _
    · unfold Number.finite?
      split
      · exact failsWith_ok _
      · exact failsWith_error fun _ => ⟨nofun, nofun⟩
  · exact failsWith_ok _

theorem computed_failsWith (s : Settings) (x : Decimal)
    (ratio : (Nat → Option (Interval × Interval)) → Enclosure) :
    ((sinCos s (.finite x)).bind fun both => s.computedAtPlaces (ratio both)).FailsWith
      ReportsNoPole :=
  (sinCos_failsWith s x).bind fun _ _ => failsWith_ofSignal _

/-- **Tangent reports a pole** as the comparison says. -/
theorem tan_pole_iff {b : Bool} (h : onHalfTurns s (.finite x) (Decimal.ofInt 90) = .ok b) :
    tan s (.finite x) = .error (.fault (.tangentPole (.finite x))) ↔ b = true := by
  unfold tan
  rw [h]
  cases b with
  | true => exact iff_of_true rfl rfl
  | false =>
      refine iff_of_false (fun hpole => ?_) Bool.false_ne_true
      exact (failsWith_guarded (computed_failsWith s x _) _ hpole (.finite x)).1 rfl

/-- **Cotangent reports a pole** as the comparison says, since zero is a multiple of a half turn. -/
theorem cot_pole_iff {b : Bool} (h : onHalfTurns s (.finite x) Decimal.zero = .ok b)
    (hzero : x.isZero = true → b = true) :
    cot s (.finite x) = .error (.fault (.cotangentPole (.finite x))) ↔ b = true := by
  have hnumber : (Number.finite x).isZero = x.isZero := rfl
  unfold cot
  rw [h]
  cases b with
  | true => exact iff_of_true rfl rfl
  | false =>
      have hx : x.isZero = false := Bool.eq_false_iff.mpr fun hx => Bool.false_ne_true (hzero hx)
      refine iff_of_false (fun hpole => ?_) Bool.false_ne_true
      rw [hnumber, hx] at hpole
      exact (failsWith_guarded (computed_failsWith s x _) _ hpole (.finite x)).2 rfl

/-- **Poles are found exactly.** In degrees, and for every angle that the format of the settings
represents, an angle that can be compared with zero or with ninety is found to differ from it by a
multiple of a half turn exactly if it does. So tangent reports a pole exactly at the odd multiples of
ninety, and cotangent at the multiples of one hundred and eighty. -/
theorem poles_detected (s : Settings) (hdegrees : s.angleUnit = .degrees) {x : Decimal}
    (hx : s.format.Represents x.value) :
    (∀ offset, offset = Decimal.zero ∨ offset = Decimal.ofInt 90 → Comparable s x offset →
      ∃ b, onHalfTurns s (.finite x) offset = .ok b ∧
        (b = true ↔ ∃ k : ℤ, x.value = offset.value + 180 * k)) ∧
    (Comparable s x (Decimal.ofInt 90) →
      (tan s (.finite x) = .error (.fault (.tangentPole (.finite x))) ↔
        ∃ k : ℤ, x.value = 90 + 180 * k)) ∧
    (Comparable s x Decimal.zero →
      (cot s (.finite x) = .error (.fault (.cotangentPole (.finite x))) ↔
        ∃ k : ℤ, x.value = 180 * k)) := by
  have hninety : (Decimal.ofInt 90).value = 90 := Decimal.value_ofInt 90
  have htest : ∀ offset, offset = Decimal.zero ∨ offset = Decimal.ofInt 90 →
      Comparable s x offset → ∃ b, onHalfTurns s (.finite x) offset = .ok b ∧
        (b = true ↔ ∃ k : ℤ, x.value = offset.value + 180 * k) := by
    rintro offset (rfl | rfl) hcomparable
    · exact hcomparable.onHalfTurns hdegrees hx rfl (.inl Decimal.value_zero)
    · exact hcomparable.onHalfTurns hdegrees hx rfl (.inr hninety)
  refine ⟨htest, fun hcomparable => ?_, fun hcomparable => ?_⟩
  · obtain ⟨b, hb, hiff⟩ := htest _ (.inr rfl) hcomparable
    rw [hninety] at hiff
    exact (tan_pole_iff hb).trans hiff
  · obtain ⟨b, hb, hiff⟩ := htest _ (.inl rfl) hcomparable
    simp only [Decimal.value_zero, zero_add] at hiff
    refine (cot_pole_iff hb fun hzero => hiff.mpr ⟨0, ?_⟩).trans hiff
    rw [Decimal.value_eq_zero_iff.mpr hzero, Int.cast_zero, mul_zero]

/-- Four hundred and fifty degrees, in a precision of three digits. -/
theorem poles_detected_odd :
    let s : Settings := { Settings.initial with precision := 3, precision_pos := by decide }
    tan s (.finite ⟨false, 450, 0⟩) = .error (.fault (.tangentPole (.finite ⟨false, 450, 0⟩))) := by
  intro s
  have hx : s.format.Represents (Decimal.value ⟨false, 450, 0⟩) := ⟨_, by decide +kernel, rfl⟩
  have hvalue : Decimal.value ⟨false, 450, 0⟩ = 450 := by norm_num [Decimal.value, Decimal.signed]
  have hninety : (Decimal.ofInt 90).value = 90 := Decimal.value_ofInt 90
  refine ((poles_detected s rfl hx).2.1 ⟨by decide +kernel, by decide +kernel, ?_⟩).mpr ⟨2, ?_⟩
  · calc |Decimal.value ⟨false, 450, 0⟩ - (Decimal.ofInt 90).value|
        ≤ 10 ^ (3 : Int) := by
          rw [hvalue, hninety]
          norm_num
      _ < 10 ^ (Format.maxExponent + 1) := ten_zpow_lt_iff.mpr (by decide)
  · rw [hvalue]
    norm_num

/-- **Not every pole is found**: close to the largest precision no digit is left for the quotient, and
the comparison is refused at ninety degrees. -/
theorem tan_pole_refused :
    let s : Settings :=
      { Settings.initial with precision := 999999999999999998, precision_pos := by decide }
    s.angleUnit = .degrees ∧ s.format.Represents (Decimal.value ⟨false, 90, 0⟩) ∧
      Decimal.value ⟨false, 90, 0⟩ = 90 + 180 * 0 ∧
      tan s (.finite ⟨false, 90, 0⟩) =
        .error (.fault (.refused .modulo [.finite ⟨false, 0, 0⟩, .finite ⟨false, 180, 0⟩])) := by
  intro s
  refine ⟨rfl, ⟨_, by decide +kernel, rfl⟩, ?_, by decide +kernel⟩
  norm_num [Decimal.value, Decimal.signed]

end Functions

end DecimalCalc
