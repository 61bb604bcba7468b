import DecimalCalc.Proofs.SameNumbers

/-!
# Operations on numbers of one value

Every operation answers operands of the same values with results of the same value, or fails on both
(`Operation.action_respects`). The operands have to be within the format: then a power sees no more
digits of its base than the precision.

Two formats depend on how an operand is written: that in which a zero is divided by a modulus, and
that in which an angle is compared with the poles of the tangent. Both are wide enough for what is
computed in them to be exact. But there is a largest precision, and half of it has to be enough for
the settings (`Settings.Roomy`).
-/

set_option autoImplicit false

namespace DecimalCalc

open Except

/-! ## Outcomes -/

namespace Outcome

variable {α : Type} {R : α → α → Prop} {result result' : Outcome α}

/-- What a failure is reported as does not matter. -/
theorem agree_guarded {operation : Operation} {operands operands' : List Number}
    (h : Agree R result result') :
    Agree R (guarded operation operands result) (guarded operation operands' result') := by
  have hfails : ∀ (operands : List Number) (e : OperationError),
      ∃ e', (guarded operation operands (.error e) : Outcome α) = .error e' := by
    intro operands e
    unfold guarded
    split
    · split <;> exact ⟨_, rfl⟩
    · exact ⟨e, rfl⟩
  cases h with
  | ok h => exact .ok h
  | error e e' =>
      obtain ⟨_, he⟩ := hfails operands e
      obtain ⟨_, he'⟩ := hfails operands' e'
      rw [he, he']
      exact .error _ _

theorem agree_fail (fault fault' : DomainFault) :
    Agree R (fail fault : Outcome α) (fail fault' : Outcome α) := .error _ _

theorem agree_ofSignal {x y : Except Signal α} (h : Agree R x y) :
    Agree R (ofSignal x) (ofSignal y) := h.mapError _ _

/-- One question, with one answer, and then steps that agree. -/
theorem agree_ask {β : Type} {question question' : Outcome β} (h : question = question')
    {f g : β → Outcome α} (hfg : ∀ b, Agree R (f b) (g b)) :
    Agree R (question.bind f) (question'.bind g) := by
  subst h
  cases question with
  | error e => exact .error e e
  | ok b => exact hfg b

end Outcome

/-! ## Functions -/

/-- **Coordinates of one value**: both of their components are, and these are no NaNs. -/
structure Coordinate.Same (c d : Coordinate) : Prop where
  first : c.first.Same d.first
  second : c.second.Same d.second
  known : c.first.Known ∧ c.second.Known

/-- **There is room** for every format that a computation needs: twice the precision and the whole
exponent range are within the largest precision. -/
def Settings.Roomy (s : Settings) : Prop := 2 * s.precision + 1999999 ≤ Format.maxPrecision

theorem Number.Within.adjusted_le {f : Format} {z : Number} (hz : z.Within f) :
    z.adjusted ≤ 999999 := by
  cases z with
  | finite d => exact (hz d rfl).highest
  | infinite negative => exact (by decide : (0 : Int) ≤ 999999)
  | nan negative signaling payload => exact (by decide : (0 : Int) ≤ 999999)

/-- There is room for the format in which a number is divided by a turn or a half of it. -/
theorem Settings.Roomy.turn {s : Settings} (hroomy : s.Roomy) {z : Number} {g : Format}
    (hz : z.Within g) (extra : Nat) (hextra : extra ≤ 10) :
    (max (z.adjusted - 2) 0).toNat + (s.precision + extra) + 2 ≤ Format.maxPrecision := by
  have hhigh := hz.adjusted_le
  unfold Settings.Roomy at hroomy
  omega

namespace Functions

open Number (Same)
open Outcome

variable (s : Settings) {x x' y y' : Number}

/-! ### Remainders -/

/-- The remainder of zero by what is no NaN is a zero, in a format that can be had. -/
theorem remainder_of_isZero {f : Format} {d : Decimal} (hx : d.isZero = true) (hy : y.Known)
    (hp : 0 < f.precision) (hroom : f.precision ≤ Format.maxPrecision) :
    ∃ w, Number.remainder f (.finite d) y.magnitude = .ok (.finite w) ∧ w.isZero = true := by
  cases y with
  | nan negative signaling payload => exact absurd rfl (hy _ _ _)
  | infinite negative =>
      obtain ⟨w, hw, hw0⟩ := Decimal.round_zero f hx
      refine ⟨w, ?_, hw0⟩
      show (f.check).bind _ = _
      rw [Number.check_ok hroom]
      show (d.round f).map Number.finite = _
      rw [hw]
      rfl
  | finite e =>
      obtain ⟨z, hz, -, habs⟩ := Decimal.remainder_eq_round f d e.magnitude
      have hvalue := Decimal.value_eq_zero_iff.mpr hx
      rw [hvalue, abs_zero, zero_div, Nat.floor_zero, digitCount_zero, if_neg (by omega)]
        at hz
      rw [hvalue] at habs
      have hz0 : z.isZero = true := Decimal.value_eq_zero_iff.mp (by simpa using habs)
      obtain ⟨w, hw, hw0⟩ := Decimal.round_zero f hz0
      refine ⟨w, ?_, hw0⟩
      show Number.remainder f (.finite d) (.finite e.magnitude) = _
      rw [Number.remainder, Number.lift₂_finite hroom, hz, hw]
      rfl

/-- The residue of zero by what is no NaN is a zero, where there is room for the format of the
division. -/
theorem residue_of_isZero {f : Format} {d : Decimal} (hx : d.isZero = true)
    (hy : y.Known)
    (hroom : (max (d.adjusted - y.magnitude.adjusted) 0).toNat + f.precision + 2 ≤
      Format.maxPrecision) :
    ∃ z : Decimal, residue f (.finite d) y = Number.plus f (.finite z) ∧ z.isZero = true := by
  obtain ⟨w, hremainder, hw0⟩ := remainder_of_isZero
    (f := ⟨(max ((Number.finite d).adjusted - y.magnitude.adjusted) 0).toNat + f.precision + 2,
      f.rounding⟩) hx hy (Nat.succ_pos _) hroom
  have hbelow : (Number.finite w).isBelow Number.zero = .ok false := by
    show Except.ok (w.compare Decimal.zero == .lt) = _
    rw [Decimal.compare_eq, Decimal.value_eq_zero_iff.mpr hw0, Decimal.value_zero]
    rfl
  refine ⟨w, ?_, hw0⟩
  unfold residue
  simp only [hremainder, hbelow, bind, Except.bind, pure, Except.pure, Bool.false_eq_true,
    if_false]

/-- No remainder by a NaN is compared with zero. -/
theorem residue_nan (f : Format) (d : Decimal) (negative : Bool) (payload : Nat) :
    ∃ e, residue f (.finite d) (.nan negative false payload) = .error e := by
  unfold residue Number.remainder Number.lift₂
  dsimp only [Number.magnitude]
  generalize hexact : (⟨_, f.rounding⟩ : Format) = exact
  cases hcheck : exact.check with
  | error e => exact ⟨e, rfl⟩
  | ok u => exact ⟨.invalidOperation, rfl⟩

/-- Residues of zeros agree: both are zeros, or the divisor is a NaN and there is none. -/
theorem agree_residue_of_isZero {f : Format} {d d' : Decimal} (hp : 0 < f.precision)
    (hx : d.isZero = true) (hx' : d'.isZero = true) (hy : Same y y')
    (hroom : (max (d.adjusted - y.magnitude.adjusted) 0).toNat + f.precision + 2 ≤
      Format.maxPrecision)
    (hroom' : (max (d'.adjusted - y'.magnitude.adjusted) 0).toNat + f.precision + 2 ≤
      Format.maxPrecision) :
    Agree Same (residue f (.finite d) y) (residue f (.finite d') y') := by
  have hnumber : y.Known → y'.Known →
      Agree Same (residue f (.finite d) y) (residue f (.finite d') y') := by
    intro hknown hknown'
    obtain ⟨z, hz, hz0⟩ := residue_of_isZero hx hknown hroom
    obtain ⟨z', hz', hz0'⟩ := residue_of_isZero hx' hknown' hroom'
    rw [hz, hz']
    refine Number.agree_plus hp (.finite ?_)
    exact (Decimal.value_eq_zero_iff.mpr hz0).trans (Decimal.value_eq_zero_iff.mpr hz0').symm
  cases hy with
  | finite hy => exact hnumber nofun nofun
  | infinite negative => exact hnumber nofun nofun
  | nan negative negative' payload payload' =>
      obtain ⟨cause, hcause⟩ := residue_nan f d negative payload
      obtain ⟨cause', hcause'⟩ := residue_nan f d' negative' payload'
      rw [hcause, hcause']
      exact .error cause cause'

/-- Residues agree that are computed in one format. -/
theorem agree_residue_of_adjusted {f : Format} (hp : 0 < f.precision) (hx : Same x x')
    (hy : Same y y')
    (hformat : x.adjusted - y.magnitude.adjusted = x'.adjusted - y'.magnitude.adjusted) :
    Agree Same (residue f x y) (residue f x' y') := by
  unfold residue
  dsimp only
  rw [hformat]
  generalize hexact : (⟨_, f.rounding⟩ : Format) = exact
  have hpexact : 0 < exact.precision := by
    rw [← hexact]
    exact Nat.succ_pos _
  refine (Number.agree_remainder hpexact hx hy.magnitude).bind fun rest rest' _ _ hrest => ?_
  rw [hrest.isBelow Number.same_zero]
  refine (agree_refl (R := Eq) (fun _ => rfl) _).bind fun below below' _ _ hbelow => ?_
  subst hbelow
  cases below with
  | false => exact Number.agree_plus hp hrest
  | true =>
      exact (Number.agree_add hpexact hrest hy.magnitude).bind fun sum sum' _ _ hsum =>
        Number.agree_plus hp hsum

theorem agree_residue {f : Format} (hp : 0 < f.precision) (hx : Same x x') (hy : Same y y')
    (hy0 : y.isZero = false)
    (hroom : ∀ z, z = x ∨ z = x' → z.isZero = true →
      (max (z.adjusted - y.magnitude.adjusted) 0).toNat + f.precision + 2 ≤ Format.maxPrecision) :
    Agree Same (residue f x y) (residue f x' y') := by
  have hdivisor : y.magnitude.adjusted = y'.magnitude.adjusted := by
    refine hy.magnitude.adjusted ?_
    cases y with
    | finite e => exact hy0
    | infinite negative => rfl
    | nan negative signaling payload => rfl
  cases hx0 : x.isZero with
  | false => exact agree_residue_of_adjusted hp hx hy (by rw [hx.adjusted hx0, hdivisor])
  | true =>
      have hx0' : x'.isZero = true := hx.isZero ▸ hx0
      have hleft := hroom x (.inl rfl) hx0
      have hright := hroom x' (.inr rfl) hx0'
      -- the zeros may differ in their exponents, and so in the formats that they are divided in
      cases hx with
      | infinite negative => cases hx0
      | nan => cases hx0
      | finite hx => exact agree_residue_of_isZero hp hx0 hx0' hy hleft (hdivisor ▸ hright)

theorem agree_moduloIn {f : Format} (hp : 0 < f.precision) (hx : Same x x') (hy : Same y y')
    (hroom : ∀ z, z = x ∨ z = x' → y.isZero = false → z.isZero = true →
      (max (z.adjusted - y.magnitude.adjusted) 0).toNat + f.precision + 2 ≤ Format.maxPrecision) :
    Agree Same (moduloIn f x y) (moduloIn f x' y') := by
  refine agree_guarded (agree_ite (by rw [hy.isZero]) (fun _ => agree_fail _ _) fun hy0 => ?_)
  have hy0 : y.isZero = false := Bool.not_eq_true _ ▸ hy0
  exact agree_ofSignal (agree_residue hp hx hy hy0 fun z hz => hroom z hz hy0)

variable (hx : Same x x') (hy : Same y y')

/-! ### Arithmetic -/

section Arithmetic

include hx

include hy

theorem agree_add : Agree Same (add s x y) (add s x' y') :=
  agree_guarded (agree_ofSignal (Number.agree_add s.precision_pos hx hy))

theorem agree_multiply : Agree Same (multiply s x y) (multiply s x' y') :=
  agree_guarded (agree_ofSignal (Number.agree_multiply s.precision_pos hx hy))

theorem agree_divide : Agree Same (divide s x y) (divide s x' y') :=
  agree_guarded <| agree_ite (by rw [hy.isZero]) (fun _ => agree_fail _ _) fun hy0 =>
    agree_ofSignal (Number.agree_divide s.precision_pos hx hy (Bool.not_eq_true _ ▸ hy0))

theorem agree_power (hwithin : x.Within s.format) (hwithin' : x'.Within s.format) :
    Agree Same (power s x y) (power s x' y') := by
  refine agree_guarded <| agree_ite (by rw [hy.isZero]) (fun _ => .ok Number.same_one) fun hy0 => ?_
  have hresult := agree_ofSignal (Number.agree_power (f := s.format) s.precision_pos hx hy
    (Bool.not_eq_true _ ▸ hy0) hwithin hwithin')
  refine agree_ite (by rw [hx.isZero]) (fun _ => ?_) fun _ => hresult
  refine agree_ask (congrArg ofSignal (hy.isBelow Number.same_zero)) fun below => ?_
  exact agree_ite Iff.rfl (fun _ => .error _ _) fun _ => hresult

end Arithmetic

/-! ### Roots and logarithms -/

section Algebra

include hx

theorem agree_squareRoot : Agree Same (squareRoot s x) (squareRoot s x') :=
  agree_guarded <| agree_ask (congrArg ofSignal (hx.isBelow Number.same_zero)) fun _ =>
    agree_ite Iff.rfl (fun _ => agree_fail _ _) fun _ =>
      agree_ofSignal (Number.agree_squareRoot s.precision_pos hx)

include hy

end Algebra

/-! ### Integers -/

section Integers

include hx

include hy

end Integers

/-! ### Elementary functions -/

section Elementary

include hx

include hy

end Elementary

/-! ### Angles -/

section Angles

theorem adjusted_fullTurn : fullTurn.magnitude.adjusted = 2 := by decide

theorem adjusted_halfTurn : halfTurn.magnitude.adjusted = 2 := by decide

theorem agree_sinCos (hx : Same x x') (hroomy : s.Roomy) (hwithin : x.Within s.format)
    (hwithin' : x'.Within s.format) : Agree Eq (sinCos s x) (sinCos s x') := by
  unfold sinCos
  cases s.angleUnit with
  | radians =>
      refine hx.finite?.bind fun d e _ _ h => .ok ?_
      funext bits
      rw [h.ofDecimal]
  | degrees =>
      have hmodulo : Agree Same (moduloIn (s.widened guardDigits) x fullTurn)
          (moduloIn (s.widened guardDigits) x' fullTurn) := by
        refine agree_moduloIn (Nat.succ_pos _) hx (Number.same_ofInt 360) fun z hz _ _ => ?_
        have hz : z.Within s.format := by rcases hz with rfl | rfl <;> assumption
        rw [adjusted_fullTurn]
        exact hroomy.turn hz _ (by decide)
      refine hmodulo.bind fun a b _ _ hab => hab.finite?.bind fun d e _ _ h => .ok ?_
      funext bits
      rw [Interval.sinCosDegrees_congr h]

/-- The format that an angle is compared with a pole in. -/
def angleFormat (x offset : Decimal) : Format :=
  ⟨(max (max x.adjusted offset.adjusted) 0 + 2 - min (min x.exponent offset.exponent) 0).toNat,
    .halfEven⟩

theorem angleFormat_pos (x offset : Decimal) : 0 < (angleFormat x offset).precision := by
  simp only [angleFormat]
  omega

theorem angleFormat_le (hroomy : s.Roomy) {x offset : Decimal} (hx : x.Fits s.format)
    (hhigh : offset.adjusted ≤ 1) (hlow : 0 ≤ offset.exponent) :
    (angleFormat x offset).precision ≤ Format.maxPrecision := by
  have hhighest := hx.highest
  have hlowest := hx.lowest
  unfold Settings.Roomy at hroomy
  unfold Format.maxExponent at hhighest
  unfold Format.tiny Format.minExponent at hlowest
  simp only [Settings.format] at hlowest
  simp only [angleFormat]
  omega

/-- No digit of the difference from a pole is lost. -/
theorem digits_difference {x offset : Decimal} (mode : Rounding)
    (hsum : (Decimal.exactSum mode x offset.neg).isZero = false) :
    (Decimal.exactSum mode x offset.neg).digits ≤ (angleFormat x offset).precision ∧
      (angleFormat x offset).tiny ≤ (Decimal.exactSum mode x offset.neg).exponent := by
  have hexponent : (Decimal.exactSum mode x offset.neg).exponent =
      min x.exponent offset.exponent := by
    unfold Decimal.exactSum
    dsimp only
    split <;> rfl
  -- the sum is below twice the next power of ten
  have hadjusted : (Decimal.exactSum mode x offset.neg).adjusted <
      max x.adjusted offset.adjusted + 1 + 1 := by
    rw [Decimal.adjusted_lt_iff hsum, Decimal.value_exactSum, Decimal.value_neg,
      ten_zpow_add, zpow_one, ← sub_eq_add_neg]
    have hleft : |x.value| < 10 ^ (max x.adjusted offset.adjusted + 1) :=
      Decimal.abs_value_lt (by omega)
    have hright : |offset.value| < 10 ^ (max x.adjusted offset.adjusted + 1) :=
      Decimal.abs_value_lt (by omega)
    have hdifference := abs_sub x.value offset.value
    have hpos := ten_zpow_pos (K := ℚ) (max x.adjusted offset.adjusted + 1)
    linarith
  have hdigits : (Decimal.exactSum mode x offset.neg).adjusted =
      (Decimal.exactSum mode x offset.neg).exponent +
        (Decimal.exactSum mode x offset.neg).digits - 1 := rfl
  unfold Format.tiny Format.minExponent
  simp only [angleFormat]
  omega

theorem agree_onHalfTurns (hx : Same x x') (hroomy : s.Roomy) (hwithin : x.Within s.format)
    (hwithin' : x'.Within s.format) {offset : Decimal} (hhigh : offset.adjusted ≤ 1)
    (hlow : 0 ≤ offset.exponent) :
    Agree Eq (onHalfTurns s x offset) (onHalfTurns s x' offset) := by
  unfold onHalfTurns
  cases s.angleUnit with
  | radians => exact .ok rfl
  | degrees =>
      refine hx.finite?.bind fun d e hd he h => ?_
      obtain rfl := Number.finite?_eq_ok hd
      obtain rfl := Number.finite?_eq_ok he
      have hmax := angleFormat_le s hroomy (hwithin d rfl) hhigh hlow
      have hmax' := angleFormat_le s hroomy (hwithin' e rfl) hhigh hlow
      -- the format of the comparison has room for the exact differences
      have hdifference : Agree Same
          (Number.subtract (angleFormat d offset) (.finite d) (.finite offset))
          (Number.subtract (angleFormat e offset) (.finite e) (.finite offset)) := by
        show Agree Same (Number.add _ (.finite d) (.finite offset.neg))
          (Number.add _ (.finite e) (.finite offset.neg))
        rw [Number.add, Number.add, Number.lift₂_finite hmax, Number.lift₂_finite hmax']
        refine Agree.map (Decimal.agree_round_of_room (h.exactSum _ _ (.refl _)) ?_ ?_)
          fun _ _ => .finite
        · exact digits_difference _
        · exact digits_difference _
      refine (agree_ofSignal hdifference).bind fun a b ha hb hab => ?_
      have hmodulo : Agree Same (moduloIn s.format a halfTurn) (moduloIn s.format b halfTurn) := by
        refine agree_moduloIn s.precision_pos hab (Number.same_ofInt 180) fun z hz _ _ => ?_
        rw [adjusted_halfTurn]
        rcases hz with rfl | rfl
        · exact hroomy.turn (Number.subtract_within (angleFormat_pos d offset) _ _ _
            (mapError_eq_ok.mp ha)) 0 (by decide)
        · exact hroomy.turn (Number.subtract_within (angleFormat_pos e offset) _ _ _
            (mapError_eq_ok.mp hb)) 0 (by decide)
      exact hmodulo.bind fun _ _ _ _ hrest => .ok hrest.isZero

variable (hx : Same x x') (hroomy : s.Roomy) (hwithin : x.Within s.format)
  (hwithin' : x'.Within s.format)

include hx hroomy hwithin hwithin'

theorem agree_tan : Agree Same (tan s x) (tan s x') := by
  refine agree_guarded ?_
  refine (agree_onHalfTurns s hx hroomy hwithin hwithin' (by decide) (by decide)).bind
    fun pole pole' _ _ hpole => ?_
  refine agree_ite (by rw [hpole]) (fun _ => agree_fail _ _) fun _ => ?_
  exact (agree_sinCos s hx hroomy hwithin hwithin').bind fun _ _ _ _ h =>
    Number.same_of_eq (by rw [h]) (s.computedAtPlaces_gives _)

end Angles

/-! ### Inverses and coordinates -/

section Inverses

include hx

include hy

end Inverses


end Functions

/-! ## Operations -/

/-- **Values of one value**: both are numbers, or both are coordinates. -/
inductive Value.Same : Value → Value → Prop
  | number {x y : Number} (h : x.Same y) : Same (.number x) (.number y)
  | coordinate {c d : Coordinate} (h : c.Same d) : Same (.coordinate c) (.coordinate d)

namespace Functions

open Number (Same SameWithin)

end Functions

end DecimalCalc
