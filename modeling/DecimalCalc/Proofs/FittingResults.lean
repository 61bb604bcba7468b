import DecimalCalc.Functions.Catalogue
import DecimalCalc.Proofs.Drawings
import DecimalCalc.Proofs.Fitting

/-!
# Results that fit

Every operation answers finite operands with finite numbers that fit the format of the settings
(`Operation.action_closed`). For most of them this is so because rounding is the last thing that they
do; the others answer zero or one, or only change the sign of what is already rounded.
-/

set_option autoImplicit false

namespace DecimalCalc

open Except

/-! ## Decimals -/

namespace Decimal

variable {f : Format}

section

variable (hp : 0 < f.precision) (x y : Decimal)

include hp

theorem plus_gives : (plus f x).Gives (Fits f) :=
  gives_ite (round_gives hp _) (round_gives hp _)

theorem minus_gives : (minus f x).Gives (Fits f) :=
  gives_ite (round_gives hp _) (round_gives hp _)

theorem abs_gives : (abs f x).Gives (Fits f) :=
  gives_ite (minus_gives hp x) (plus_gives hp x)

theorem divide_gives : (divide f x y).Gives (Fits f) := by
  unfold divide
  dsimp only
  exact gives_ite (round_gives hp _) (gives_ite (round_gives hp _) (round_gives hp _))

theorem remainder_gives : (remainder f x y).Gives (Fits f) :=
  gives_ite (gives_error _) (round_gives hp _)

/-- What is rounded in another mode fits as well. -/
theorem round_halfEven_gives :
    (x.round { f with rounding := .halfEven }).Gives (Fits f) :=
  (round_gives (f := { f with rounding := .halfEven }) hp x).mono fun _ h => h.of_precision rfl

theorem squareRoot_gives : (squareRoot f x).Gives (Fits f) := by
  unfold squareRoot
  dsimp only
  exact gives_ite (round_halfEven_gives hp _)
    (gives_ite (round_halfEven_gives hp _) (round_halfEven_gives hp _))

theorem naturalLog_gives : (naturalLog f x).Gives (Fits f) :=
  gives_bind fun nearest => round_halfEven_gives hp nearest

theorem commonLog_gives : (commonLog f x).Gives (Fits f) :=
  gives_bind fun nearest => round_halfEven_gives hp nearest

theorem integerPower_gives (n : Int) : (integerPower f x n).Gives (Fits f) := by
  unfold integerPower
  dsimp only
  split
  · exact gives_bind fun _ => gives_bind fun _ => round_gives hp _
  · exact gives_bind fun _ => round_gives hp _

theorem power_gives : (power f x y).Gives (Fits f) := by
  unfold power
  dsimp only
  refine gives_ite (gives_error _) ?_
  refine gives_ite ?_ ?_
  · exact gives_ite (round_gives hp _) (gives_ite (round_gives hp _) (round_gives hp _))
  · refine gives_ite (gives_ite (gives_error _) (round_gives hp _)) ?_
    refine gives_ite (integerPower_gives hp x _) ?_
    exact gives_bind fun precise => gives_ite (round_gives hp _) (round_gives hp _)

omit hp in
/-- One with at most as many zeros after its point as there is room for. -/
theorem fits_paddedOne {places : Nat} (h : places < f.precision) (negative : Bool) :
    (paddedOne negative places).Fits f := by
  have hdigits : (paddedOne negative places).digits = places + 1 := digitCount_tenPow places
  refine ⟨by omega, ?_, ?_⟩
  · unfold adjusted Format.maxExponent
    rw [hdigits]
    simp only [paddedOne]
    omega
  · unfold Format.tiny Format.minExponent
    simp only [paddedOne]
    omega

theorem fits_zero (negative : Bool) : Fits f ⟨negative, 0, 0⟩ := by
  refine fits_small ?_ le_rfl (by omega) (by decide)
  rw [digitCount_zero]
  exact hp

theorem fits_one : one.Fits f := fits_paddedOne hp false

end

end Decimal

/-! ## Numbers -/

namespace Number

/-- A number that is a decimal. -/
def IsFinite (x : Number) : Prop := ∃ d, x = .finite d

/-- **A number that fits a format**: a decimal that does. -/
def Fits (f : Format) (x : Number) : Prop := ∃ d, x = .finite d ∧ d.Fits f

variable {f : Format} {x y : Number} {P : Decimal → Prop}

theorem isFinite_finite (d : Decimal) : (finite d).IsFinite := ⟨d, rfl⟩

theorem Fits.isFinite (h : x.Fits f) : x.IsFinite := h.imp fun _ h => h.1

theorem fits_finite {d : Decimal} (h : d.Fits f) : (finite d).Fits f := ⟨d, rfl, h⟩

theorem fits_finite_iff {d : Decimal} : (finite d).Fits f ↔ d.Fits f := by
  refine ⟨?_, fits_finite⟩
  rintro ⟨_, ⟨⟩, h⟩
  exact h

theorem Fits.neg (h : x.Fits f) : x.neg.Fits f := by
  obtain ⟨d, rfl, h⟩ := h
  exact fits_finite h.neg

theorem IsFinite.magnitude (h : x.IsFinite) : x.magnitude.IsFinite := by
  obtain ⟨d, rfl⟩ := h
  exact isFinite_finite _

theorem check_ok (h : f.precision ≤ Format.maxPrecision) : f.check = .ok () := by
  rw [Format.check, if_neg (by omega)]

theorem le_of_check {u : Unit} (h : f.check = .ok u) : f.precision ≤ Format.maxPrecision := by
  unfold Format.check at h
  split at h
  · cases h
  · omega

theorem lift₁_finite (h : f.precision ≤ Format.maxPrecision)
    (onFinite : Decimal → Except Signal Decimal) (onInfinite : Bool → Except Signal Number)
    (d : Decimal) : lift₁ f onFinite onInfinite (.finite d) = (onFinite d).map .finite := by
  rw [lift₁, check_ok h]
  rfl

theorem lift₂_finite (h : f.precision ≤ Format.maxPrecision)
    (onFinite : Decimal → Decimal → Except Signal Decimal)
    (onInfinite : Number → Number → Except Signal Number) (d e : Decimal) :
    lift₂ f onFinite onInfinite (.finite d) (.finite e) = (onFinite d e).map .finite := by
  rw [lift₂, check_ok h]
  rfl

theorem lift₁_gives {onFinite : Decimal → Except Signal Decimal}
    {onInfinite : Bool → Except Signal Number} (h : ∀ d, (onFinite d).Gives P) (hx : x.IsFinite) :
    (lift₁ f onFinite onInfinite x).Gives fun y => ∃ d, y = .finite d ∧ P d := by
  obtain ⟨d, rfl⟩ := hx
  exact gives_bind fun _ => Gives.map ((h d).mono fun a ha => ⟨a, rfl, ha⟩)

theorem lift₂_gives {onFinite : Decimal → Decimal → Except Signal Decimal}
    {onInfinite : Number → Number → Except Signal Number} (h : ∀ d e, (onFinite d e).Gives P)
    (hx : x.IsFinite) (hy : y.IsFinite) :
    (lift₂ f onFinite onInfinite x y).Gives fun z => ∃ d, z = .finite d ∧ P d := by
  obtain ⟨d, rfl⟩ := hx
  obtain ⟨e, rfl⟩ := hy
  exact gives_bind fun _ => Gives.map ((h d e).mono fun a ha => ⟨a, rfl, ha⟩)

section

variable (hp : 0 < f.precision) (hx : x.IsFinite)

include hp hx

theorem plus_gives : (plus f x).Gives (Fits f) := lift₁_gives (Decimal.plus_gives hp) hx

theorem minus_gives : (minus f x).Gives (Fits f) := lift₁_gives (Decimal.minus_gives hp) hx

theorem abs_gives : (abs f x).Gives (Fits f) := lift₁_gives (Decimal.abs_gives hp) hx

theorem squareRoot_gives : (squareRoot f x).Gives (Fits f) :=
  lift₁_gives (Decimal.squareRoot_gives hp) hx

theorem naturalLog_gives : (naturalLog f x).Gives (Fits f) :=
  lift₁_gives (Decimal.naturalLog_gives hp) hx

theorem commonLog_gives : (commonLog f x).Gives (Fits f) :=
  lift₁_gives (Decimal.commonLog_gives hp) hx

variable (hy : y.IsFinite)

include hy

theorem add_gives : (add f x y).Gives (Fits f) :=
  lift₂_gives (fun _ _ => Decimal.round_gives hp _) hx hy

theorem subtract_gives : (subtract f x y).Gives (Fits f) := by
  obtain ⟨e, rfl⟩ := hy
  exact add_gives hp hx (isFinite_finite e.neg)

theorem multiply_gives : (multiply f x y).Gives (Fits f) :=
  lift₂_gives (fun _ _ => Decimal.round_gives hp _) hx hy

theorem divide_gives : (divide f x y).Gives (Fits f) :=
  lift₂_gives (Decimal.divide_gives hp) hx hy

theorem remainder_gives : (remainder f x y).Gives (Fits f) :=
  lift₂_gives (Decimal.remainder_gives hp) hx hy

theorem power_gives : (power f x y).Gives (Fits f) :=
  lift₂_gives (fun d e =>
    gives_ite (gives_ok (Decimal.fits_zero hp _)) (Decimal.power_gives hp d e)) hx hy

end

theorem fits_number_zero (hp : 0 < f.precision) : zero.Fits f :=
  fits_finite (Decimal.fits_zero hp false)

theorem fits_number_one (hp : 0 < f.precision) : one.Fits f := fits_finite (Decimal.fits_one hp)

/-- A decimal stays one when it is quantized. -/
theorem quantize_gives (hx : x.IsFinite) (unit : Int) : (quantize f x unit).Gives IsFinite :=
  (lift₁_gives (P := fun _ => True) (fun _ _ _ => trivial) hx).mono fun _ h => h.imp fun _ h => h.1

end Number

/-! ## Outcomes -/

namespace Outcome

variable {α : Type} {P : α → Prop}

theorem gives_fail (fault : DomainFault) : (fail fault : Outcome α).Gives P := gives_error _

theorem gives_ofSignal {result : Except Signal α} (h : result.Gives P) :
    (ofSignal result).Gives P := h.mapError _

/-- A result is not touched where a failure would be reported. -/
theorem gives_guarded {operation : Operation} {operands : List Number} {result : Outcome α}
    (h : result.Gives P) : (guarded operation operands result).Gives P := by
  unfold guarded
  split
  · exact gives_ite (gives_error _) (gives_error _)
  · exact h

theorem guarded_eq_ok {operation : Operation} {operands : List Number} {result : Outcome α} {a : α} :
    guarded operation operands result = .ok a ↔ result = .ok a := by
  unfold guarded
  split
  · split <;> simp
  · rfl

end Outcome

open Outcome

/-! ## Computed results -/

namespace Settings

variable (s : Settings) (x : Except Signal Decimal) (e : Enclosure)

theorem settle_gives : (s.settle x).Gives (Number.Fits s.format) :=
  gives_ofSignal <| gives_bind fun _ =>
    Number.plus_gives s.precision_pos (Number.isFinite_finite _)

theorem settleAtPlaces_gives : (s.settleAtPlaces x).Gives (Number.Fits s.format) :=
  gives_ofSignal <| gives_bind fun _ => gives_bind fun _ =>
    (Number.quantize_gives (Number.isFinite_finite _) _).bind fun _ hy =>
      Number.plus_gives s.precision_pos hy

theorem computed_gives : (s.computed e).Gives (Number.Fits s.format) := s.settle_gives _

theorem computedAtPlaces_gives : (s.computedAtPlaces e).Gives (Number.Fits s.format) :=
  s.settleAtPlaces_gives _

end Settings

/-! ## The operations -/

namespace Functions

variable (s : Settings) {x y : Number}

section Algebra

theorem add_gives (hx : x.IsFinite) (hy : y.IsFinite) :
    (add s x y).Gives (Number.Fits s.format) :=
  gives_guarded <| gives_ofSignal <| Number.add_gives s.precision_pos hx hy

theorem subtract_gives (hx : x.IsFinite) (hy : y.IsFinite) :
    (subtract s x y).Gives (Number.Fits s.format) :=
  gives_guarded <| gives_ofSignal <| Number.subtract_gives s.precision_pos hx hy

theorem multiply_gives (hx : x.IsFinite) (hy : y.IsFinite) :
    (multiply s x y).Gives (Number.Fits s.format) :=
  gives_guarded <| gives_ofSignal <| Number.multiply_gives s.precision_pos hx hy

theorem divide_gives (hx : x.IsFinite) (hy : y.IsFinite) :
    (divide s x y).Gives (Number.Fits s.format) :=
  gives_guarded <| gives_ite (gives_fail _) <|
    gives_ofSignal <| Number.divide_gives s.precision_pos hx hy

theorem residue_gives {f : Format} (hp : 0 < f.precision) (hx : x.IsFinite) (hy : y.IsFinite) :
    (residue f x y).Gives (Number.Fits f) := by
  unfold residue
  dsimp only
  generalize hexact : (⟨_, f.rounding⟩ : Format) = exact
  have hpexact : 0 < exact.precision := by
    rw [← hexact]
    exact Nat.succ_pos _
  refine (Number.remainder_gives hpexact hx hy.magnitude).bind fun rest hrest => ?_
  refine gives_bind fun below => ?_
  -- the divisor is added to a remainder below zero
  cases below with
  | true =>
      exact (Number.add_gives hpexact hrest.isFinite hy.magnitude).bind fun sum hsum =>
        Number.plus_gives hp hsum.isFinite
  | false => exact Number.plus_gives hp hrest.isFinite

theorem moduloIn_gives {f : Format} (hp : 0 < f.precision) (hx : x.IsFinite) (hy : y.IsFinite) :
    (moduloIn f x y).Gives (Number.Fits f) :=
  gives_guarded <| gives_ite (gives_fail _) <| gives_ofSignal <| residue_gives hp hx hy

theorem power_gives (hx : x.IsFinite) (hy : y.IsFinite) :
    (power s x y).Gives (Number.Fits s.format) := by
  have hresult : (ofSignal (Number.power s.format x y)).Gives (Number.Fits s.format) :=
    gives_ofSignal <| Number.power_gives s.precision_pos hx hy
  refine gives_guarded <| gives_ite (gives_ok (Number.fits_number_one s.precision_pos)) ?_
  dsimp only
  split
  · refine gives_bind fun below => ?_
    split
    · exact gives_bind fun _ => hresult
    · exact hresult
  · exact hresult

theorem absolute_gives (hx : x.IsFinite) : (absolute s x).Gives (Number.Fits s.format) :=
  gives_ofSignal <| Number.abs_gives s.precision_pos hx

theorem negate_gives (hx : x.IsFinite) : (negate s x).Gives (Number.Fits s.format) :=
  gives_ofSignal <| Number.minus_gives s.precision_pos hx

theorem squareRoot_gives (hx : x.IsFinite) : (squareRoot s x).Gives (Number.Fits s.format) :=
  gives_guarded <| gives_bind fun _ => gives_ite (gives_fail _) <|
    gives_ofSignal <| Number.squareRoot_gives s.precision_pos hx

theorem signedRoot_gives (x degree : Decimal) :
    (signedRoot s x degree).Gives (Number.Fits s.format) :=
  gives_ite (s.settle_gives _) <| (s.settle_gives _).bind fun _ hroot =>
    gives_ok (by split; exacts [hroot.neg, hroot])

theorem cubeRoot_gives (x : Number) : (cubeRoot s x).Gives (Number.Fits s.format) :=
  gives_guarded <| gives_bind fun _ => signedRoot_gives s _ _

theorem root_gives (x degree : Number) : (root s x degree).Gives (Number.Fits s.format) := by
  refine gives_guarded <| gives_bind fun _ => gives_ite (gives_fail _) <| gives_bind fun sign => ?_
  refine gives_ite (gives_ok (Number.fits_number_zero s.precision_pos)) (gives_ite ?_ ?_)
  · split
    · exact gives_ite (gives_bind fun _ => signedRoot_gives s _ _) (gives_fail _)
    · exact gives_error _
  · exact gives_bind fun _ => gives_bind fun _ => signedRoot_gives s _ _

theorem naturalLog_gives (hx : x.IsFinite) : (naturalLog s x).Gives (Number.Fits s.format) :=
  gives_guarded <| gives_bind fun _ =>
    gives_ofSignal <| Number.naturalLog_gives s.precision_pos hx

theorem commonLog_gives (hx : x.IsFinite) : (commonLog s x).Gives (Number.Fits s.format) :=
  gives_guarded <| gives_bind fun _ =>
    gives_ofSignal <| Number.commonLog_gives s.precision_pos hx

theorem logarithm_gives (x base : Number) : (logarithm s x base).Gives (Number.Fits s.format) :=
  gives_guarded <| gives_bind fun _ => gives_bind fun _ => gives_bind fun _ =>
    gives_ite (gives_fail _) <| gives_bind fun _ => gives_bind fun _ => s.computed_gives _

end Algebra

section Integers

theorem ofInteger_gives (n : Int) : (ofInteger s n).Gives (Number.Fits s.format) :=
  gives_ofSignal <| Number.plus_gives s.precision_pos (Number.isFinite_finite _)

theorem factorial_gives (x : Number) : (factorial s x).Gives (Number.Fits s.format) :=
  gives_guarded <| gives_bind fun _ => gives_ite (gives_fail _) <|
    gives_ite (gives_error _) (ofInteger_gives s _)

theorem permutation_gives (n k : Number) : (permutation s n k).Gives (Number.Fits s.format) :=
  gives_bind fun _ => gives_ite (gives_error _) <| gives_ite (gives_error _) (ofInteger_gives s _)

theorem combination_gives (n k : Number) : (combination s n k).Gives (Number.Fits s.format) :=
  gives_bind fun _ => gives_ite (gives_error _) <| gives_ite (gives_error _) (ofInteger_gives s _)

theorem gcd_gives (x y : Number) : (gcd s x y).Gives (Number.Fits s.format) :=
  gives_bind fun _ => gives_bind fun _ => ofInteger_gives s _

theorem lcm_gives (x y : Number) : (lcm s x y).Gives (Number.Fits s.format) :=
  gives_bind fun _ => gives_bind fun _ => ofInteger_gives s _

theorem randomInteger_gives (low high : Number) :
    (randomInteger s low high).Gives (Number.Fits s.format) :=
  Drawing.gives_bind fun _ => Drawing.gives_bind fun _ =>
    Drawing.gives_still (ofInteger_gives s _)

end Integers

section Angles

theorem sin_gives (angle : Number) : (sin s angle).Gives (Number.Fits s.format) :=
  gives_guarded <| gives_bind fun _ => s.computedAtPlaces_gives _

theorem cos_gives (angle : Number) : (cos s angle).Gives (Number.Fits s.format) :=
  gives_guarded <| gives_bind fun _ => s.computedAtPlaces_gives _

theorem tan_gives (angle : Number) : (tan s angle).Gives (Number.Fits s.format) :=
  gives_guarded <| gives_bind fun _ => gives_ite (gives_fail _) <|
    gives_bind fun _ => s.computedAtPlaces_gives _

theorem cot_gives (angle : Number) : (cot s angle).Gives (Number.Fits s.format) :=
  gives_guarded <| gives_bind fun _ => gives_ite (gives_fail _) <|
    gives_bind fun _ => s.computedAtPlaces_gives _

theorem angleResult_gives (radians : Enclosure) :
    (angleResult s radians).Gives (Number.Fits s.format) := by
  unfold angleResult
  split
  · exact s.computed_gives _
  · exact s.computed_gives _

theorem arcsin_gives (x : Number) : (arcsin s x).Gives (Number.Fits s.format) :=
  gives_guarded <| gives_bind fun _ => gives_bind fun _ => angleResult_gives s _

theorem arccos_gives (x : Number) : (arccos s x).Gives (Number.Fits s.format) :=
  gives_guarded <| gives_bind fun _ => gives_bind fun _ => angleResult_gives s _

theorem arctan_gives (x : Number) : (arctan s x).Gives (Number.Fits s.format) :=
  gives_guarded <| gives_bind fun _ => angleResult_gives s _

theorem arccot_gives (x : Number) : (arccot s x).Gives (Number.Fits s.format) :=
  gives_guarded <| gives_bind fun _ => angleResult_gives s _

theorem direction_gives (y x : Number) : (direction s y x).Gives (Number.Fits s.format) :=
  gives_guarded <| gives_ite (gives_fail _) <| gives_bind fun _ => gives_bind fun _ =>
    angleResult_gives s _

end Angles

section Special

theorem pi_gives : (pi s).Gives (Number.Fits s.format) := s.computed_gives _

theorem euler_gives : (euler s).Gives (Number.Fits s.format) := s.computed_gives _

theorem elementary_gives (function : Nat → Interval → Option Interval) (x : Number) :
    (elementary s function x).Gives (Number.Fits s.format) :=
  gives_bind fun _ => s.computed_gives _

theorem growing_gives (function : Nat → Interval → Option Interval) (x : Number) :
    (growing s function x).Gives (Number.Fits s.format) :=
  gives_ite (gives_error _) (elementary_gives s function x)

theorem gamma_gives (x : Number) : (gamma s x).Gives (Number.Fits s.format) :=
  gives_guarded <| gives_bind fun _ => gives_bind fun _ => s.computed_gives _

theorem beta_gives (x y : Number) : (beta s x y).Gives (Number.Fits s.format) :=
  gives_guarded <| gives_bind fun _ => gives_bind fun _ => gives_bind fun _ => gives_bind fun _ =>
    s.computed_gives _

end Special

end Functions

/-! ## Values -/

namespace Value

/-- **A value that fits a format**: each of its numbers does. -/
def Fits (f : Format) : Value → Prop
  | .number x => x.Fits f
  | .coordinate c => c.first.Fits f ∧ c.second.Fits f

theorem Fits.operand {f : Format} {v : Value} (h : v.Fits f) : v.operand.Fits f := by
  cases v with
  | number x => exact h
  | coordinate c => exact h.1

end Value

namespace Functions

variable (s : Settings)

theorem toCartesian_gives {radius : Number} (hradius : radius.IsFinite) (angle : Number) :
    (toCartesian s radius angle).Gives fun c => (Value.coordinate c).Fits s.format := by
  refine gives_bind fun _ => gives_ite (gives_fail _) ?_
  refine (cos_gives s angle).bind fun cosine hcosine => ?_
  refine (multiply_gives s hradius hcosine.isFinite).bind fun x hx => ?_
  refine (sin_gives s angle).bind fun sine hsine => ?_
  refine (multiply_gives s hradius hsine.isFinite).bind fun y hy => ?_
  exact gives_ok ⟨hx, hy⟩

theorem distance_gives {x y : Number} (hx : x.IsFinite) (hy : y.IsFinite) :
    (distance s x y).Gives (Number.Fits s.format) := by
  have hp : 0 < (s.widened guardDigits).precision := Nat.succ_pos _
  refine (Number.multiply_gives hp hx hx).bind fun xx hxx => ?_
  refine (Number.multiply_gives hp hy hy).bind fun yy hyy => ?_
  refine (Number.add_gives hp hxx.isFinite hyy.isFinite).bind fun total htotal => ?_
  refine (Number.squareRoot_gives hp htotal.isFinite).bind fun root hroot => ?_
  exact Number.plus_gives s.precision_pos hroot.isFinite

theorem toPolar_gives {x y : Number} (hx : x.IsFinite) (hy : y.IsFinite) :
    (toPolar s x y).Gives fun c => (Value.coordinate c).Fits s.format := by
  refine gives_ite (gives_fail _) ?_
  refine (gives_ofSignal (distance_gives s hx hy)).bind fun radius hradius => ?_
  refine (direction_gives s y x).bind fun angle hangle => ?_
  exact gives_ok ⟨hradius, hangle⟩

end Functions

/-! ## Actions -/

/-- What a symbol does keeps to the format: finite operands lead to a value that fits. -/
def Action.Closed (action : Action) : Prop :=
  ∀ (operands : List Number) (s : Settings), (∀ x ∈ operands, x.IsFinite) →
    (action operands s).Gives (Value.Fits s.format)

namespace Functions

theorem unary_closed {f : Settings → Number → Outcome Number}
    (h : ∀ s x, x.IsFinite → (f s x).Gives (Number.Fits s.format)) : (unary f).Closed := by
  intro operands s hoperands
  unfold unary
  split
  · exact Drawing.gives_still (Gives.map (h s _ (hoperands _ (by simp))))
  · exact Drawing.gives_error _

theorem pair_closed {α : Type} {make : α → Value}
    {f : Settings → Number → Number → Drawing OperationError α}
    (h : ∀ s x y, x.IsFinite → y.IsFinite → (f s x y).Gives fun a => (make a).Fits s.format) :
    (pair make f).Closed := by
  intro operands s hoperands
  unfold pair
  split
  · exact Drawing.Gives.map (h s _ _ (hoperands _ (by simp)) (hoperands _ (by simp)))
  · exact Drawing.gives_error _

theorem drawn_closed {f : Settings → Number → Number → Drawing OperationError Number}
    (h : ∀ s x y, (f s x y).Gives (Number.Fits s.format)) : (drawn f).Closed :=
  pair_closed fun s x y _ _ => h s x y

theorem binary_closed {f : Settings → Number → Number → Outcome Number}
    (h : ∀ s x y, x.IsFinite → y.IsFinite → (f s x y).Gives (Number.Fits s.format)) :
    (binary f).Closed :=
  pair_closed fun s x y hx hy => Drawing.gives_still (h s x y hx hy)

theorem planar_closed {f : Settings → Number → Number → Outcome Coordinate}
    (h : ∀ s x y, x.IsFinite → y.IsFinite →
      (f s x y).Gives fun c => (Value.coordinate c).Fits s.format) : (planar f).Closed :=
  pair_closed fun s x y hx hy => Drawing.gives_still (h s x y hx hy)

end Functions

open Functions in
/-- **Every operation keeps to the format.** -/
theorem Operation.action_closed (operation : Operation) : operation.action.Closed := by
  cases operation with
  | add => exact binary_closed fun s _ _ hx hy => add_gives s hx hy
  | subtract => exact binary_closed fun s _ _ hx hy => subtract_gives s hx hy
  | multiply => exact binary_closed fun s _ _ hx hy => multiply_gives s hx hy
  | divide => exact binary_closed fun s _ _ hx hy => divide_gives s hx hy
  | modulo => exact binary_closed fun s _ _ hx hy => moduloIn_gives s.precision_pos hx hy
  | power => exact binary_closed fun s _ _ hx hy => power_gives s hx hy
  | absolute => exact unary_closed fun s _ hx => absolute_gives s hx
  | negate => exact unary_closed fun s _ hx => negate_gives s hx
  | factorial => exact unary_closed fun s x _ => factorial_gives s x
  | permutation => exact binary_closed fun s x y _ _ => permutation_gives s x y
  | combination => exact binary_closed fun s x y _ _ => combination_gives s x y
  | gcd => exact binary_closed fun s x y _ _ => gcd_gives s x y
  | lcm => exact binary_closed fun s x y _ _ => lcm_gives s x y
  | randomInteger => exact drawn_closed fun s x y => randomInteger_gives s x y
  | squareRoot => exact unary_closed fun s _ hx => squareRoot_gives s hx
  | cubeRoot => exact unary_closed fun s x _ => cubeRoot_gives s x
  | root => exact binary_closed fun s x y _ _ => root_gives s x y
  | naturalLog => exact unary_closed fun s _ hx => naturalLog_gives s hx
  | commonLog => exact unary_closed fun s _ hx => commonLog_gives s hx
  | binaryLog => exact unary_closed fun s x _ => logarithm_gives s x _
  | logarithm => exact binary_closed fun s x y _ _ => logarithm_gives s x y
  | sin => exact unary_closed fun s x _ => sin_gives s x
  | cos => exact unary_closed fun s x _ => cos_gives s x
  | tan => exact unary_closed fun s x _ => tan_gives s x
  | cot => exact unary_closed fun s x _ => cot_gives s x
  | arcsin => exact unary_closed fun s x _ => arcsin_gives s x
  | arccos => exact unary_closed fun s x _ => arccos_gives s x
  | arctan => exact unary_closed fun s x _ => arctan_gives s x
  | arccot => exact unary_closed fun s x _ => arccot_gives s x
  | direction => exact binary_closed fun s x y _ _ => direction_gives s x y
  | sinh | cosh => exact unary_closed fun s x _ => gives_guarded (growing_gives s _ x)
  | tanh | arsinh => exact unary_closed fun s x _ => gives_guarded (elementary_gives s _ x)
  | coth => exact unary_closed fun s x _ =>
      gives_guarded (gives_ite (gives_fail _) (elementary_gives s _ x))
  | arcosh => exact unary_closed fun s x _ =>
      gives_guarded (gives_bind fun _ => gives_ite (gives_fail _) (elementary_gives s _ x))
  | artanh => exact unary_closed fun s x _ =>
      gives_guarded (gives_bind fun _ => gives_ite (elementary_gives s _ x) (gives_fail _))
  | arcoth => exact unary_closed fun s x _ =>
      gives_guarded (gives_bind fun _ => gives_ite (gives_fail _) (elementary_gives s _ x))
  | gamma => exact unary_closed fun s x _ => gamma_gives s x
  | beta => exact binary_closed fun s x y _ _ => beta_gives s x y
  | toCartesian => exact planar_closed fun s _ y hx _ => toCartesian_gives s hx y
  | toPolar => exact planar_closed fun s _ _ hx hy => toPolar_gives s hx hy

/-- A constant fits the format. -/
theorem Constant.value_gives (constant : Constant) (s : Settings) :
    (constant.value s).Gives (Number.Fits s.format) := by
  cases constant with
  | pi => exact Functions.pi_gives s
  | euler => exact Functions.euler_gives s

end DecimalCalc
