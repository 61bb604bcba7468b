import DecimalCalc.Proofs.FittingResults

/-!
# Results within the format

Variables may stand for infinities and NaNs, and then an operation may answer one as well. But
whatever its operands are, where an operation answers a decimal, this fits the format of the settings
(`Operation.action_within`).
-/

set_option autoImplicit false

namespace DecimalCalc

open Except

namespace Number

/-- **A number within a format**: it fits the format, or is no decimal. -/
def Within (f : Format) (x : Number) : Prop := ∀ d, x = .finite d → d.Fits f

variable {f : Format}

theorem Fits.within {x : Number} (h : x.Fits f) : x.Within f := by
  rintro _ rfl
  exact fits_finite_iff.mp h

theorem within_finite {d : Decimal} (h : d.Fits f) : (finite d).Within f := (fits_finite h).within

theorem within_infinite (negative : Bool) : (infinite negative).Within f := nofun

theorem within_nan (negative signaling : Bool) (payload : Nat) :
    (nan negative signaling payload).Within f := nofun

theorem asResult_within (negative signaling : Bool) (payload : Nat) :
    (asResult f negative signaling payload).Gives (Within f) :=
  gives_ite (gives_error _) (gives_ok (within_nan _ _ _))

theorem lift₁_within {onFinite : Decimal → Except Signal Decimal}
    {onInfinite : Bool → Except Signal Number} (h : ∀ d, (onFinite d).Gives (Decimal.Fits f))
    (h' : ∀ negative, (onInfinite negative).Gives (Within f)) (x : Number) :
    (lift₁ f onFinite onInfinite x).Gives (Within f) := by
  refine gives_bind fun _ => ?_
  cases x with
  | finite d => exact Gives.map ((h d).mono fun _ => within_finite)
  | infinite negative => exact h' negative
  | nan negative signaling payload => exact asResult_within _ _ _

theorem lift₂_within {onFinite : Decimal → Decimal → Except Signal Decimal}
    {onInfinite : Number → Number → Except Signal Number}
    (h : ∀ d e, (onFinite d e).Gives (Decimal.Fits f))
    (h' : ∀ x y, (onInfinite x y).Gives (Within f)) (x y : Number) :
    (lift₂ f onFinite onInfinite x y).Gives (Within f) := by
  refine gives_bind fun _ => ?_
  split
  · exact Gives.map ((h _ _).mono fun _ => within_finite)
  · exact gives_error _
  · exact gives_error _
  · exact asResult_within _ _ _
  · exact asResult_within _ _ _
  · exact h' _ _

section

variable (hp : 0 < f.precision)

include hp

theorem within_zero (negative : Bool) : (finite ⟨negative, 0, 0⟩).Within f :=
  within_finite (Decimal.fits_zero hp negative)

theorem plus_within (x : Number) : (plus f x).Gives (Within f) :=
  lift₁_within (Decimal.plus_gives hp) (fun _ => gives_ok (within_infinite _)) x

theorem minus_within (x : Number) : (minus f x).Gives (Within f) :=
  lift₁_within (Decimal.minus_gives hp) (fun _ => gives_ok (within_infinite _)) x

theorem abs_within (x : Number) : (abs f x).Gives (Within f) :=
  lift₁_within (Decimal.abs_gives hp) (fun _ => gives_ok (within_infinite _)) x

theorem squareRoot_within (x : Number) : (squareRoot f x).Gives (Within f) :=
  lift₁_within (Decimal.squareRoot_gives hp) (fun _ => gives_ok (within_infinite _)) x

theorem naturalLog_within (x : Number) : (naturalLog f x).Gives (Within f) :=
  lift₁_within (Decimal.naturalLog_gives hp) (fun _ => gives_ok (within_infinite _)) x

theorem commonLog_within (x : Number) : (commonLog f x).Gives (Within f) :=
  lift₁_within (Decimal.commonLog_gives hp) (fun _ => gives_ok (within_infinite _)) x

variable (x y : Number)

theorem add_within : (add f x y).Gives (Within f) := by
  refine lift₂_within (fun _ _ => Decimal.round_gives hp _) (fun x y => ?_) x y
  split
  · exact gives_ite (gives_ok (within_infinite _)) (gives_error _)
  · exact gives_ok (within_infinite _)
  · exact gives_ok (within_infinite _)

theorem subtract_within : (subtract f x y).Gives (Within f) := by
  cases y with
  | nan negative signaling payload =>
      exact lift₂_within (fun _ _ => Decimal.round_gives hp _) (fun _ _ => gives_error _) x _
  | finite d => exact add_within hp x _
  | infinite negative => exact add_within hp x _

theorem multiply_within : (multiply f x y).Gives (Within f) :=
  lift₂_within (fun _ _ => Decimal.round_gives hp _)
    (fun _ _ => gives_ite (gives_error _) (gives_ok (within_infinite _))) x y

theorem divide_within : (divide f x y).Gives (Within f) := by
  refine lift₂_within (Decimal.divide_gives hp) (fun x y => ?_) x y
  refine gives_ite (gives_error _) (gives_ite (gives_ok (within_infinite _)) (gives_ok ?_))
  refine within_finite (Decimal.fits_small ?_ ?_ ?_ (by decide))
  · rw [digitCount_zero]
    exact hp
  · unfold Format.tiny Format.minExponent
    omega
  · unfold Format.tiny Format.minExponent
    omega

theorem power_within : (power f x y).Gives (Within f) := by
  have hzero : zero.Within f := within_zero hp false
  refine lift₂_within (fun d e => gives_ite (gives_ok (Decimal.fits_zero hp _))
    (Decimal.power_gives hp d e)) (fun x y => ?_) x y
  split
  · refine gives_ite (gives_ok hzero) (gives_ite (gives_error _) ?_)
    split
    · refine gives_ite (gives_ok (within_finite ?_)) ?_
      · exact Decimal.fits_paddedOne (by omega) false
      · exact gives_ite (gives_ok (within_infinite _)) (gives_ok hzero)
    · exact gives_ite (gives_ok hzero) (gives_ok (within_infinite _))
  · refine gives_ite (gives_error _) (gives_ite (gives_ok ?_) (gives_ok (within_infinite _)))
    exact within_zero hp _
  · exact gives_error _

end

end Number

/-! ## Functions -/

namespace Functions

open Outcome

variable (s : Settings) (x y : Number)

theorem multiply_within : (multiply s x y).Gives (Number.Within s.format) :=
  gives_guarded <| gives_ofSignal <| Number.multiply_within s.precision_pos x y

theorem residue_within {f : Format} (hp : 0 < f.precision) :
    (residue f x y).Gives (Number.Within f) := by
  unfold residue
  dsimp only
  refine gives_bind fun rest => gives_bind fun below => ?_
  cases below with
  | true => exact gives_bind fun sum => Number.plus_within hp sum
  | false => exact Number.plus_within hp rest

theorem power_within : (power s x y).Gives (Number.Within s.format) := by
  have hresult : (ofSignal (Number.power s.format x y)).Gives (Number.Within s.format) :=
    gives_ofSignal <| Number.power_within s.precision_pos x y
  refine gives_guarded <| gives_ite (gives_ok (Number.fits_number_one s.precision_pos).within) ?_
  refine gives_ite (gives_bind fun below => ?_) hresult
  exact gives_ite (gives_bind fun _ => hresult) hresult

theorem toCartesian_within : (toCartesian s x y).Gives fun c =>
    c.first.Within s.format ∧ c.second.Within s.format := by
  refine gives_bind fun _ => gives_ite (gives_fail _) ?_
  refine gives_bind fun cosine => (multiply_within s x cosine).bind fun first hfirst => ?_
  refine gives_bind fun sine => (multiply_within s x sine).bind fun second hsecond => ?_
  exact gives_ok ⟨hfirst, hsecond⟩

theorem distance_within : (distance s x y).Gives (Number.Within s.format) :=
  gives_bind fun _ => gives_bind fun _ => gives_bind fun _ => gives_bind fun root =>
    Number.plus_within s.precision_pos root

theorem toPolar_within : (toPolar s x y).Gives fun c =>
    c.first.Within s.format ∧ c.second.Within s.format := by
  refine gives_ite (gives_fail _) ?_
  refine (gives_ofSignal (distance_within s x y)).bind fun radius hradius => ?_
  refine (direction_gives s y x).bind fun angle hangle => ?_
  exact gives_ok ⟨hradius, hangle.within⟩

end Functions

/-! ## Operations -/

/-- **A value within a format**: each of its numbers is. -/
def Value.Within (f : Format) : Value → Prop
  | .number x => x.Within f
  | .coordinate c => c.first.Within f ∧ c.second.Within f

theorem Value.Within.operand {f : Format} {v : Value} (h : v.Within f) : v.operand.Within f := by
  cases v with
  | number x => exact h
  | coordinate c => exact h.1

/-- What a symbol does leads to values within the format. -/
def Action.Within (action : Action) : Prop :=
  ∀ (operands : List Number) (s : Settings), (action operands s).Gives (Value.Within s.format)

namespace Functions

theorem unary_within {f : Settings → Number → Outcome Number}
    (h : ∀ s x, (f s x).Gives (Number.Within s.format)) : (unary f).Within := by
  intro operands s
  unfold unary
  split
  · exact Drawing.gives_still (Gives.map (h s _))
  · exact Drawing.gives_error _

theorem pair_within {α : Type} {make : α → Value}
    {f : Settings → Number → Number → Drawing OperationError α}
    (h : ∀ s x y, (f s x y).Gives fun a => (make a).Within s.format) : (pair make f).Within := by
  intro operands s
  unfold pair
  split
  · exact Drawing.Gives.map (h s _ _)
  · exact Drawing.gives_error _

theorem drawn_within {f : Settings → Number → Number → Drawing OperationError Number}
    (h : ∀ s x y, (f s x y).Gives (Number.Within s.format)) : (drawn f).Within :=
  pair_within h

theorem binary_within {f : Settings → Number → Number → Outcome Number}
    (h : ∀ s x y, (f s x y).Gives (Number.Within s.format)) : (binary f).Within :=
  pair_within fun s x y => Drawing.gives_still (h s x y)

theorem planar_within {f : Settings → Number → Number → Outcome Coordinate}
    (h : ∀ s x y, (f s x y).Gives fun c => c.first.Within s.format ∧ c.second.Within s.format) :
    (planar f).Within :=
  pair_within fun s x y => Drawing.gives_still (h s x y)

end Functions

open Functions Outcome in
/-- **Every operation leads to values within the format**, whatever its operands are. -/
theorem Operation.action_within (operation : Operation) : operation.action.Within := by
  have hfits : ∀ {ε : Type} {f : Format} {result : Except ε Number}, result.Gives (Number.Fits f) →
      result.Gives (Number.Within f) := fun h => h.mono fun _ => Number.Fits.within
  cases operation with
  | add => exact binary_within fun s x y =>
      gives_guarded <| gives_ofSignal <| Number.add_within s.precision_pos x y
  | subtract => exact binary_within fun s x y =>
      gives_guarded <| gives_ofSignal <| Number.subtract_within s.precision_pos x y
  | multiply => exact binary_within multiply_within
  | divide => exact binary_within fun s x y => gives_guarded <| gives_ite (gives_fail _) <|
      gives_ofSignal <| Number.divide_within s.precision_pos x y
  | modulo => exact binary_within fun s x y => gives_guarded <| gives_ite (gives_fail _) <|
      gives_ofSignal <| residue_within x y s.precision_pos
  | power => exact binary_within power_within
  | absolute => exact unary_within fun s x => gives_ofSignal <| Number.abs_within s.precision_pos x
  | negate => exact unary_within fun s x => gives_ofSignal <| Number.minus_within s.precision_pos x
  | factorial => exact unary_within fun s x => hfits (factorial_gives s x)
  | permutation => exact binary_within fun s x y => hfits (permutation_gives s x y)
  | combination => exact binary_within fun s x y => hfits (combination_gives s x y)
  | gcd => exact binary_within fun s x y => hfits (gcd_gives s x y)
  | lcm => exact binary_within fun s x y => hfits (lcm_gives s x y)
  | randomInteger => exact drawn_within fun s x y =>
      (randomInteger_gives s x y).mono fun _ => Number.Fits.within
  | squareRoot =>
      exact unary_within fun s x => gives_guarded <| gives_bind fun _ =>
        gives_ite (gives_fail _) (gives_ofSignal (Number.squareRoot_within s.precision_pos x))
  | cubeRoot => exact unary_within fun s x => hfits (cubeRoot_gives s x)
  | root => exact binary_within fun s x y => hfits (root_gives s x y)
  | naturalLog => exact unary_within fun s x => gives_guarded <| gives_bind fun _ =>
      gives_ofSignal <| Number.naturalLog_within s.precision_pos x
  | commonLog => exact unary_within fun s x => gives_guarded <| gives_bind fun _ =>
      gives_ofSignal <| Number.commonLog_within s.precision_pos x
  | binaryLog => exact unary_within fun s x => hfits (logarithm_gives s x _)
  | logarithm => exact binary_within fun s x y => hfits (logarithm_gives s x y)
  | sin => exact unary_within fun s x => hfits (sin_gives s x)
  | cos => exact unary_within fun s x => hfits (cos_gives s x)
  | tan => exact unary_within fun s x => hfits (tan_gives s x)
  | cot => exact unary_within fun s x => hfits (cot_gives s x)
  | arcsin => exact unary_within fun s x => hfits (arcsin_gives s x)
  | arccos => exact unary_within fun s x => hfits (arccos_gives s x)
  | arctan => exact unary_within fun s x => hfits (arctan_gives s x)
  | arccot => exact unary_within fun s x => hfits (arccot_gives s x)
  | direction => exact binary_within fun s x y => hfits (direction_gives s x y)
  | sinh | cosh => exact unary_within fun s x => hfits (gives_guarded (growing_gives s _ x))
  | tanh | arsinh => exact unary_within fun s x => hfits (gives_guarded (elementary_gives s _ x))
  | coth =>
      exact unary_within fun s x =>
        hfits (gives_guarded (gives_ite (gives_fail _) (elementary_gives s _ x)))
  | arcosh =>
      exact unary_within fun s x =>
        hfits (gives_guarded (gives_bind fun _ => gives_ite (gives_fail _) (elementary_gives s _ x)))
  | artanh =>
      exact unary_within fun s x =>
        hfits (gives_guarded (gives_bind fun _ => gives_ite (elementary_gives s _ x) (gives_fail _)))
  | arcoth =>
      exact unary_within fun s x =>
        hfits (gives_guarded (gives_bind fun _ => gives_ite (gives_fail _) (elementary_gives s _ x)))
  | gamma => exact unary_within fun s x => hfits (gamma_gives s x)
  | beta => exact binary_within fun s x y => hfits (beta_gives s x y)
  | toCartesian => exact planar_within toCartesian_within
  | toPolar => exact planar_within toPolar_within

end DecimalCalc
