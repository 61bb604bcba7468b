import DecimalCalc.Functions.Catalogue
import DecimalCalc.Proofs.BoundedResults
import DecimalCalc.Proofs.ValueArithmetic

/-!
# Numbers of one value

Infinities and NaNs are operands like any other, and NaNs count as one value, unless they are
signaling. What holds of decimals of one value holds of numbers too: comparisons do not tell them
apart, and arithmetic answers numbers of one value or fails on both (`Number.agree_add`,
`Number.agree_power` and so on).
-/

set_option autoImplicit false

namespace DecimalCalc

open Except

/-! ## Numbers -/

namespace Number

/-- **Numbers of one value**: decimals that stand for one number, equal infinities, or NaNs. A
signaling NaN is no value. -/
inductive Same : Number → Number → Prop
  | finite {d e : Decimal} (h : d.Same e) : Same (.finite d) (.finite e)
  | infinite (negative : Bool) : Same (.infinite negative) (.infinite negative)
  | nan (negative negative' : Bool) (payload payload' : Nat) :
      Same (.nan negative false payload) (.nan negative' false payload')

/-- A number that is no NaN. -/
def Known (x : Number) : Prop := ∀ negative signaling payload, x ≠ .nan negative signaling payload

variable {f : Format} {x x' y y' : Number}

theorem IsFinite.known (h : x.IsFinite) : x.Known := by
  obtain ⟨d, rfl⟩ := h
  exact nofun

theorem same_ofInt (n : Int) : Same (ofInt n) (ofInt n) := .finite (.refl _)

theorem same_zero : Same zero zero := .finite (.refl _)

theorem same_one : Same one one := .finite (.refl _)

theorem IsFinite.same (h : x.IsFinite) : Same x x := by
  obtain ⟨d, rfl⟩ := h
  exact .finite (.refl d)

namespace Same

theorem neg (h : Same x x') : Same x.neg x'.neg := by
  cases h with
  | finite h => exact .finite h.neg
  | infinite negative => exact .infinite _
  | nan => exact .nan _ _ _ _

theorem magnitude (h : Same x x') : Same x.magnitude x'.magnitude := by
  cases h with
  | finite h => exact .finite h.magnitude
  | infinite negative => exact .infinite _
  | nan => exact .nan _ _ _ _

theorem isZero (h : Same x x') : x.isZero = x'.isZero := by
  cases h with
  | finite h => exact h.isZero
  | infinite negative => rfl
  | nan => rfl

theorem adjusted (h : Same x x') (hx : x.isZero = false) : x.adjusted = x'.adjusted := by
  cases h with
  | finite h => exact h.adjusted hx
  | infinite negative => rfl
  | nan => rfl

theorem isInteger (h : Same x x') : x.isInteger = x'.isInteger := by
  cases h with
  | finite h => exact congrArg Except.ok (Decimal.isInteger_congr h)
  | infinite negative => rfl
  | nan => rfl

theorem isInfinite (h : Same x x') : x.isInfinite = x'.isInfinite := by
  cases h <;> rfl

theorem isNegative (h : Same x x') (hx : x.isZero = false) (hknown : x.Known) :
    x.isNegative = x'.isNegative := by
  cases h with
  | finite h => exact Decimal.negative_congr h hx
  | infinite negative => rfl
  | nan => exact absurd rfl (hknown _ _ _)

theorem compare (hx : Same x x') (hy : Same y y') : x.compare y = x'.compare y' := by
  cases hx with
  | finite hx =>
      cases hy with
      | finite hy => exact congrArg Except.ok (hx.compare hy)
      | infinite negative => rfl
      | nan => rfl
  | infinite negative => cases hy <;> rfl
  | nan => cases hy <;> rfl

theorem isBelow (hx : Same x x') (hy : Same y y') : x.isBelow y = x'.isBelow y' := by
  unfold Number.isBelow
  rw [hx.compare hy]

theorem isAtMost (hx : Same x x') (hy : Same y y') : x.isAtMost y = x'.isAtMost y' := by
  unfold Number.isAtMost
  rw [hx.compare hy]

theorem isEqual (hx : Same x x') (hy : Same y y') : x.isEqual y = x'.isEqual y' := by
  have hcompare := congrArg (Except.map (· == .eq)) (hx.compare hy)
  cases hx with
  | nan => cases hy <;> rfl
  | finite hx =>
      cases hy with
      | nan => rfl
      | finite hy => exact hcompare
      | infinite negative => exact hcompare
  | infinite negative =>
      cases hy with
      | nan => rfl
      | finite hy => exact hcompare
      | infinite negative => exact hcompare

theorem signum (hx : Same x x') : x.signum = x'.signum := by
  unfold Number.signum
  rw [hx.compare same_zero]

theorem finite? (hx : Same x x') : Agree Decimal.Same x.finite? x'.finite? := by
  cases hx with
  | finite hx => exact .ok hx
  | infinite negative => exact .error _ _
  | nan => exact .error _ _

end Same

theorem finite?_eq_ok {d : Decimal} (h : x.finite? = .ok d) : x = .finite d := by
  cases x with
  | finite e => exact congrArg finite (Except.ok.inj h)
  | infinite negative => cases h
  | nan negative signaling payload => cases h

/-- One result that is finite. -/
theorem same_of_eq {ε : Type} {result result' : Except ε Number} (heq : result = result')
    (h : result.Gives (Fits f)) : Agree Same result result' := by
  subst heq
  cases hresult : result with
  | error e => exact .error e e
  | ok x => exact .ok (h x hresult).isFinite.same

theorem agree_asResult (negative negative' : Bool) (payload payload' : Nat) :
    Agree Same (asResult f negative false payload) (asResult f negative' false payload') :=
  .ok (.nan _ _ _ _)

theorem agree_lift₁ {onFinite : Decimal → Except Signal Decimal}
    {onInfinite : Bool → Except Signal Number}
    (h : ∀ d e, x = .finite d → x' = .finite e → d.Same e →
      Agree Decimal.Same (onFinite d) (onFinite e))
    (h' : ∀ negative, Agree Same (onInfinite negative) (onInfinite negative)) (hx : Same x x') :
    Agree Same (lift₁ f onFinite onInfinite x) (lift₁ f onFinite onInfinite x') := by
  refine (agree_refl (R := Eq) (fun _ => rfl) f.check).bind fun _ _ _ _ _ => ?_
  cases hx with
  | finite hx => exact (h _ _ rfl rfl hx).map fun _ _ => .finite
  | infinite negative => exact h' negative
  | nan => exact agree_asResult _ _ _ _

/-- A pair of numbers that are no NaNs and not both finite. -/
def HasInfinite (x y : Number) : Prop :=
  (x.isInfinite = true ∨ y.isInfinite = true) ∧ x.Known ∧ y.Known

theorem agree_lift₂ {onFinite : Decimal → Decimal → Except Signal Decimal}
    {onInfinite : Number → Number → Except Signal Number}
    (h : ∀ a b c d, x = .finite a → x' = .finite b → y = .finite c → y' = .finite d →
      a.Same b → c.Same d → Agree Decimal.Same (onFinite a c) (onFinite b d))
    (h' : HasInfinite x y → Agree Same (onInfinite x y) (onInfinite x' y'))
    (hx : Same x x') (hy : Same y y') :
    Agree Same (lift₂ f onFinite onInfinite x y) (lift₂ f onFinite onInfinite x' y') := by
  refine (agree_refl (R := Eq) (fun _ => rfl) f.check).bind fun _ _ _ _ _ => ?_
  cases hx with
  | finite hx =>
      cases hy with
      | finite hy => exact (h _ _ _ _ rfl rfl rfl rfl hx hy).map fun _ _ => .finite
      | infinite negative => exact h' ⟨.inr rfl, nofun, nofun⟩
      | nan => exact agree_asResult _ _ _ _
  | infinite negative =>
      cases hy with
      | finite hy => exact h' ⟨.inl rfl, nofun, nofun⟩
      | infinite negative => exact h' ⟨.inl rfl, nofun, nofun⟩
      | nan => exact agree_asResult _ _ _ _
  | nan =>
      cases hy with
      | finite hy => exact agree_asResult _ _ _ _
      | infinite negative => exact agree_asResult _ _ _ _
      | nan => exact agree_asResult _ _ _ _

section

variable (hp : 0 < f.precision) (hx : Same x x')

include hp hx

theorem agree_plus : Agree Same (plus f x) (plus f x') :=
  agree_lift₁ (fun _ _ _ _ h => Decimal.agree_plus hp h) (fun _ => .ok (.infinite _)) hx

theorem agree_squareRoot : Agree Same (squareRoot f x) (squareRoot f x') :=
  agree_lift₁ (fun _ _ _ _ h => Decimal.agree_squareRoot hp h) (fun _ => .ok (.infinite _)) hx

variable (hy : Same y y')

include hy

theorem agree_add : Agree Same (add f x y) (add f x' y') := by
  refine agree_lift₂ (fun _ _ _ _ _ _ _ _ h h' => Decimal.agree_add hp h h') (fun h => ?_) hx hy
  cases hx with
  | finite hx =>
      cases hy with
      | finite hy => rcases h.1 with h | h <;> cases h
      | infinite negative => exact .ok (.infinite _)
      | nan => exact absurd rfl (h.2.2 _ _ _)
  | infinite negative =>
      cases hy with
      | finite hy => exact .ok (.infinite _)
      | infinite negative' =>
          exact agree_ite Iff.rfl (fun _ => .ok (.infinite _)) fun _ => .error _ _
      | nan => exact absurd rfl (h.2.2 _ _ _)
  | nan => exact absurd rfl (h.2.1 _ _ _)

theorem agree_multiply : Agree Same (multiply f x y) (multiply f x' y') := by
  refine agree_lift₂ (fun _ _ _ _ _ _ _ _ h h' => Decimal.agree_multiply hp h h') (fun h => ?_)
    hx hy
  refine agree_ite (by rw [hx.isZero, hy.isZero]) (fun _ => .error _ _) fun hne => ?_
  simp only [Bool.or_eq_true, not_or, Bool.not_eq_true] at hne
  rw [hx.isNegative hne.1 h.2.1, hy.isNegative hne.2 h.2.2]
  exact .ok (.infinite _)

theorem agree_remainder : Agree Same (remainder f x y) (remainder f x' y') := by
  refine agree_lift₂ (fun _ _ _ _ _ _ _ _ h h' => Decimal.agree_remainder hp h h') (fun _ => ?_)
    hx hy
  cases hx with
  | finite hx => exact (Decimal.agree_round hp hx).map fun _ _ => .finite
  | infinite negative => exact .error _ _
  | nan => exact .error _ _

theorem agree_divide (hy0 : y.isZero = false) : Agree Same (divide f x y) (divide f x' y') := by
  refine agree_lift₂ (fun _ _ _ _ _ _ hc _ h h' => Decimal.agree_divide hp h h' (hc ▸ hy0 :))
    (fun h => ?_) hx hy
  have hzero : ∀ negative negative' : Bool, Same (.finite ⟨negative, 0, f.tiny⟩)
      (.finite ⟨negative', 0, f.tiny⟩) := fun _ _ => .finite <|
    Eq.trans (Decimal.value_eq_zero_iff.mpr rfl) (Decimal.value_eq_zero_iff.mpr rfl).symm
  refine agree_ite (by rw [hx.isInfinite, hy.isInfinite]) (fun _ => .error _ _) fun _ => ?_
  refine agree_ite (by rw [hx.isInfinite]) (fun hinfinite => ?_) fun _ => .ok (hzero _ _)
  have hx0 : x.isZero = false := by
    cases hx with
    | finite hx => cases hinfinite
    | infinite negative => rfl
    | nan => rfl
  rw [hx.isNegative hx0 h.2.1, hy.isNegative hy0 h.2.2]
  exact .ok (.infinite _)

theorem agree_power (hy0 : y.isZero = false) (hwithin : x.Within f) (hwithin' : x'.Within f) :
    Agree Same (power f x y) (power f x' y') := by
  have hzero : ∀ negative : Bool, Decimal.Same ⟨negative, 0, 0⟩ Decimal.zero := by
    intro negative
    exact Eq.trans (Decimal.value_eq_zero_iff.mpr rfl) Decimal.value_zero.symm
  -- with an infinite operand only signs are asked for, and whether the other is zero, one or odd
  refine agree_lift₂ (fun a b c d ha hb hc hd h h' => ?_) (fun h => ?_) hx hy
  · cases hx0 : a.isZero with
    | true =>
        rw [if_pos rfl, if_pos (h.isZero ▸ hx0)]
        exact .ok ((hzero _).trans (hzero _).symm)
    | false =>
        rw [if_neg Bool.false_ne_true, if_neg (by rw [← h.isZero, hx0]; exact Bool.false_ne_true)]
        exact Decimal.agree_power hp h hx0 h' (by simpa [hc, isZero] using hy0)
          (hwithin a ha).digits (hwithin' b hb).digits
  · cases hy with
    | nan => exact absurd rfl (h.2.2 _ _ _)
    | infinite negative =>
        refine agree_ite (by rw [hx.isZero]) (fun _ => .ok same_zero) fun hx0 => ?_
        rw [Bool.not_eq_true] at hx0
        refine agree_ite (by rw [hx.isNegative hx0 h.2.1]) (fun _ => .error _ _) fun _ => ?_
        cases hx with
        | finite hx =>
            refine agree_ite (by rw [hx.isOne]) (fun _ => .ok (.finite (.refl _))) fun _ => ?_
            exact agree_ite (by rw [hx.compare (.refl Decimal.one)]) (fun _ => .ok (.infinite _))
              fun _ => .ok same_zero
        | infinite negative =>
            exact agree_ite Iff.rfl (fun _ => .ok same_zero) fun _ => .ok (.infinite _)
        | nan => exact absurd rfl (h.2.1 _ _ _)
    | finite hy =>
        have hx0 : x.isZero = false := by
          cases hx with
          | finite hx => rcases h.1 with h | h <;> cases h
          | infinite negative => rfl
          | nan => rfl
        cases hx with
        | finite hx => rcases h.1 with h | h <;> cases h
        | nan => exact absurd rfl (h.2.1 _ _ _)
        | infinite negative =>
            refine agree_ite (by rw [Decimal.isInteger_congr hy]) (fun _ => .error _ _) fun _ => ?_
            refine agree_ite (by rw [Decimal.negative_congr hy hy0]) (fun _ => .ok (.finite ?_))
              fun _ => ?_
            · exact (hzero _).trans (hzero _).symm
            · rw [hy.isOdd]
              exact .ok (.infinite _)

end

end Number

/-- Numbers of one value, both within a format. -/
structure Number.SameWithin (f : Format) (x y : Number) : Prop where
  same : x.Same y
  left : x.Within f
  right : y.Within f

end DecimalCalc
