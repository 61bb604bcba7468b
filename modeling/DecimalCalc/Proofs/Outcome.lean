/-!
# Computations that fail

What is known of the parts of a computation that has succeeded. A proof takes a computation apart
step by step with these, as it was put together, and failures need no cases of their own.
-/

set_option autoImplicit false

namespace Except

variable {ε α β γ : Type}

/-- **A computation of two steps succeeds** as its second step does after the first. -/
theorem bind_eq_ok {x : Except ε α} {f : α → Except ε β} {b : β} :
    x.bind f = .ok b ↔ ∃ a, x = .ok a ∧ f a = .ok b := by
  cases x <;> simp [Except.bind]

theorem map_eq_ok {x : Except ε α} {f : α → β} {b : β} :
    x.map f = .ok b ↔ ∃ a, x = .ok a ∧ f a = b := by
  cases x <;> simp [Except.map]

theorem mapError_eq_ok {x : Except ε α} {f : ε → γ} {a : α} :
    x.mapError f = .ok a ↔ x = .ok a := by
  cases x with
  | error e => constructor <;> (intro h; cases h)
  | ok b =>
      show (.ok b : Except γ α) = .ok a ↔ _
      simp

theorem map_map (x : Except ε α) (f : α → β) (g : β → γ) :
    (x.map f).map g = x.map fun a => g (f a) := by
  cases x <;> rfl

theorem bind_map (x : Except ε α) (f : α → β) (g : β → Except ε γ) :
    (x.map f).bind g = x.bind fun a => g (f a) := by
  cases x <;> rfl

theorem map_bind (x : Except ε α) (f : α → Except ε β) (g : β → γ) :
    (x.bind f).map g = x.bind fun a => (f a).map g := by
  cases x <;> rfl

theorem mapError_bind (x : Except ε α) (f : α → Except ε β) (g : ε → γ) :
    (x.bind f).mapError g = (x.mapError g).bind fun a => (f a).mapError g := by
  cases x <;> rfl

theorem bind_assoc (x : Except ε α) (f : α → Except ε β) (g : β → Except ε γ) :
    (x.bind f).bind g = x.bind fun a => (f a).bind g := by
  cases x <;> rfl

/-! ## What may be wrong -/

/-- Whatever is wrong with a computation, it has a property. -/
def FailsWith (P : ε → Prop) (x : Except ε α) : Prop := ∀ e, x = .error e → P e

variable {P Q : ε → Prop}

theorem failsWith_ok (a : α) : (.ok a : Except ε α).FailsWith P := nofun

theorem failsWith_error {e : ε} (h : P e) : (.error e : Except ε α).FailsWith P := by
  rintro _ ⟨⟩
  exact h

theorem FailsWith.mono {x : Except ε α} (h : x.FailsWith P) (himp : ∀ e, P e → Q e) :
    x.FailsWith Q :=
  fun e he => himp e (h e he)

/-- **A computation of two steps fails** as one of them does. -/
theorem FailsWith.bind {x : Except ε α} {f : α → Except ε β} (hx : x.FailsWith P)
    (hf : ∀ a, x = .ok a → (f a).FailsWith P) : (x.bind f).FailsWith P := by
  cases x with
  | error e => exact failsWith_error (hx e rfl)
  | ok a => exact hf a rfl

theorem FailsWith.map {x : Except ε α} (hx : x.FailsWith P) (f : α → β) :
    (x.map f).FailsWith P := by
  cases x with
  | error e => exact failsWith_error (hx e rfl)
  | ok a => exact failsWith_ok (f a)

theorem FailsWith.mapError {P : γ → Prop} {x : Except ε α} {f : ε → γ}
    (hx : x.FailsWith fun e => P (f e)) : (x.mapError f).FailsWith P := by
  cases x with
  | error e => exact failsWith_error (hx e rfl)
  | ok a => exact failsWith_ok a

/-- A row of steps fails as one of them does. -/
theorem failsWith_foldlM {f : β → α → Except ε β} {as : List α}
    (hf : ∀ a ∈ as, ∀ b, (f b a).FailsWith P) : ∀ b : β, (as.foldlM f b).FailsWith P := by
  induction as with
  | nil => exact fun b => failsWith_ok b
  | cons a as ih =>
      obtain ⟨ha, has⟩ := List.forall_mem_cons.mp hf
      exact fun b => (ha b).bind fun b' _ => ih has b'

/-! ## What a result is like -/

/-- Whatever a computation answers, it has a property. -/
def Gives (P : α → Prop) (x : Except ε α) : Prop := ∀ a, x = .ok a → P a

section Gives

variable {P Q : α → Prop} {R : β → Prop}

theorem gives_ok {a : α} (h : P a) : (.ok a : Except ε α).Gives P := by
  rintro _ ⟨⟩
  exact h

theorem gives_error (e : ε) : (.error e : Except ε α).Gives P := nofun

theorem Gives.mono {x : Except ε α} (h : x.Gives P) (himp : ∀ a, P a → Q a) : x.Gives Q :=
  fun a ha => himp a (h a ha)

/-- **A computation of two steps answers** what its second step does after the first. -/
theorem Gives.bind {x : Except ε α} {f : α → Except ε β} (hx : x.Gives P)
    (hf : ∀ a, P a → (f a).Gives R) : (x.bind f).Gives R := by
  cases x with
  | error e => exact gives_error e
  | ok a => exact hf a (hx a rfl)

/-- What the first step answers may not matter. -/
theorem gives_bind {x : Except ε α} {f : α → Except ε β} (hf : ∀ a, (f a).Gives R) :
    (x.bind f).Gives R := by
  cases x with
  | error e => exact gives_error e
  | ok a => exact hf a

theorem Gives.map {x : Except ε α} {f : α → β} (hx : x.Gives fun a => R (f a)) :
    (x.map f).Gives R := by
  cases x with
  | error e => exact gives_error e
  | ok a => exact gives_ok (hx a rfl)

theorem Gives.mapError {x : Except ε α} (hx : x.Gives P) (f : ε → γ) :
    (x.mapError f).Gives P := by
  cases x with
  | error e => exact gives_error (f e)
  | ok a => exact gives_ok (hx a rfl)

theorem gives_ite {c : Prop} [Decidable c] {x y : Except ε α} (hx : x.Gives P) (hy : y.Gives P) :
    (if c then x else y).Gives P := by
  split
  · exact hx
  · exact hy

end Gives

/-! ## Computations that agree -/

/-- **Two computations agree** if both fail, or both answer and their answers are related. Why they
fail does not matter. -/
inductive Agree {ε' : Type} (R : α → β → Prop) : Except ε α → Except ε' β → Prop
  | ok {a : α} {b : β} (h : R a b) : Agree R (.ok a) (.ok b)
  | error (e : ε) (e' : ε') : Agree R (.error e) (.error e')

section Agree

variable {ε' γ' : Type} {R : α → β → Prop} {x : Except ε α} {y : Except ε' β}

theorem agree_refl {R : α → α → Prop} (h : ∀ a, R a a) (x : Except ε α) : Agree R x x := by
  cases x with
  | error e => exact .error e e
  | ok a => exact .ok (h a)

/-- What agrees with an answer is one. -/
theorem Agree.exists_eq_ok {b : β} (h : Agree R x y) (hy : y = .ok b) :
    ∃ a, x = .ok a ∧ R a b := by
  cases h with
  | ok h =>
      obtain rfl := ok.inj hy
      exact ⟨_, rfl, h⟩
  | error e e' => cases hy

theorem Agree.mono {S : α → β → Prop} (h : Agree R x y)
    (himp : ∀ a b, x = .ok a → y = .ok b → R a b → S a b) : Agree S x y := by
  cases h with
  | ok h => exact .ok (himp _ _ rfl rfl h)
  | error e e' => exact .error e e'

/-- **Steps that agree** after steps that agree. -/
theorem Agree.bind {S : γ → γ' → Prop} {f : α → Except ε γ} {g : β → Except ε' γ'}
    (h : Agree R x y) (hfg : ∀ a b, x = .ok a → y = .ok b → R a b → Agree S (f a) (g b)) :
    Agree S (x.bind f) (y.bind g) := by
  cases h with
  | ok h => exact hfg _ _ rfl rfl h
  | error e e' => exact .error e e'

theorem Agree.map {S : γ → γ' → Prop} {f : α → γ} {g : β → γ'} (h : Agree R x y)
    (hfg : ∀ a b, R a b → S (f a) (g b)) : Agree S (x.map f) (y.map g) := by
  cases h with
  | ok h => exact .ok (hfg _ _ h)
  | error e e' => exact .error e e'

theorem Agree.mapError (h : Agree R x y) (f : ε → γ) (g : ε' → γ') :
    Agree R (x.mapError f) (y.mapError g) := by
  cases h with
  | ok h => exact .ok h
  | error e e' => exact .error _ _

theorem agree_ite {c d : Prop} [Decidable c] [Decidable d] {x' : Except ε α} {y' : Except ε' β}
    (hcd : c ↔ d) (h : c → Agree R x y) (h' : ¬c → Agree R x' y') :
    Agree R (if c then x else x') (if d then y else y') := by
  by_cases hc : c
  · rw [if_pos hc, if_pos (hcd.mp hc)]
    exact h hc
  · rw [if_neg hc, if_neg (mt hcd.mpr hc)]
    exact h' hc

end Agree

/-! ## Results without their failures -/

theorem toOption_eq_some {x : Except ε α} {a : α} : x.toOption = some a ↔ x = .ok a := by
  cases x <;> simp [Except.toOption]

theorem agree_of_toOption {ε' : Type} {R : α → β → Prop} {x : Except ε α} {y : Except ε' β}
    (h : Option.Rel R x.toOption y.toOption) : Agree R x y := by
  cases x with
  | error e =>
      cases y with
      | error e' => exact .error e e'
      | ok b => cases h
  | ok a =>
      cases y with
      | error e' => cases h
      | ok b =>
          cases h with
          | some h => exact .ok h

theorem agree_of_toOption_eq {ε' : Type} {x : Except ε α} {y : Except ε' α}
    (h : x.toOption = y.toOption) : Agree (· = ·) x y := by
  refine agree_of_toOption ?_
  rw [h]
  cases y.toOption with
  | none => exact .none
  | some a => exact .some rfl

theorem toOption_map (x : Except ε α) (f : α → β) : (x.map f).toOption = x.toOption.map f := by
  cases x <;> rfl

end Except
