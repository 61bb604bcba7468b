import DecimalCalc.Drawing
import DecimalCalc.Proofs.Outcome

/-!
# What a computation that draws comes to

The laws of `Drawing`, and what is said of outcomes carried over to it: a computation fails only in
some ways, gives only some answers, or agrees with another one, **whatever it draws**. Each of these
holds of two computations in turn if it holds of both.
-/

set_option autoImplicit false

namespace DecimalCalc

namespace Drawing

variable {ε ε' α β γ : Type}

/-! ## Laws -/

theorem bind_assoc (x : Drawing ε α) (f : α → Drawing ε β) (h : β → Drawing ε γ) :
    (x.bind f).bind h = x.bind fun a => (f a).bind h := by
  funext g
  simp only [bind]
  rcases x g with ⟨_ | a, g'⟩ <;> rfl

theorem bind_map (x : Drawing ε α) (f : α → β) (h : β → Drawing ε γ) :
    (x.map f).bind h = x.bind fun a => h (f a) := by
  funext g
  simp only [bind, map]
  rcases x g with ⟨_ | a, g'⟩ <;> rfl

theorem map_bind (x : Drawing ε α) (f : α → Drawing ε β) (h : β → γ) :
    (x.bind f).map h = x.bind fun a => (f a).map h := by
  funext g
  simp only [bind, map]
  rcases x g with ⟨_ | a, g'⟩ <;> rfl

theorem map_map (x : Drawing ε α) (f : α → β) (h : β → γ) :
    (x.map f).map h = x.map fun a => h (f a) := by
  funext g
  simp only [map, Except.map_map]

theorem map_eq_bind (x : Drawing ε α) (f : α → β) : x.map f = x.bind fun a => ok (f a) := by
  funext g
  simp only [bind, map]
  rcases x g with ⟨_ | a, g'⟩ <;> rfl

theorem bind_ok (x : Drawing ε α) : x.bind ok = x := by
  funext g
  simp only [bind]
  rcases x g with ⟨_ | a, g'⟩ <;> rfl

instance : LawfulMonad (Drawing ε) :=
  LawfulMonad.mk' (Drawing ε) (fun x => bind_ok x) (fun _ _ => rfl) bind_assoc

/-! ## Single runs -/

variable {x : Drawing ε α} {g g' : Generator}

theorem bind_eq_ok {f : α → Drawing ε β} {b : β} :
    x.bind f g = (.ok b, g') ↔ ∃ a middle, x g = (.ok a, middle) ∧ f a middle = (.ok b, g') := by
  simp only [bind]
  rcases x g with ⟨_ | a, middle⟩ <;> simp [and_assoc]

theorem map_eq_ok {f : α → β} {b : β} :
    x.map f g = (.ok b, g') ↔ ∃ a, x g = (.ok a, g') ∧ f a = b := by
  simp only [map]
  rcases x g with ⟨_ | a, middle⟩ <;> simp [Except.map, and_left_comm, and_comm]

theorem mapError_eq_ok {f : ε → ε'} {a : α} :
    x.mapError f g = (.ok a, g') ↔ x g = (.ok a, g') := by
  rw [mapError, Prod.mk.injEq, Except.mapError_eq_ok, Prod.ext_iff]

theorem outcome_eq_ok {a : α} : x.outcome g = .ok a ↔ ∃ g', x g = (.ok a, g') := by
  rw [outcome]
  exact ⟨fun h => ⟨(x g).2, Prod.ext h rfl⟩, fun ⟨g', h⟩ => by rw [h]⟩

theorem outcome_eq_error {e : ε} : x.outcome g = .error e ↔ ∃ g', x g = (.error e, g') := by
  rw [outcome]
  exact ⟨fun h => ⟨(x g).2, Prod.ext h rfl⟩, fun ⟨g', h⟩ => by rw [h]⟩

theorem outcome_bind (x : Drawing ε α) (f : α → Drawing ε β) (g : Generator) :
    (x.bind f).outcome g = (x.outcome g).bind fun a => (f a).outcome (x g).2 := by
  simp only [outcome, bind]
  rcases x g with ⟨_ | a, middle⟩ <;> rfl

/-! ## What a computation may come to -/

/-- From some generator, a computation comes to an answer. -/
def Yields (x : Drawing ε α) (a : α) : Prop := ∃ g g', x g = (.ok a, g')

section Yields

theorem yields_of_eq {a : α} (h : x g = (.ok a, g')) : x.Yields a := ⟨g, g', h⟩

theorem yields_of_outcome {a : α} (h : x.outcome g = .ok a) : x.Yields a :=
  ⟨g, outcome_eq_ok.mp h⟩

theorem yields_still {r : Except ε α} {a : α} : (still r).Yields a ↔ r = .ok a :=
  ⟨fun ⟨_, _, h⟩ => (Prod.mk.inj h).1, fun h => ⟨default, default, by rw [h]; rfl⟩⟩

theorem yields_ok {a b : α} : (ok a : Drawing ε α).Yields b ↔ a = b := by
  rw [ok, yields_still, Except.ok.injEq]

theorem Yields.of_bind {f : α → Drawing ε β} {b : β} (h : (x.bind f).Yields b) :
    ∃ a, x.Yields a ∧ (f a).Yields b := by
  obtain ⟨g, g', h⟩ := h
  obtain ⟨a, middle, hx, hf⟩ := bind_eq_ok.mp h
  exact ⟨a, ⟨g, middle, hx⟩, middle, g', hf⟩

theorem yields_map {f : α → β} {b : β} : (x.map f).Yields b ↔ ∃ a, x.Yields a ∧ f a = b := by
  constructor
  · rintro ⟨g, g', h⟩
    obtain ⟨a, hx, hb⟩ := map_eq_ok.mp h
    exact ⟨a, ⟨g, g', hx⟩, hb⟩
  · rintro ⟨a, ⟨g, g', hx⟩, hb⟩
    exact ⟨g, g', map_eq_ok.mpr ⟨a, hx, hb⟩⟩

theorem yields_mapError {f : ε → ε'} {a : α} : (x.mapError f).Yields a ↔ x.Yields a := by
  simp only [Yields, mapError_eq_ok]

/-- The second step matters only after what the first one may come to. -/
theorem bind_congr {f f' : α → Drawing ε β} (h : ∀ a, x.Yields a → f a = f' a) :
    x.bind f = x.bind f' := by
  funext g
  simp only [bind]
  rcases hx : x g with ⟨_ | a, middle⟩
  · rfl
  · exact congrFun (h a ⟨g, middle, hx⟩) middle

end Yields

/-! ## What may be wrong -/

/-- Whatever is wrong with a computation, it has a property. -/
def FailsWith (P : ε → Prop) (x : Drawing ε α) : Prop := ∀ g, (x.outcome g).FailsWith P

section FailsWith

variable {P Q : ε → Prop}

theorem failsWith_still {r : Except ε α} (h : r.FailsWith P) : (still r).FailsWith P := fun _ => h

theorem failsWith_ok (a : α) : (ok a : Drawing ε α).FailsWith P :=
  failsWith_still (Except.failsWith_ok a)

theorem failsWith_error {e : ε} (h : P e) : (error e : Drawing ε α).FailsWith P :=
  failsWith_still (Except.failsWith_error h)

theorem FailsWith.mono (h : x.FailsWith P) (himp : ∀ e, P e → Q e) : x.FailsWith Q :=
  fun g => (h g).mono himp

theorem FailsWith.bind {f : α → Drawing ε β} (hx : x.FailsWith P)
    (hf : ∀ a, x.Yields a → (f a).FailsWith P) : (x.bind f).FailsWith P := by
  intro g
  rw [outcome_bind]
  exact (hx g).bind fun a ha => hf a (yields_of_outcome ha) _

theorem FailsWith.map (hx : x.FailsWith P) (f : α → β) : (x.map f).FailsWith P :=
  fun g => (hx g).map f

theorem FailsWith.mapError {P : ε' → Prop} {f : ε → ε'} (hx : x.FailsWith fun e => P (f e)) :
    (x.mapError f).FailsWith P :=
  fun g => (hx g).mapError

/-- A row of steps fails as one of them does. -/
theorem failsWith_foldlM {f : β → α → Drawing ε β} {as : List α}
    (hf : ∀ a ∈ as, ∀ b, (f b a).FailsWith P) : ∀ b : β, (as.foldlM f b).FailsWith P := by
  induction as with
  | nil => exact fun b => failsWith_ok b
  | cons a as ih =>
      obtain ⟨ha, has⟩ := List.forall_mem_cons.mp hf
      intro b
      rw [List.foldlM_cons]
      exact (ha b).bind fun b' _ => ih has b'

end FailsWith

/-! ## What a result is like -/

/-- Whatever a computation answers, it has a property. -/
def Gives (P : α → Prop) (x : Drawing ε α) : Prop := ∀ a, x.Yields a → P a

section Gives

variable {P Q : α → Prop} {R : β → Prop}

theorem gives_still {r : Except ε α} (h : r.Gives P) : (still r).Gives P :=
  fun a ha => h a (yields_still.mp ha)

theorem gives_ok {a : α} (h : P a) : (ok a : Drawing ε α).Gives P :=
  gives_still (Except.gives_ok h)

theorem gives_error (e : ε) : (error e : Drawing ε α).Gives P :=
  gives_still (Except.gives_error e)

theorem Gives.mono (h : x.Gives P) (himp : ∀ a, P a → Q a) : x.Gives Q :=
  fun a ha => himp a (h a ha)

theorem Gives.bind {f : α → Drawing ε β} (hx : x.Gives P) (hf : ∀ a, P a → (f a).Gives R) :
    (x.bind f).Gives R := by
  intro b hb
  obtain ⟨a, ha, hb⟩ := hb.of_bind
  exact hf a (hx a ha) b hb

theorem gives_bind {f : α → Drawing ε β} (hf : ∀ a, (f a).Gives R) : (x.bind f).Gives R := by
  intro b hb
  obtain ⟨a, -, hb⟩ := hb.of_bind
  exact hf a b hb

theorem Gives.map {f : α → β} (hx : x.Gives fun a => R (f a)) : (x.map f).Gives R := by
  intro b hb
  obtain ⟨a, ha, rfl⟩ := yields_map.mp hb
  exact hx a ha

theorem Gives.mapError (hx : x.Gives P) (f : ε → ε') : (x.mapError f).Gives P :=
  fun a ha => hx a (yields_mapError.mp ha)

theorem gives_ite {c : Prop} [Decidable c] {x y : Drawing ε α} (hx : x.Gives P) (hy : y.Gives P) :
    (if c then x else y).Gives P := by
  split
  · exact hx
  · exact hy

end Gives

/-! ## Computations that draw nothing -/

/-- **A computation that draws nothing** just comes to what it does. -/
def IsStill (x : Drawing ε α) : Prop := ∃ r, x = still r

section IsStill

theorem isStill_still (r : Except ε α) : (still r).IsStill := ⟨r, rfl⟩

theorem IsStill.bind {f : α → Drawing ε β} (hx : x.IsStill)
    (hf : ∀ a, x.Yields a → (f a).IsStill) : (x.bind f).IsStill := by
  obtain ⟨_ | a, rfl⟩ := hx
  · exact isStill_still _
  · exact hf a (yields_still.mpr rfl)

theorem IsStill.map (hx : x.IsStill) (f : α → β) : (x.map f).IsStill := by
  obtain ⟨r, rfl⟩ := hx
  exact ⟨r.map f, rfl⟩

theorem IsStill.mapError (hx : x.IsStill) (f : ε → ε') : (x.mapError f).IsStill := by
  obtain ⟨r, rfl⟩ := hx
  exact ⟨r.mapError f, rfl⟩

/-- What a still computation comes to once, it comes to always. -/
theorem IsStill.eq_still (hx : x.IsStill) (g : Generator) : x = still (x.outcome g) := by
  obtain ⟨r, rfl⟩ := hx
  rfl

end IsStill

/-! ## Computations that agree -/

/-- **Two computations agree** if from any generator both fail, or both answer, their answers are
related and they leave the same generator. -/
def Agree (R : α → β → Prop) (x : Drawing ε α) (y : Drawing ε' β) : Prop :=
  ∀ g, Except.Agree R (x.outcome g) (y.outcome g) ∧ (∀ a, x.outcome g = .ok a → (x g).2 = (y g).2)

section Agree

variable {γ' : Type} {R : α → β → Prop} {y : Drawing ε' β}

theorem agree_still {r : Except ε α} {r' : Except ε' β} (h : Except.Agree R r r') :
    Agree R (still r) (still r') :=
  fun _ => ⟨h, fun _ _ => rfl⟩

theorem agree_refl {R : α → α → Prop} (h : ∀ a, R a a) (x : Drawing ε α) : Agree R x x :=
  fun _ => ⟨Except.agree_refl h _, fun _ _ => rfl⟩

/-- Computations without answers agree. -/
theorem agree_of_not_yields (hx : ∀ a, ¬x.Yields a) (hy : ∀ b, ¬y.Yields b) : Agree R x y := by
  refine fun g => ⟨?_, fun a ha => absurd (yields_of_outcome ha) (hx a)⟩
  cases ha : x.outcome g with
  | ok a => exact absurd (yields_of_outcome ha) (hx a)
  | error e =>
      cases hb : y.outcome g with
      | ok b => exact absurd (yields_of_outcome hb) (hy b)
      | error e' => exact .error e e'

theorem Agree.mono {S : α → β → Prop} (h : Agree R x y)
    (himp : ∀ a b, x.Yields a → y.Yields b → R a b → S a b) : Agree S x y :=
  fun g => ⟨(h g).1.mono fun a b ha hb => himp a b (yields_of_outcome ha) (yields_of_outcome hb),
    (h g).2⟩

/-- **Steps that agree** after steps that agree. -/
theorem Agree.bind {S : γ → γ' → Prop} {f : α → Drawing ε γ} {f' : β → Drawing ε' γ'}
    (h : Agree R x y) (hf : ∀ a b, R a b → Agree S (f a) (f' b)) :
    Agree S (x.bind f) (y.bind f') := by
  intro g
  obtain ⟨hxy, hleft⟩ := h g
  rcases hx : x g with ⟨_ | a, middle⟩ <;> rcases hy : y g with ⟨_ | b, middle'⟩ <;>
    simp only [outcome, Drawing.bind, hx, hy] at hxy hleft ⊢
  · exact ⟨.error _ _, nofun⟩
  · cases hxy
  · cases hxy
  · cases hxy with
    | ok hab =>
        obtain rfl : middle = middle' := hleft a rfl
        exact hf a b hab middle

theorem Agree.map {S : γ → γ' → Prop} {f : α → γ} {f' : β → γ'} (h : Agree R x y)
    (hf : ∀ a b, R a b → S (f a) (f' b)) : Agree S (x.map f) (y.map f') := by
  rw [map_eq_bind, map_eq_bind]
  exact h.bind fun a b hab => agree_still (.ok (hf a b hab))

theorem Agree.mapError (h : Agree R x y) (f : ε → γ) (f' : ε' → γ') :
    Agree R (x.mapError f) (y.mapError f') := by
  refine fun g => ⟨(h g).1.mapError f f', fun a ha => (h g).2 a ?_⟩
  exact Except.mapError_eq_ok.mp ha

end Agree

end Drawing

end DecimalCalc
