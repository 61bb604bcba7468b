import DecimalCalc.Machine
import DecimalCalc.Proofs.Drawings
import Mathlib.Data.List.Forall2

/-!
# The steps of the machine

What the machine does with each kind of token: a number is read and laid on the stack, a symbol is
looked up and its entry applied to the topmost values, and no other token is known. Whatever is proved
of a step starts from these equations, and a run is taken apart at any of its tokens.
-/

set_option autoImplicit false

namespace DecimalCalc

namespace Machine

variable {registry registry' : Registry} {s s' : Settings} {t : Token}

/-! ## One step -/

/-- **A number is read** and laid on the stack. -/
theorem step_number (hkind : t.kind = .number) (stack : List Value) :
    step registry s stack t =
      .still (((readLiteral s t.text).mapError Failure.ofOperation).map (.number · :: stack)) := by
  simp only [step, hkind]
  cases readLiteral s t.text <;> rfl

/-- **A symbol is looked up**, and then its entry is applied. -/
theorem step_symbol (hkind : t.kind = .operator ∨ t.kind = .function) (stack : List Value) :
    step registry s stack t =
      (Drawing.still ((registry.lookup t.text).mapError Failure.fault)).bind
        fun entry => apply s entry stack := by
  rcases hkind with hkind | hkind <;> simp only [step, hkind] <;>
    cases registry.lookup t.text <;> rfl

theorem step_unexpected (hnumber : t.kind ≠ .number)
    (hsymbol : ¬(t.kind = .operator ∨ t.kind = .function)) (stack : List Value) :
    step registry s stack t = .error (.fault (.unexpectedToken t)) := by
  cases hkind : t.kind <;> simp_all [step]

/-! ## Runs -/

theorem run_cons (t : Token) (tokens : List Token) (stack : List Value) :
    run registry s stack (t :: tokens) =
      (step registry s stack t).bind fun stack => run registry s stack tokens :=
  List.foldlM_cons

theorem run_append (stack : List Value) (ts us : List Token) :
    run registry s stack (ts ++ us) = (run registry s stack ts).bind
      fun stack => run registry s stack us :=
  List.foldlM_append

theorem run_singleton (t : Token) (stack : List Value) :
    run registry s stack [t] = step registry s stack t := by
  rw [run_cons]
  exact Drawing.bind_ok _

/-- A single number leaves its value. -/
theorem run_number (text : List Char) (stack : List Value) :
    run registry s stack [Token.number text] =
      .still (((readLiteral s text).mapError Failure.ofOperation).map (.number · :: stack)) := by
  rw [run_singleton, step_number rfl, Token.number]

/-- **Tokens are run alike** if each of them is on every stack. -/
theorem run_congr {tokens tokens' : List Token}
    (h : List.Forall₂ (fun t t' => ∀ stack, step registry s stack t = step registry' s' stack t')
      tokens tokens') :
    ∀ stack, run registry s stack tokens = run registry' s' stack tokens' := by
  induction h with
  | nil => exact fun _ => rfl
  | cons head rest ih =>
      intro stack
      rw [run_cons, run_cons, head stack]
      exact congrArg _ (funext ih)

end Machine

end DecimalCalc
