import DecimalCalc.Proofs.ReportedFailures

/-!
# Settings that numbers do not depend on

The locale says how numbers are shown, and the unit of angles is for the functions that take or give
angles. **Neither leaks into other numbers**: under two locales an evaluation ends with the same
number or the same failure, and so it does under two units where no symbol of such a function is met
(`Calculator.evaluate_unread`).

Two settings are `Alike` but for some symbols if the other built-in symbols do the same under both,
and numbers are read and constants computed alike. Then rows of tokens run alike. What a coordinate
is shown as does differ, but a variable keeps no more of its value than the number.
-/

set_option autoImplicit false

namespace DecimalCalc

/-! ## Operations that read the unit of angles -/

namespace Operation

/-- **An operation that takes or gives an angle.** -/
def Angular (operation : Operation) : Prop :=
  operation ∈ [sin, cos, tan, cot, arcsin, arccos, arctan, arccot, direction, toCartesian, toPolar]

instance (operation : Operation) : Decidable operation.Angular :=
  inferInstanceAs (Decidable (_ ∈ _))

end Operation

namespace Functions

variable {s s' : Settings} (operands : List Number)

theorem unary_congr {f : Settings → Number → Outcome Number} (h : ∀ x, f s x = f s' x) :
    unary f operands s = unary f operands s' := by
  match operands with
  | [] => rfl
  | [x] => rw [unary, unary, h]
  | _ :: _ :: _ => rfl

theorem pair_congr {α : Type} {make : α → Value}
    {f : Settings → Number → Number → Drawing OperationError α} (h : ∀ x y, f s x y = f s' x y) :
    pair make f operands s = pair make f operands s' := by
  match operands with
  | [] | [_] => rfl
  | [x, y] => rw [pair, pair, h]
  | _ :: _ :: _ :: _ => rfl

end Functions

namespace Operation

open Functions

/-- **No operation reads the locale.** -/
theorem action_locale (operation : Operation) (s : Settings) (locale : List Char)
    (operands : List Number) :
    operation.action operands { s with locale } = operation.action operands s := by
  cases operation with
  | add | subtract | multiply | divide | modulo | power | permutation | combination | gcd | lcm
  | randomInteger | root | logarithm | direction | beta | toCartesian | toPolar =>
      exact pair_congr operands fun _ _ => rfl
  | _ => exact unary_congr operands fun _ => rfl

/-- **Only angular operations read the unit of angles.** -/
theorem action_angleUnit {operation : Operation} (h : ¬operation.Angular) (s : Settings)
    (unit : AngleUnit) (operands : List Number) :
    operation.action operands { s with angleUnit := unit } = operation.action operands s := by
  cases operation with
  | sin | cos | tan | cot | arcsin | arccos | arctan | arccot | direction | toCartesian | toPolar =>
      exact absurd (by decide) h
  | add | subtract | multiply | divide | modulo | power | permutation | combination | gcd | lcm
  | randomInteger | root | logarithm | beta => exact pair_congr operands fun _ _ => rfl
  | _ => exact unary_congr operands fun _ => rfl

end Operation

/-- The symbols of the angular operations. -/
def angularSymbols : List (List Char) :=
  ["sin".toList, "cos".toList, "tan".toList, "cot".toList, "asin".toList, "sin⁻¹".toList,
    "acos".toList, "cos⁻¹".toList, "atan".toList, "tan⁻¹".toList, "acot".toList, "cot⁻¹".toList,
    "atan2".toList, "tan2⁻¹".toList, "Rec".toList, "Pol".toList]

/-- Every built-in symbol does what an operation does, and tells whether it is angular. -/
theorem angular_builtin : ∀ entry ∈ Builtin.entries, ∃ operation : Operation,
    entry.action = operation.action ∧ (operation.Angular → entry.symbol ∈ angularSymbols) := by
  simp only [Builtin.entries, Builtin.trigonometric, Builtin.between, Builtin.function,
    Builtin.root, Entry.between, Entry.before, Entry.after, List.cons_append, List.nil_append,
    List.forall_mem_cons, List.not_mem_nil, IsEmpty.forall_iff, implies_true, and_true]
  and_intros
  all_goals exact ⟨_, rfl, by decide⟩

/-! ## Settings that are alike -/

/-- **Settings under which numbers are the same**, where some symbols are left out. -/
structure Settings.Alike (symbols : List (List Char)) (s s' : Settings) : Prop where
  action : ∀ entry ∈ Builtin.entries, entry.symbol ∉ symbols →
    ∀ operands, entry.action operands s = entry.action operands s'
  literal : ∀ text, readLiteral s text = readLiteral s' text
  constant : ∀ constant : Constant, constant.value s = constant.value s'

theorem Settings.alike_locale (s : Settings) (locale : List Char) :
    Alike [] { s with locale } s where
  action entry mem _ operands := by
    obtain ⟨operation, heq, -⟩ := angular_builtin entry mem
    rw [heq]
    exact operation.action_locale s locale operands
  literal _ := rfl
  constant constant := by cases constant <;> rfl

theorem Settings.alike_angleUnit (s : Settings) (locale : List Char) (unit : AngleUnit) :
    Alike angularSymbols { s with locale, angleUnit := unit } s where
  action entry mem apart operands := by
    obtain ⟨operation, heq, angular⟩ := angular_builtin entry mem
    have hother : ¬operation.Angular := fun h => apart (angular h)
    calc entry.action operands { s with locale, angleUnit := unit }
        = operation.action operands { { s with locale } with angleUnit := unit } := by rw [heq]
      _ = operation.action operands { s with locale } :=
          Operation.action_angleUnit hother { s with locale } unit operands
      _ = entry.action operands s := by rw [operation.action_locale, heq]
  literal _ := rfl
  constant constant := by cases constant <;> rfl

/-- A token that stands for none of some symbols. -/
def Token.Avoids (symbols : List (List Char)) (t : Token) : Prop :=
  t.kind = .operator ∨ t.kind = .function → t.text ∉ symbols

variable {symbols : List (List Char)} {s s' : Settings}

/-! ## Runs of the machine -/

namespace Machine

theorem step_alike (alike : s.Alike symbols s') {t : Token} (ht : t.Avoids symbols)
    (stack : List Value) :
    step Registry.builtin s stack t = step Registry.builtin s' stack t := by
  by_cases hnumber : t.kind = .number
  · rw [step_number hnumber, step_number hnumber, alike.literal]
  by_cases hsymbol : t.kind = .operator ∨ t.kind = .function
  · rw [step_symbol hsymbol, step_symbol hsymbol]
    cases hentry : Registry.builtin.lookup t.text with
    | error cause => rfl
    | ok entry =>
        obtain ⟨hmem, htext⟩ := Registry.mem_of_lookup hentry
        have haction := alike.action entry hmem (htext ▸ ht hsymbol)
        show apply s entry stack = apply s' entry stack
        rw [apply, apply, haction]
  · rw [step_unexpected hnumber hsymbol, step_unexpected hnumber hsymbol]

theorem run_alike (alike : s.Alike symbols s') {tokens : List Token}
    (htokens : ∀ t ∈ tokens, t.Avoids symbols) : ∀ stack : List Value,
      run Registry.builtin s stack tokens = run Registry.builtin s' stack tokens :=
  run_congr (List.forall₂_same.mpr fun t ht => step_alike alike (htokens t ht))

end Machine

/-- Whether a number can be shown does not depend on the locale. -/
theorem Value.toScalar_number (v : Value) (locale locale' : List Char) :
    (v.toScalar locale).map Scalar.number = (v.toScalar locale').map Scalar.number := by
  cases v with
  | number x => rfl
  | coordinate c =>
      simp only [toScalar, Coordinate.toScalar, Coordinate.display, Number.display]
      cases c.first.trim with
      | error signal => rfl
      | ok first => cases c.second.trim <;> rfl

theorem Machine.answer_number (stack : List Value) (s s' : Settings) :
    (answer s stack).map Scalar.number = (answer s' stack).map Scalar.number := by
  match stack with
  | [] | _ :: _ :: _ => rfl
  | [value] =>
      -- the locale shows in the text of a coordinate, and only here
      have hnumber := value.toScalar_number s.locale s'.locale
      show ((value.toScalar s.locale).mapError _).map _ =
        ((value.toScalar s'.locale).mapError _).map _
      revert hnumber
      cases value.toScalar s.locale <;> cases value.toScalar s'.locale <;>
        simp [Except.map, Except.mapError]

theorem Machine.evaluate_alike (alike : s.Alike symbols s') {tokens : List Token}
    (htokens : ∀ t ∈ tokens, t.Avoids symbols) :
    (evaluate Registry.builtin s tokens).map Scalar.number =
      (evaluate Registry.builtin s' tokens).map Scalar.number := by
  rw [evaluate, evaluate, run_alike alike htokens, Drawing.map_bind, Drawing.map_bind]
  exact Drawing.bind_congr fun stack _ => congrArg Drawing.still (answer_number stack s s')

/-! ## Evaluation -/

namespace Calculator

variable {vars : Variables} {text e : List Char}
  {generator : Generator} {valueOf valueOf' : List Char → Drawing Failure Number}

/-- An expression in which none of some symbols occurs. -/
def Avoids (symbols : List (List Char)) (e : List Char) : Prop :=
  ∀ tokens, ({} : Calculator).tokenize e = .ok tokens → ∀ t ∈ tokens, t.Avoids symbols

theorem avoids_nil (e : List Char) : Avoids [] e := fun _ _ _ _ _ => List.not_mem_nil

theorem avoids_of_tokenize {tokens : List Token}
    (h : ({} : Calculator).tokenize e = .ok tokens) (avoids : ∀ t ∈ tokens, t.text ∉ symbols) :
    Avoids symbols e := by
  intro tokens' h' t ht
  obtain rfl := Except.ok.inj (h.symm.trans h')
  exact fun _ => avoids t ht

theorem reversePolishWith_avoids {c : Calculator} (builtin : c.registry = .builtin)
    (avoids : Avoids symbols e) {out : List Token}
    (h : (c.reversePolishWith valueOf e).Yields out) :
    ∀ t ∈ out, t.Avoids symbols := by
  intro t ht hsymbol
  obtain ⟨tokens, htokens, hmem⟩ := mem_of_reversePolishWith h ht hsymbol
  have htokens' : ({} : Calculator).tokenize e = .ok tokens := by
    rw [tokenize, lexicon, builtin] at htokens
    exact htokens
  exact avoids tokens htokens' t hmem hsymbol

theorem substitute_alike (alike : s.Alike symbols s') (tokens : List Token) :
    ({ settings := s, generator } : Calculator).substitute valueOf tokens =
      ({ settings := s', generator } : Calculator).substitute valueOf tokens := by
  have htoken : ({ settings := s, generator } : Calculator).substituteToken valueOf =
      ({ settings := s', generator } : Calculator).substituteToken valueOf := by
    funext t
    simp only [substituteToken, constantValue, alike.constant]
  rw [substitute, substitute, htoken]

/-- **Alike settings evaluate an expression alike**, where its variables have the same values. -/
theorem evaluateWith_alike (alike : s.Alike symbols s') (avoids : Avoids symbols e)
    (hvalue : ∀ name, ({} : Calculator).Occurs e name → valueOf name = valueOf' name) :
    (({ settings := s, generator } : Calculator).evaluateWith valueOf e).map Scalar.number =
      (({ settings := s', generator } : Calculator).evaluateWith valueOf' e).map Scalar.number := by
  have hcongr : ({ settings := s, generator } : Calculator).evaluateWith valueOf e =
      ({ settings := s, generator } : Calculator).evaluateWith valueOf' e :=
    evaluateWith_congr hvalue
  have hpolish : ({ settings := s, generator } : Calculator).reversePolishWith valueOf' e =
      ({ settings := s', generator } : Calculator).reversePolishWith valueOf' e := by
    simp only [reversePolishWith, substitute_alike alike]
    rfl
  rw [hcongr, evaluateWith, evaluateWith, hpolish]
  split
  · rfl
  · rw [Drawing.map_bind, Drawing.map_bind]
    exact Drawing.bind_congr fun out h =>
      Machine.evaluate_alike alike (reversePolishWith_avoids rfl avoids h)

/-- The values of the variables that are met are the same, by induction on how deep they may be
nested. -/
theorem valueOf_alike (alike : s.Alike symbols s')
    (avoids : ∀ e, ({} : Calculator).Meets vars text e → Avoids symbols e) (depth : Nat) :
    ∀ resolving e name, ({} : Calculator).Meets vars text e → ({} : Calculator).Occurs e name →
      ({ settings := s, generator } : Calculator).valueOf vars depth resolving name =
        ({ settings := s', generator } : Calculator).valueOf vars depth resolving name := by
  induction depth with
  | zero =>
      intro resolving e name met occurs
      rw [Calculator.valueOf, Calculator.valueOf]
  | succ depth ih =>
      intro resolving e name met occurs
      rw [Calculator.valueOf, Calculator.valueOf]
      cases bound : vars.find? name with
      | none => rfl
      | some binding =>
          cases binding with
          | number x => rfl
          | expression definition =>
              -- of what the definition is evaluated to, a variable keeps the number
              have met' := met.through occurs bound
              dsimp only
              rw [evaluateWith_alike alike (avoids definition met') fun target =>
                ih (resolving ++ [name]) definition target met']

theorem compute_alike (alike : s.Alike symbols s')
    (avoids : ∀ e, ({} : Calculator).Meets vars text e → Avoids symbols e) :
    (({ settings := s, generator } : Calculator).compute text vars).map Scalar.number =
      (({ settings := s', generator } : Calculator).compute text vars).map Scalar.number :=
  evaluateWith_alike alike (avoids text .itself) fun name =>
    valueOf_alike alike avoids _ [] text name .itself

theorem evaluate_alike (alike : s.Alike symbols s')
    (avoids : ∀ e, ({} : Calculator).Meets vars text e → Avoids symbols e) :
    (({ settings := s, generator } : Calculator).evaluate text vars).map Scalar.number =
      (({ settings := s', generator } : Calculator).evaluate text vars).map Scalar.number :=
  congrArg (Drawing.outcome · generator) (compute_alike alike avoids)

/-- **Settings that numbers do not depend on.** Whatever the locale, an evaluation that draws from one
generator ends with the same number or the same failure. If no angular symbol occurs in any
expression that is met, the unit of angles makes no difference either. -/
theorem evaluate_unread (s : Settings) (generator : Generator) (locale : List Char)
    (unit : AngleUnit) (text : List Char) (vars : Variables) :
    (({ settings := { s with locale }, generator } : Calculator).evaluate text vars).map
        Scalar.number =
      (({ settings := s, generator } : Calculator).evaluate text vars).map Scalar.number ∧
    ((∀ e, ({ settings := s, generator } : Calculator).Meets vars text e →
        Avoids angularSymbols e) →
      (({ settings := { s with locale, angleUnit := unit }, generator } : Calculator).evaluate
          text vars).map Scalar.number =
        (({ settings := s, generator } : Calculator).evaluate text vars).map Scalar.number) := by
  constructor
  · exact evaluate_alike (s.alike_locale locale) fun e _ => avoids_nil e
  · intro avoids
    refine evaluate_alike (s.alike_angleUnit locale unit) fun e met => avoids e ?_
    induction met with
    | itself => exact .itself
    | through _ occurs bound ih => exact .through ih occurs bound

/-- A hyperbolic sine takes no angle. -/
theorem evaluate_unread_root :
    let vars : Variables := .ofList [(['x'], .expression "sinh(2)/3".toList)]
    (({ settings := { Settings.initial with locale := "de_DE".toList, angleUnit := .radians } } :
        Calculator).evaluate "sqrt(x)".toList vars).map Scalar.number =
      (({ settings := .initial } : Calculator).evaluate "sqrt(x)".toList vars).map
        Scalar.number := by
  intro vars
  refine (evaluate_unread .initial default "de_DE".toList .radians "sqrt(x)".toList vars).2
    fun e met => ?_
  cases met with
  | itself =>
      have htokens : ({} : Calculator).tokenize "sqrt(x)".toList =
          .ok [.function "sqrt".toList, .leftParen, .reference ['x'], .rightParen] := by
        decide +kernel
      exact avoids_of_tokenize htokens (by decide)
  | @through _ name _ _ _ bound =>
      have hdefinition : e = "sinh(2)/3".toList := by
        rw [show vars = Variables.bind {} ['x'] _ from rfl, Variables.find?_bind] at bound
        split at bound
        · cases bound
          rfl
        · cases bound
      have htokens : ({} : Calculator).tokenize "sinh(2)/3".toList =
          .ok [.function "sinh".toList, .leftParen, .number ['2'], .rightParen, .operator ['/'],
            .number ['3']] := by
        decide +kernel
      rw [hdefinition]
      exact avoids_of_tokenize htokens (by decide)

end Calculator

end DecimalCalc
