import DecimalCalc.Expression.Builtin
import DecimalCalc.Proofs.MachineSteps
import DecimalCalc.Proofs.Resolution

/-!
# Evaluations that draw nothing

Of the built-in operations only the random integer draws (`Operation.action_isStill`). So an
expression without its symbol is `Still`, and where the values of its variables draw nothing, neither
does its evaluation (`Calculator.evaluateWith_isStill`). The value of a variable draws nothing if all
expressions that are met on the way to it are still (`Calculator.valueAt_isStill`).
-/

set_option autoImplicit false

namespace DecimalCalc

open Drawing (IsStill isStill_still)

/-! ## Operations -/

/-- What a symbol does draws nothing, whatever its operands and the settings are. -/
def Action.IsStill (action : Action) : Prop :=
  ∀ (operands : List Number) (s : Settings), (action operands s).IsStill

namespace Functions

theorem unary_isStill (f : Settings → Number → Outcome Number) : (unary f).IsStill := by
  intro operands s
  unfold unary
  split <;> exact isStill_still _

theorem pair_isStill {α : Type} (make : α → Value) (f : Settings → Number → Number → Outcome α) :
    (pair make fun s x y => .still (f s x y)).IsStill := by
  intro operands s
  unfold pair
  split
  · exact (isStill_still _).map make
  · exact isStill_still _

end Functions

/-- **Only the random integer draws.** -/
theorem Operation.action_isStill {operation : Operation} (h : operation ≠ .randomInteger) :
    operation.action.IsStill := by
  cases operation with
  | randomInteger => exact absurd rfl h
  | add | subtract | multiply | divide | modulo | power | permutation | combination | gcd | lcm
  | root | logarithm | direction | beta | toCartesian | toPolar =>
      exact Functions.pair_isStill _ _
  | _ => exact Functions.unary_isStill _

/-- The symbol of the random integer. -/
def randomSymbol : List Char := "RandInt".toList

/-- Every built-in symbol does what an operation does, and only one of them draws. -/
theorem exists_operation : ∀ entry ∈ Builtin.entries, ∃ operation : Operation,
    entry.action = operation.action ∧
      (operation = .randomInteger → entry.symbol = randomSymbol) := by
  simp only [Builtin.entries, Builtin.trigonometric, Builtin.between, Builtin.function,
    Builtin.root, Entry.between, Entry.before, Entry.after, List.cons_append, List.nil_append,
    List.forall_mem_cons, List.not_mem_nil, IsEmpty.forall_iff, implies_true, and_true]
  and_intros
  all_goals exact ⟨_, rfl, by decide⟩

/-! ## Runs of the machine -/

variable {registry : Registry} {s : Settings} {t : Token} {tokens : List Token}

/-- If the token stands for a symbol, the symbol draws nothing. -/
def Token.Still (registry : Registry) (t : Token) : Prop :=
  t.kind = .operator ∨ t.kind = .function →
    ∀ entry, registry.lookup t.text = .ok entry → entry.action.IsStill

/-- A built-in symbol other than the one that draws. -/
theorem Token.still_builtin (h : t.text ≠ randomSymbol) : t.Still .builtin := by
  intro _ entry hentry
  obtain ⟨hmem, htext⟩ := Registry.mem_of_lookup hentry
  obtain ⟨operation, haction, hrandom⟩ := exists_operation entry hmem
  rw [haction]
  refine Operation.action_isStill fun hoperation => h ?_
  rw [← htext, hrandom hoperation]

namespace Machine

theorem step_isStill (still : t.Still registry) (stack : List Value) :
    (step registry s stack t).IsStill := by
  by_cases hnumber : t.kind = .number
  · rw [step_number hnumber]
    exact isStill_still _
  by_cases hsymbol : t.kind = .operator ∨ t.kind = .function
  · rw [step_symbol hsymbol]
    refine (isStill_still _).bind fun entry hentry => ?_
    have hlookup := Except.mapError_eq_ok.mp (Drawing.yields_still.mp hentry)
    rw [apply]
    split
    · exact isStill_still _
    · exact ((still hsymbol entry hlookup _ s).mapError _).map _
  · rw [step_unexpected hnumber hsymbol]
    exact isStill_still _

theorem run_isStill (still : ∀ t ∈ tokens, t.Still registry) : ∀ stack : List Value,
    (run registry s stack tokens).IsStill := by
  induction tokens with
  | nil => exact fun _ => isStill_still _
  | cons t tokens ih =>
      intro stack
      obtain ⟨ht, hrest⟩ := List.forall_mem_cons.mp still
      rw [run_cons]
      exact (step_isStill ht stack).bind fun stack _ => ih hrest stack

theorem evaluate_isStill (still : ∀ t ∈ tokens, t.Still registry) :
    (evaluate registry s tokens).IsStill :=
  (run_isStill still []).bind fun _ _ => isStill_still _

end Machine

/-! ## Expressions -/

namespace Calculator

variable {c : Calculator} {vars : Variables} {text : List Char}
  {valueOf : List Char → Drawing Failure Number}

/-- **An expression that does not draw**: none of its symbols does. -/
def Still (c : Calculator) (text : List Char) : Prop :=
  ∀ tokens, c.tokenize text = .ok tokens → ∀ t ∈ tokens, t.Still c.registry

/-- With the built-in symbols this is so if the random integer is not among them. -/
theorem still_of_builtin (builtin : c.registry = .builtin) {tokens : List Token}
    (h : c.tokenize text = .ok tokens) (without : ∀ t ∈ tokens, t.text ≠ randomSymbol) :
    c.Still text := by
  intro tokens' h' t ht
  obtain rfl := Except.ok.inj (h.symm.trans h')
  rw [builtin]
  exact Token.still_builtin (without t ht)

/-- Nothing that is met draws if the text does not and none of its variables is bound to an
expression. -/
theorem still_of_meets (builtin : c.registry = .builtin) {tokens : List Token}
    (h : c.tokenize text = .ok tokens) (without : ∀ t ∈ tokens, t.text ≠ randomSymbol)
    (unbound : ∀ name ∈ tokens.map Token.text, name ∉ vars.expressions.map Prod.fst) :
    ∀ e, c.Meets vars text e → c.Still e := by
  intro e met
  have itself : e = text := met.eq_of_unbound fun name definition occurs bound =>
    unbound name (occurs.mem_texts h)
      (List.mem_map.mpr ⟨_, Variables.mem_expressions_of_find? bound, rfl⟩)
  rw [itself]
  exact still_of_builtin builtin h without

/-- **Neither substitution nor reordering brings in a symbol.** -/
theorem mem_of_reversePolishWith {out : List Token}
    (h : (c.reversePolishWith valueOf text).Yields out) (ht : t ∈ out)
    (hsymbol : t.kind = .operator ∨ t.kind = .function) :
    ∃ tokens, c.tokenize text = .ok tokens ∧ t ∈ tokens := by
  obtain ⟨tokens, replaced, htokens, hreplaced, hreorder⟩ := reversePolishWith_inv h
  refine ⟨tokens, htokens, ?_⟩
  obtain ⟨u, hu, htoken⟩ :=
    exists_of_mem_substitute hreplaced t (ReversePolish.reorder_subset hreorder t ht)
  rcases substituteToken_cases htoken with ⟨rfl, -⟩ | ⟨-, hnumber⟩
  · exact hu
  · rw [hnumber] at hsymbol
    rcases hsymbol with h | h <;> cases h

theorem substitute_isStill {tokens : List Token}
    (h : ∀ name, Token.reference name ∈ tokens → (valueOf name).IsStill) :
    (c.substitute valueOf tokens).IsStill := by
  induction tokens with
  | nil => exact isStill_still _
  | cons t tokens ih =>
      have htoken : (c.substituteToken valueOf t).IsStill := by
        obtain ⟨kind, name⟩ := t
        cases kind with
        | reference => exact (h name List.mem_cons_self).map _
        | _ => exact isStill_still _
      rw [substitute_cons]
      exact htoken.bind fun _ _ =>
        (ih fun name hname => h name (List.mem_cons_of_mem t hname)).map _

theorem reversePolishWith_isStill (h : ∀ name, c.Occurs text name → (valueOf name).IsStill) :
    (c.reversePolishWith valueOf text).IsStill :=
  (isStill_still _).bind fun tokens htokens =>
    (substitute_isStill fun name hname =>
      h name ⟨tokens, Drawing.yields_still.mp htokens, hname⟩).bind fun _ _ => isStill_still _

theorem still_of_reversePolishWith (still : c.Still text) {out : List Token}
    (h : (c.reversePolishWith valueOf text).Yields out) : ∀ t ∈ out, t.Still c.registry := by
  intro t ht hsymbol
  obtain ⟨tokens, htokens, hmem⟩ := mem_of_reversePolishWith h ht hsymbol
  exact still tokens htokens t hmem hsymbol

/-- **The evaluation of a still expression draws nothing**, if the values of its variables do not. -/
theorem evaluateWith_isStill (still : c.Still text)
    (h : ∀ name, c.Occurs text name → (valueOf name).IsStill) :
    (c.evaluateWith valueOf text).IsStill := by
  rw [evaluateWith]
  split
  · exact isStill_still _
  · exact (reversePolishWith_isStill h).bind fun out hout =>
      Machine.evaluate_isStill (still_of_reversePolishWith still hout)

/-- **The value of a variable draws nothing** if all expressions that are met are still. -/
theorem valueAt_isStill (still : ∀ e, c.Meets vars text e → c.Still e) (request : Request) :
    ∀ {e : List Char}, c.Meets vars text e → c.Occurs e request.name →
      (c.valueAt vars request.chain request.name).IsStill := by
  induction request using (calls_wellFounded c vars).induction with
  | _ request ih =>
      intro e met occurs
      rw [valueAt_eq, valueWith]
      cases bound : vars.find? request.name with
      | none => exact isStill_still _
      | some binding =>
          cases binding with
          | number x => exact isStill_still _
          | expression definition =>
              dsimp only
              split
              · exact isStill_still _
              · rename_i new
                have met' := met.through occurs bound
                refine (evaluateWith_isStill (still definition met') fun target occurs' => ?_).map _
                exact ih _ (.expression bound new occurs') met' occurs'

theorem resolve_isStill (still : ∀ e, c.Meets vars text e → c.Still e) {name : List Char}
    (occurs : c.Occurs text name) : (c.resolve vars name).IsStill := by
  rw [resolve_eq]
  exact valueAt_isStill still ⟨[], name⟩ .itself occurs

/-- **An evaluation draws nothing** if all expressions that it meets are still. -/
theorem compute_isStill (still : ∀ e, c.Meets vars text e → c.Still e) :
    (c.compute text vars).IsStill :=
  evaluateWith_isStill (still text .itself) fun _ => resolve_isStill still

end Calculator

end DecimalCalc
