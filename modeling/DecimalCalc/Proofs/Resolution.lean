import DecimalCalc.Proofs.ReferenceGraph
import Mathlib.Data.Finset.Card
import Mathlib.Data.List.Perm.Subperm

/-!
# How variables are resolved

A variable that is bound to an expression has the value of the expression, and is not asked for
again while that is computed: the chain of the names whose expressions are being evaluated goes from
one request for a value to the next (`Calculator.Calls`). Each call puts a name on the chain that
was not on it, so fewer names remain, and the requests come to an end. `Calculator.valueOf` counts a
depth down instead. Where no more names remain than it has left to count, the count does not matter
(`Calculator.valueOf_stable`). So the values solve the recursion without any count
(`Calculator.valueAt_eq`), and on the requests that a text leads to it has no other solution
(`Calculator.compute_unique`).

From there on all is proved along the calls: a variable that has a value is grounded, and a cyclic
reference that is reported is a chain of references that comes back to itself.
-/

set_option autoImplicit false

namespace DecimalCalc

open Relation (ReflTransGen TransGen)

/-! ## Names that remain -/

namespace Variables

variable {vars : Variables} {name text : List Char} {chain : List (List Char)}

theorem mem_expressions :
    (name, text) ∈ vars.expressions ↔ (name, Binding.expression text) ∈ vars.bindings := by
  rw [expressions, List.mem_filterMap]
  constructor
  · rintro ⟨⟨name', binding⟩, hmem, heq⟩
    cases binding with
    | number x => cases heq
    | expression text' =>
        obtain ⟨rfl, rfl⟩ := Prod.mk.inj (Option.some.inj heq)
        exact hmem
  · exact fun hmem => ⟨_, hmem, rfl⟩

theorem mem_expressions_of_find? (h : vars.find? name = some (.expression text)) :
    (name, text) ∈ vars.expressions := by
  obtain ⟨before, after, heq, _⟩ := List.lookup_eq_some_iff.mp h
  rw [mem_expressions, heq]
  simp

/-- How many names of expressions are not on a chain. -/
def remaining (vars : Variables) (chain : List (List Char)) : Nat :=
  ((vars.expressions.map Prod.fst).toFinset \ chain.toFinset).card

theorem remaining_nil_le (vars : Variables) : vars.remaining [] ≤ vars.expressions.length := by
  calc vars.remaining []
      ≤ (vars.expressions.map Prod.fst).toFinset.card := Finset.card_le_card Finset.sdiff_subset
    _ ≤ (vars.expressions.map Prod.fst).length := List.toFinset_card_le _
    _ = vars.expressions.length := List.length_map _

/-- Fewer names remain when one more is put on the chain. -/
theorem remaining_lt (bound : vars.find? name = some (.expression text)) (new : name ∉ chain) :
    vars.remaining (chain ++ [name]) < vars.remaining chain := by
  have hname : name ∈ vars.expressions.map Prod.fst :=
    List.mem_map.mpr ⟨_, mem_expressions_of_find? bound, rfl⟩
  have hsub : (vars.expressions.map Prod.fst).toFinset \ (chain ++ [name]).toFinset ⊆
      (vars.expressions.map Prod.fst).toFinset \ chain.toFinset := by
    refine Finset.sdiff_subset_sdiff (Finset.Subset.refl _) fun other hother => ?_
    exact List.mem_toFinset.mpr (List.mem_append_left _ (List.mem_toFinset.mp hother))
  refine Finset.card_lt_card ((Finset.ssubset_iff_of_subset hsub).mpr ⟨name, ?_, ?_⟩)
  · exact Finset.mem_sdiff.mpr ⟨List.mem_toFinset.mpr hname, by simpa using new⟩
  · simp

end Variables

namespace Calculator

variable {c : Calculator} {vars : Variables} {text name : List Char} {chain : List (List Char)}

/-! ## Requests -/

/-- A request for the value of a variable while the expressions of `chain` are evaluated. -/
structure Request where
  chain : List (List Char)
  name : List Char

/-- **A request leads to another one** if the expression that the variable is bound to is evaluated,
and refers to another variable. -/
inductive Calls (c : Calculator) (vars : Variables) : Request → Request → Prop
  | expression {chain : List (List Char)} {name definition target : List Char}
      (bound : vars.find? name = some (.expression definition)) (new : name ∉ chain)
      (occurs : c.Occurs definition target) : Calls c vars ⟨chain ++ [name], target⟩ ⟨chain, name⟩

/-- **The requests that the evaluation of a text leads to.** -/
inductive Reached (c : Calculator) (vars : Variables) (text : List Char) : Request → Prop
  | start {name : List Char} (occurs : c.Occurs text name) : Reached c vars text ⟨[], name⟩
  | next {inner outer : Request} (reached : Reached c vars text outer)
      (call : c.Calls vars inner outer) : Reached c vars text inner

theorem Calls.remaining_lt {inner outer : Request} (h : c.Calls vars inner outer) :
    vars.remaining inner.chain < vars.remaining outer.chain := by
  cases h with
  | expression bound new _ => exact Variables.remaining_lt bound new

/-- **Calls come to an end.** -/
theorem calls_wellFounded (c : Calculator) (vars : Variables) : WellFounded (c.Calls vars) :=
  Subrelation.wf (fun h => h.remaining_lt)
    (measure fun request : Request => vars.remaining request.chain).wf

theorem Calls.refers {inner outer : Request} (h : c.Calls vars inner outer) :
    c.Refers vars outer.name inner.name := by
  cases h with
  | expression bound _ occurs => exact ⟨_, bound, occurs⟩

/-! ## Chains -/

/-- **Each name of a chain refers to the next**, and the last one to the name that is asked for. -/
theorem Reached.linked {request : Request} (h : c.Reached vars text request) :
    (request.chain ++ [request.name]).IsChain (c.Refers vars) := by
  induction h with
  | start occurs => exact List.isChain_singleton _
  | @next inner outer _ call ih =>
      have hrefers := call.refers
      cases call with
      | expression _ _ _ => exact isChain_concat ih hrefers

/-- The text refers to the first name of a chain. -/
theorem Reached.first {request : Request} (h : c.Reached vars text request) :
    ∀ first ∈ (request.chain ++ [request.name]).head?, c.Occurs text first := by
  induction h with
  | start occurs =>
      intro first hfirst
      obtain rfl := Option.some.inj hfirst
      exact occurs
  | next _ call ih =>
      cases call with
      | expression _ _ _ =>
          rwa [List.head?_append_of_ne_nil _ (by simp)]

/-- **The names of a chain are different.** -/
theorem Reached.once {request : Request} (h : c.Reached vars text request) :
    request.chain.Nodup := by
  induction h with
  | start _ => exact List.nodup_nil
  | next _ call ih =>
      cases call with
      | expression _ new _ => exact nodup_concat ih new

/-- **The names of a chain are bound to expressions.** -/
theorem Reached.expressions {request : Request} (h : c.Reached vars text request) :
    ∀ name ∈ request.chain, ∃ definition, vars.find? name = some (.expression definition) := by
  intro name hname
  obtain ⟨target, definition, bound, _⟩ := exists_of_isChain h.linked name hname
  exact ⟨definition, bound⟩

theorem Reached.length_le {request : Request} (h : c.Reached vars text request) :
    request.chain.length ≤ vars.expressions.length := by
  have hsub : request.chain ⊆ vars.expressions.map Prod.fst := by
    intro name hname
    obtain ⟨definition, bound⟩ := h.expressions name hname
    exact List.mem_map.mpr ⟨_, Variables.mem_expressions_of_find? bound, rfl⟩
  calc request.chain.length
      ≤ (vars.expressions.map Prod.fst).length := (h.once.subperm hsub).length_le
    _ = vars.expressions.length := List.length_map _

/-! ## Evaluating with the values of variables -/

section Values

variable {valueOf valueOf' : List Char → Drawing Failure Number}

theorem substitute_congr {tokens : List Token}
    (h : ∀ name, Token.reference name ∈ tokens → valueOf name = valueOf' name) :
    c.substitute valueOf tokens = c.substitute valueOf' tokens := by
  induction tokens with
  | nil => rfl
  | cons t tokens ih =>
      have htoken : c.substituteToken valueOf t = c.substituteToken valueOf' t := by
        obtain ⟨kind, name⟩ := t
        cases kind with
        | reference =>
            show (valueOf name).map _ = (valueOf' name).map _
            rw [h name List.mem_cons_self]
        | _ => rfl
      rw [substitute_cons, substitute_cons, htoken,
        ih fun name hname => h name (List.mem_cons_of_mem t hname)]

/-- **An evaluation asks only for the variables that the text refers to.** -/
theorem evaluateWith_congr (h : ∀ name, c.Occurs text name → valueOf name = valueOf' name) :
    c.evaluateWith valueOf text = c.evaluateWith valueOf' text := by
  have hpolish : c.reversePolishWith valueOf text = c.reversePolishWith valueOf' text := by
    rw [reversePolishWith, reversePolishWith]
    cases htokens : c.tokenize text with
    | error failure => rfl
    | ok tokens =>
        show (c.substitute valueOf tokens).bind _ = (c.substitute valueOf' tokens).bind _
        rw [substitute_congr fun name hname => h name ⟨tokens, htokens, hname⟩]
  rw [evaluateWith, evaluateWith, hpolish]

/-- An evaluation that succeeds has asked for all of them. -/
theorem exists_value_of_occurs {x : Scalar} (h : (c.evaluateWith valueOf text).Yields x)
    (occurs : c.Occurs text name) : ∃ y, (valueOf name).Yields y := by
  rw [evaluateWith, occurs.not_blank] at h
  obtain ⟨tokens, htokens, hmem⟩ := occurs
  obtain ⟨polish, hpolish, _⟩ := h.of_bind
  obtain ⟨tokens', replaced, htokens', hreplaced, _⟩ := reversePolishWith_inv hpolish
  obtain rfl := Except.ok.inj (htokens.symm.trans htokens')
  obtain ⟨t, ht⟩ := exists_substituteToken_of_mem hreplaced _ hmem
  obtain ⟨y, hy, _⟩ := Drawing.yields_map.mp ht
  exact ⟨y, hy⟩

end Values

/-! ## The recursion without a count of its depth -/

/-- The value of a variable, where `valueOf` gives the values of the others for the chain that goes
on with it. -/
def valueWith (c : Calculator) (vars : Variables)
    (valueOf : List (List Char) → List Char → Drawing Failure Number)
    (chain : List (List Char)) (name : List Char) : Drawing Failure Number :=
  match vars.find? name with
  | none => .error (.fault (.undefinedVariable name))
  | some (.number x) => .ok x
  | some (.expression text) =>
    if name ∈ chain then .error (.fault (.cyclicReference (chain ++ [name])))
    else (c.evaluateWith (valueOf (chain ++ [name])) text).map Scalar.number

section Recursion

variable {valueOf valueOf' : List (List Char) → List Char → Drawing Failure Number}

/-- A value depends on those that are called for. -/
theorem valueWith_congr
    (h : ∀ target, c.Calls vars ⟨chain ++ [name], target⟩ ⟨chain, name⟩ →
      valueOf (chain ++ [name]) target = valueOf' (chain ++ [name]) target) :
    c.valueWith vars valueOf chain name = c.valueWith vars valueOf' chain name := by
  rw [valueWith, valueWith]
  cases bound : vars.find? name with
  | none => rfl
  | some binding =>
      cases binding with
      | number x => rfl
      | expression definition =>
          dsimp only
          split
          · rfl
          · rename_i new
            rw [evaluateWith_congr fun target occurs => h target (.expression bound new occurs)]

/-- A variable with a value is bound, and so have all that it refers to a value. -/
theorem valueWith_yields {x : Number} (h : (c.valueWith vars valueOf chain name).Yields x) :
    vars.find? name ≠ none ∧ ∀ target, c.Refers vars name target →
      c.Calls vars ⟨chain ++ [name], target⟩ ⟨chain, name⟩ ∧
        ∃ y, (valueOf (chain ++ [name]) target).Yields y := by
  rw [valueWith] at h
  cases bound : vars.find? name with
  | none =>
      rw [bound] at h
      cases Drawing.yields_still.mp h
  | some binding =>
      refine ⟨Option.some_ne_none binding, ?_⟩
      rintro target ⟨definition, bound', occurs⟩
      obtain rfl := Option.some.inj (bound.symm.trans bound')
      rw [bound] at h
      by_cases new : name ∈ chain
      · simp only [new, if_true] at h
        cases Drawing.yields_still.mp h
      · simp only [new, if_false] at h
        obtain ⟨scalar, hvalue, _⟩ := Drawing.yields_map.mp h
        exact ⟨.expression bound new occurs, exists_value_of_occurs hvalue occurs⟩

/-- What is wrong with a value is wrong with one that is called for, unless the variable is
undefined or already on the chain, or its expression is not read or has no result. -/
theorem valueWith_fails {P : Failure → Prop} (hreading : ∀ e, e.OfReading c.lexicon.symbols → P e)
    (hcomputing : ∀ e, e.OfComputing → P e)
    (undefined : P (.fault (.undefinedVariable name)))
    (cyclic : name ∈ chain → P (.fault (.cyclicReference (chain ++ [name]))))
    (h : ∀ target, c.Calls vars ⟨chain ++ [name], target⟩ ⟨chain, name⟩ →
      (valueOf (chain ++ [name]) target).FailsWith P) :
    (c.valueWith vars valueOf chain name).FailsWith P := by
  rw [valueWith]
  cases bound : vars.find? name with
  | none => exact Drawing.failsWith_error undefined
  | some binding =>
      cases binding with
      | number x => exact Drawing.failsWith_ok x
      | expression definition =>
          dsimp only
          split
          · rename_i old
            exact Drawing.failsWith_error (cyclic old)
          · rename_i new
            have hdefinition :
                (c.evaluateWith (valueOf (chain ++ [name])) definition).FailsWith P := by
              refine evaluateWith_fails hreading hcomputing fun tokens target htokens hmem => ?_
              exact h target (.expression bound new ⟨tokens, htokens, hmem⟩)
            exact hdefinition.map _

end Recursion

/-! ## The values as its solution -/

/-- The depth is not used up as long as names remain. -/
theorem valueOf_eq_valueWith {depth : Nat} (h : vars.remaining chain ≤ depth) :
    c.valueOf vars depth chain name = c.valueWith vars (c.valueOf vars (depth - 1)) chain name := by
  rw [valueOf, valueWith]
  cases bound : vars.find? name with
  | none => rfl
  | some binding =>
      cases binding with
      | number x => rfl
      | expression definition =>
          by_cases new : name ∈ chain
          · simp [new]
          · cases depth with
            | zero =>
                have hlt := Variables.remaining_lt bound new
                omega
            | succ depth => simp [new]

/-- **More depth than names remain changes nothing.** -/
theorem valueOf_stable (request : Request) : ∀ {depth depth' : Nat},
    vars.remaining request.chain ≤ depth → vars.remaining request.chain ≤ depth' →
      c.valueOf vars depth request.chain request.name =
        c.valueOf vars depth' request.chain request.name := by
  induction request using (calls_wellFounded c vars).induction with
  | _ request ih =>
      intro depth depth' h h'
      rw [valueOf_eq_valueWith h, valueOf_eq_valueWith h']
      refine valueWith_congr fun target call => ?_
      have hlt : vars.remaining (request.chain ++ [request.name]) <
        vars.remaining request.chain := call.remaining_lt
      exact ih _ call (by dsimp only; omega) (by dsimp only; omega)

/-- The value of a variable for a chain. -/
def valueAt (c : Calculator) (vars : Variables) (chain : List (List Char)) (name : List Char) :
    Drawing Failure Number :=
  c.valueOf vars (vars.remaining chain) chain name

/-- **The values solve the recursion** that has no count of its depth. -/
theorem valueAt_eq (c : Calculator) (vars : Variables) (chain : List (List Char))
    (name : List Char) :
    c.valueAt vars chain name = c.valueWith vars (c.valueAt vars) chain name := by
  rw [valueAt, valueOf_eq_valueWith (Nat.le_refl _)]
  refine valueWith_congr fun target call => ?_
  have hlt : vars.remaining (chain ++ [name]) < vars.remaining chain := call.remaining_lt
  exact valueOf_stable ⟨chain ++ [name], target⟩ (by dsimp only; omega) (Nat.le_refl _)

theorem resolve_eq (c : Calculator) (vars : Variables) : c.resolve vars = c.valueAt vars [] := by
  funext name
  exact valueOf_stable ⟨[], name⟩ vars.remaining_nil_le (Nat.le_refl _)

/-- **The recursion has no other solution**: whatever solves it for the requests that a text leads
to gives the value of the text. -/
theorem compute_unique {valueOf : List (List Char) → List Char → Drawing Failure Number}
    (h : ∀ chain name, c.Reached vars text ⟨chain, name⟩ →
      valueOf chain name = c.valueWith vars valueOf chain name) :
    c.compute text vars = c.evaluateWith (valueOf []) text := by
  have hvalue : ∀ request : Request, c.Reached vars text request →
      c.valueAt vars request.chain request.name = valueOf request.chain request.name := by
    intro request
    induction request using (calls_wellFounded c vars).induction with
    | _ request ih =>
        intro reached
        rw [valueAt_eq, h _ _ reached]
        exact valueWith_congr fun target call => ih _ call (.next reached call)
  rw [compute, resolve_eq]
  exact evaluateWith_congr fun name occurs => hvalue ⟨[], name⟩ (.start occurs)

/-! ## Values and failures -/

/-- **A variable with a value is grounded.** -/
theorem grounded_of_valueAt (request : Request) : ∀ {x : Number},
    (c.valueAt vars request.chain request.name).Yields x → c.Grounded vars request.name := by
  induction request using (calls_wellFounded c vars).induction with
  | _ request ih =>
      intro x h
      rw [valueAt_eq] at h
      obtain ⟨bound, htargets⟩ := valueWith_yields h
      refine grounded_intro bound fun target hrefers => ?_
      obtain ⟨call, y, hvalue⟩ := htargets target hrefers
      exact ih _ call hvalue

/-- **What a text with a value refers to is grounded.** -/
theorem grounded_of_compute {x : Scalar} (h : (c.compute text vars).Yields x)
    (occurs : c.Occurs text name) : c.Grounded vars name := by
  rw [compute, resolve_eq] at h
  obtain ⟨y, hvalue⟩ := exists_value_of_occurs h occurs
  exact grounded_of_valueAt ⟨[], name⟩ hvalue

/-- **What is reported of the variables of a text**: a cyclic reference is a chain that the text
refers to and that comes back to itself, and the reading of an expression makes progress, unless the
empty text is a symbol. -/
def Reported (c : Calculator) (vars : Variables) (text : List Char) : Failure → Prop
  | .fault (.cyclicReference chain) =>
    Lasso (c.Refers vars) chain ∧ ∀ first ∈ chain.head?, c.Occurs text first
  | .stalled _ => [] ∈ c.registry.symbols
  | _ => True

theorem reported_of_reading {failure : Failure} (h : failure.OfReading c.lexicon.symbols) :
    c.Reported vars text failure := by
  match failure, h with
  | .fault (.unreadable _ _), _ => exact trivial
  | .fault (.misplacedFactorial _), _ => exact trivial
  | .stalled _, h =>
      refine (List.mem_append.mp h).resolve_right ?_
      simp [lexicon, Constant.names]

theorem reported_of_computing {failure : Failure} (h : failure.OfComputing) :
    c.Reported vars text failure := by
  cases failure with
  | signal _ => exact trivial
  | stalled _ => exact False.elim h
  | fault cause => cases cause <;> first | exact trivial | exact False.elim h

theorem valueAt_fails (request : Request) (reached : c.Reached vars text request) :
    (c.valueAt vars request.chain request.name).FailsWith (c.Reported vars text) := by
  induction request using (calls_wellFounded c vars).induction with
  | _ request ih =>
      rw [valueAt_eq]
      refine valueWith_fails (fun _ => reported_of_reading) (fun _ => reported_of_computing)
        trivial (fun old => ?_) fun target call => ih _ call (.next reached call)
      exact ⟨lasso_concat reached.linked reached.once old, reached.first⟩

/-- **An evaluation reports cyclic references only.** -/
theorem compute_fails (c : Calculator) (vars : Variables) (text : List Char) :
    (c.compute text vars).FailsWith (c.Reported vars text) := by
  rw [compute, resolve_eq]
  refine evaluateWith_fails (fun _ => reported_of_reading) (fun _ => reported_of_computing) ?_
  exact fun tokens name htokens hmem => valueAt_fails ⟨[], name⟩ (.start ⟨tokens, htokens, hmem⟩)

/-- **Resolving variables ends, and reports cycles faithfully.** No request calls for others without
end. The chain of a request that a text leads to holds different names of expressions, so never more
than there are. The recursion without a count of its depth has a solution, and any solution for
these requests gives the value of the text, whose reading makes progress unless the empty text is a
symbol. If the text has a value, all variables that it leads to are bound, and none of them leads
back to itself. A cyclic reference that is reported is a chain of references from the text on, with
different names except for the last, which is one of them. -/
theorem evaluate_resolves (c : Calculator) (vars : Variables) (text : List Char) :
    WellFounded (c.Calls vars) ∧
      (∀ request, c.Reached vars text request → request.chain.Nodup ∧
        (∀ name ∈ request.chain, ∃ definition,
          vars.find? name = some (.expression definition)) ∧
        request.chain.length ≤ vars.expressions.length) ∧
      (∃ valueOf, ∀ chain name, valueOf chain name = c.valueWith vars valueOf chain name) ∧
      (∀ valueOf, (∀ chain name, c.Reached vars text ⟨chain, name⟩ →
          valueOf chain name = c.valueWith vars valueOf chain name) →
        c.compute text vars = c.evaluateWith (valueOf []) text) ∧
      (∀ position, c.evaluate text vars = .error (.stalled position) →
        [] ∈ c.registry.symbols) ∧
      (∀ x, c.evaluate text vars = .ok x → ∀ first name, c.Occurs text first →
        ReflTransGen (c.Refers vars) first name →
          vars.find? name ≠ none ∧ ¬TransGen (c.Refers vars) name name) ∧
      ∀ chain, c.evaluate text vars = .error (.fault (.cyclicReference chain)) →
        Lasso (c.Refers vars) chain ∧ ∀ first ∈ chain.head?, c.Occurs text first := by
  refine ⟨calls_wellFounded c vars, fun request h => ⟨h.once, h.expressions, h.length_le⟩,
    ⟨c.valueAt vars, c.valueAt_eq vars⟩, fun valueOf => compute_unique,
    fun position => c.compute_fails vars text _ _, ?_, fun chain => c.compute_fails vars text _ _⟩
  intro x h first name occurs hreach
  have hgrounded := (grounded_of_compute (Drawing.yields_of_outcome h) occurs).of_reaches hreach
  exact ⟨hgrounded.bound name .refl, hgrounded.not_cyclic⟩

/-- Where `a` is `b+1` and `b` is `2a`, evaluating `3a` reports the chain of `a`, `b` and `a`. Where
`b` is three, `2a` has a value, and its `a` does not lead back to itself. -/
theorem evaluate_resolves_pair :
    Lasso (({} : Calculator).Refers
        (.ofList [(['a'], .expression "b+1".toList), (['b'], .expression "2a".toList)]))
        [['a'], ['b'], ['a']] ∧
      ¬TransGen (({} : Calculator).Refers
        (.ofList [(['a'], .expression "b+1".toList), (['b'], .number (.finite ⟨false, 3, 0⟩))]))
        ['a'] ['a'] := by
  have hcycle := evaluate_resolves {}
    (.ofList [(['a'], .expression "b+1".toList), (['b'], .expression "2a".toList)]) "3a".toList
  have hvalue := evaluate_resolves {}
    (.ofList [(['a'], .expression "b+1".toList), (['b'], .number (.finite ⟨false, 3, 0⟩))])
    "2a".toList
  have occurs : ({} : Calculator).Occurs "2a".toList ['a'] :=
    ⟨[.number ['2'], .operator ['*'], .reference ['a']], by decide +kernel, by decide⟩
  refine ⟨(hcycle.2.2.2.2.2.2 _ (by decide +kernel)).1, ?_⟩
  exact (hvalue.2.2.2.2.2.1 ⟨.finite ⟨false, 8, 0⟩, none⟩ (by decide +kernel) _ _ occurs .refl).2

end Calculator

end DecimalCalc
