import DecimalCalc.Proofs.StillRuns

/-!
# Lazy and eager binding

A variable that is bound to an expression is evaluated whenever it is met. Binding it to the value of
its expression beforehand makes no difference, as long as nothing is drawn on the way to this value
(`Calculator.evaluate_bind_value`). An expression that draws has another value whenever it is met
(`Calculator.evaluate_bind_random`).

The two ways differ in the chain of names that are being evaluated. On the lazy way the expression is
evaluated on whatever chain its variable is met, and a name on that chain may not be asked for again.
The names of a chain lead to the one that is asked for, though, and a variable with a value leads to
no cycle, so its expression asks for no name of the chain. Hence the chain does not matter
(`Calculator.valueAt_of_unreached`), and the value is always the one on the empty chain.
-/

set_option autoImplicit false

namespace DecimalCalc

open Relation (ReflTransGen TransGen)

namespace Variables

variable {name other : List Char} {binding : Binding}

theorem lookup_put (bindings : List (List Char × Binding)) :
    (put name binding bindings).lookup other =
      if other = name then some binding else bindings.lookup other := by
  induction bindings with
  | nil =>
      unfold put
      by_cases h : other = name
      · simp [h]
      · rw [List.lookup_cons, beq_false_of_ne h, if_neg h]
  | cons entry rest ih =>
      obtain ⟨old, kept⟩ := entry
      unfold put
      by_cases hold : old = name
      · by_cases h : other = name
        · simp [hold, h]
        · rw [if_pos hold, if_neg h, List.lookup_cons, List.lookup_cons, hold,
            beq_false_of_ne h]
      · by_cases h : other = old
        · simp [hold, h]
        · rw [if_neg hold, List.lookup_cons, List.lookup_cons, beq_false_of_ne h]
          exact ih

/-- A bound name has its new binding, and the others keep theirs. -/
theorem find?_bind (vars : Variables) :
    (vars.bind name binding).find? other =
      if other = name then some binding else vars.find? other :=
  lookup_put vars.bindings

end Variables

namespace Calculator

variable {c : Calculator} {vars : Variables} {name target definition : List Char}
  {chain chain' : List (List Char)} {v : Scalar}

/-- What is known of the chain on which a variable is asked for: all its names lead there. -/
def LeadTo (c : Calculator) (vars : Variables) (chain : List (List Char)) (name : List Char) :
    Prop :=
  ∀ earlier ∈ chain, TransGen (c.Refers vars) earlier name

theorem LeadTo.concat (h : c.LeadTo vars chain name) (refers : c.Refers vars name target) :
    c.LeadTo vars (chain ++ [name]) target := by
  intro earlier hearlier
  rcases List.mem_append.mp hearlier with hold | hlast
  · exact (h earlier hold).tail refers
  · obtain rfl := List.mem_singleton.mp hlast
    exact .single refers

/-- No name that leads to a grounded variable is reached from it. -/
theorem LeadTo.unreached (h : c.LeadTo vars chain name) (grounded : c.Grounded vars name) :
    ∀ earlier ∈ chain, ¬ReflTransGen (c.Refers vars) name earlier := by
  intro earlier hearlier hreach
  exact grounded.not_cyclic (TransGen.trans_right hreach (h earlier hearlier))

/-- **The value of a grounded variable depends on no chain** whose names are not reached from it. -/
theorem valueAt_of_unreached (grounded : c.Grounded vars name) :
    ∀ {chain chain' : List (List Char)},
      (∀ earlier ∈ chain, ¬ReflTransGen (c.Refers vars) name earlier) →
      (∀ earlier ∈ chain', ¬ReflTransGen (c.Refers vars) name earlier) →
        c.valueAt vars chain name = c.valueAt vars chain' name := by
  obtain ⟨hbound, hends⟩ := grounded
  induction hends with
  | intro name hafter ih =>
      intro chain chain' hchain hchain'
      have grounded : c.Grounded vars name := ⟨hbound, name, hafter⟩
      have hnew : name ∉ chain := fun hmem => hchain name hmem .refl
      have hnew' : name ∉ chain' := fun hmem => hchain' name hmem .refl
      rw [valueAt_eq, valueAt_eq, valueWith, valueWith]
      cases bound : vars.find? name with
      | none => rfl
      | some binding =>
          cases binding with
          | number x => rfl
          | expression definition =>
              simp only [hnew, hnew', if_false]
              congr 1
              refine evaluateWith_congr fun target occurs => ?_
              have refers : c.Refers vars name target := ⟨definition, bound, occurs⟩
              -- what the target reaches, the variable does, but never itself
              have hstill : ∀ {chain : List (List Char)},
                  (∀ earlier ∈ chain, ¬ReflTransGen (c.Refers vars) name earlier) →
                    ∀ earlier ∈ chain ++ [name], ¬ReflTransGen (c.Refers vars) target earlier := by
                intro chain hchain earlier hearlier hreach
                rcases List.mem_append.mp hearlier with hold | hlast
                · exact hchain earlier hold (.head refers hreach)
                · obtain rfl := List.mem_singleton.mp hlast
                  exact grounded.not_cyclic (.head' refers hreach)
              refine ih target refers (fun other hreach => ?_) (hstill hchain) (hstill hchain')
              exact hbound other (.head refers hreach)

section Bound

variable (bound : vars.find? name = some (.expression definition))
  (value : c.evaluate definition vars = .ok v)

include bound value

/-- A variable whose expression has a value is grounded. -/
theorem grounded_of_bound : c.Grounded vars name := by
  refine grounded_intro (by simp [bound]) ?_
  rintro target ⟨text, bound', occurs⟩
  obtain rfl : definition = text := by simpa [bound] using bound'
  exact grounded_of_compute (Drawing.yields_of_outcome value) occurs

/-- A variable whose expression has a value is on no chain that comes back to itself. -/
theorem not_mem_of_lasso (lasso : Lasso (c.Refers vars) chain) : name ∉ chain := by
  intro hmem
  have grounded := grounded_of_bound bound value
  obtain ⟨before, after, last, rfl, _⟩ := lasso.exists_eq_concat
  have hlinked := lasso.linked
  have hround : TransGen (c.Refers vars) last last :=
    transGen_of_isChain hlinked.right_of_append
  have hreach : ReflTransGen (c.Refers vars) name last := by
    by_cases hlast : name = last
    · exact hlast ▸ .refl
    · obtain ⟨front, rest, hsplit⟩ : ∃ front rest,
          before ++ last :: after = front ++ name :: rest := by
        refine List.append_of_mem ?_
        simpa [hlast] using hmem
      have hchain : before ++ last :: (after ++ [last]) = front ++ name :: (rest ++ [last]) := by
        simpa using congrArg (· ++ [last]) hsplit
      rw [hchain] at hlinked
      exact (transGen_of_isChain hlinked.right_of_append).to_reflTransGen
  exact (grounded.of_reaches hreach).not_cyclic hround

variable (still : ∀ e, c.Meets vars definition e → c.Still e)

include still

/-- **The value of the expression is that of its variable**, wherever this is met, if nothing is
drawn on the way. -/
theorem valueAt_eq_value (lead : c.LeadTo vars chain name) :
    c.valueAt vars chain name = .ok v.number := by
  have grounded := grounded_of_bound bound value
  have hcompute : c.compute definition vars = .ok v := by
    rw [(compute_isStill still).eq_still c.generator]
    exact congrArg Drawing.still value
  -- on an empty chain this is the value of the text, and a chain that is not met changes nothing
  have hempty : c.valueAt vars [] name = .ok v.number := by
    have hdefinition : c.evaluateWith (c.valueAt vars ([] ++ [name])) definition =
        c.evaluateWith (c.valueAt vars []) definition := by
      refine evaluateWith_congr fun target occurs => ?_
      have refers : c.Refers vars name target := ⟨definition, bound, occurs⟩
      have hlead : c.LeadTo vars ([] ++ [name]) target :=
        LeadTo.concat (fun _ hmem => absurd hmem List.not_mem_nil) refers
      have htarget := grounded.of_reaches (.single refers)
      exact valueAt_of_unreached htarget (hlead.unreached htarget)
        fun _ hmem => absurd hmem List.not_mem_nil
    rw [compute, resolve_eq] at hcompute
    rw [valueAt_eq, valueWith, bound]
    simp only [List.not_mem_nil, if_false]
    rw [hdefinition, hcompute]
    rfl
  rw [← hempty]
  exact valueAt_of_unreached grounded (lead.unreached grounded)
    fun _ hmem => absurd hmem List.not_mem_nil

/-- Every variable has the same value, or fails in the same way, whether or not another one is bound
to the value of its expression beforehand. -/
theorem valueAt_bind_value (request : Request) : c.LeadTo vars request.chain request.name →
    name ∉ request.chain → c.valueAt vars request.chain request.name =
      c.valueAt (vars.bind name (.number v.number)) request.chain request.name := by
  induction request using (calls_wellFounded c vars).induction with
  | _ request ih =>
      obtain ⟨chain, other⟩ := request
      intro lead hnew
      by_cases heq : other = name
      · subst heq
        rw [valueAt_eq_value bound value still lead, valueAt_eq, valueWith, Variables.find?_bind,
          if_pos rfl]
      · have hfind : (vars.bind name (.number v.number)).find? other = vars.find? other := by
          rw [Variables.find?_bind, if_neg heq]
        rw [valueAt_eq, valueAt_eq, valueWith, valueWith, hfind]
        cases hother : vars.find? other with
        | none => rfl
        | some binding =>
            cases binding with
            | number x => rfl
            | expression text =>
                by_cases hold : other ∈ chain
                · simp [hold]
                · simp only [hold, if_false]
                  congr 1
                  refine evaluateWith_congr fun target occurs => ?_
                  have refers : c.Refers vars other target := ⟨text, hother, occurs⟩
                  refine ih ⟨chain ++ [other], target⟩ (.expression hother hold occurs)
                    (lead.concat refers) ?_
                  simp [hnew, Ne.symm heq]

omit still in
/-- **Lazy and eager binding agree.** Let the expression that a variable is bound to have a value. If
no symbol that draws is met on the way to it, then every text has the same value, or fails in the
same way, when the variable is bound to that value beforehand. In any case the variable does not lead
back to itself, and is on no chain that an evaluation reports as cyclic. -/
theorem evaluate_bind_value (text : List Char) :
    ((∀ e, c.Meets vars definition e → c.Still e) →
      c.evaluate text vars = c.evaluate text (vars.bind name (.number v.number))) ∧
      ¬TransGen (c.Refers vars) name name ∧
      ∀ chain, c.evaluate text vars = .error (.fault (.cyclicReference chain)) →
        name ∉ chain := by
  refine ⟨fun still => ?_, (grounded_of_bound bound value).not_cyclic, fun chain hcyclic => ?_⟩
  · rw [evaluate, evaluate, compute, compute, resolve_eq, resolve_eq]
    refine congrArg (Drawing.outcome · c.generator) (evaluateWith_congr fun other _ => ?_)
    exact valueAt_bind_value bound value still ⟨[], other⟩
      (fun _ hmem => absurd hmem List.not_mem_nil) List.not_mem_nil
  · exact not_mem_of_lasso bound value (c.compute_fails vars text _ _ hcyclic).1

end Bound

/-- Where `x` is `y+1` and `y` is two, `a` is `2b` and `b` is `a+x`, the text `a` has the same cyclic
chain whether `x` is bound to its expression or to three, and `x` is not on it. -/
theorem evaluate_bind_value_beside_cycle :
    let vars : Variables := .ofList [(['x'], .expression "y+1".toList),
      (['y'], .number (.finite ⟨false, 2, 0⟩)), (['a'], .expression "2b".toList),
      (['b'], .expression "a+x".toList)]
    ({} : Calculator).evaluate ['a'] vars =
        .error (.fault (.cyclicReference [['a'], ['b'], ['a']])) ∧
      ({} : Calculator).evaluate ['a'] vars =
        ({} : Calculator).evaluate ['a'] (vars.bind ['x'] (.number (.finite ⟨false, 3, 0⟩))) := by
  intro vars
  refine ⟨by decide +kernel, ?_⟩
  have value : ({} : Calculator).evaluate "y+1".toList vars =
      .ok ⟨.finite ⟨false, 3, 0⟩, none⟩ := by decide +kernel
  have htokens : ({} : Calculator).tokenize "y+1".toList =
      .ok [.reference ['y'], .operator ['+'], .number ['1']] := by decide +kernel
  -- nothing is met but the definition itself, as `y` is bound to a number
  have still : ∀ e, ({} : Calculator).Meets vars "y+1".toList e → ({} : Calculator).Still e :=
    still_of_meets rfl htokens (by decide) (by decide)
  exact (evaluate_bind_value (by decide +kernel) value ['a']).1 still

/-- **A variable that draws has another value whenever it is met.** Where `x` is a random integer,
`x-x` draws twice, and zero can be divided by it. Where `x` is bound to what its expression has come
to, `x-x` is zero. -/
theorem evaluate_bind_random :
    let definition := "RandInt(1;10000000000000000000000000000000000000000)".toList
    let vars : Variables := .ofList [(['x'], .expression definition)]
    ∃ v, ({} : Calculator).evaluate definition vars = .ok v ∧
      ({} : Calculator).evaluate "0/abs(x-x)".toList vars = .ok ⟨.finite .zero, none⟩ ∧
      ({} : Calculator).evaluate "0/abs(x-x)".toList (vars.bind ['x'] (.number v.number)) =
        .error (.fault (.domain .divisionByZero)) := by
  intro definition vars
  refine ⟨⟨.finite ⟨false, 22013779310440, 0⟩, none⟩, ?_, ?_, ?_⟩ <;> decide +kernel

end Calculator

end DecimalCalc
