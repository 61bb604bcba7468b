import DecimalCalc.Proofs.Rebinding

/-!
# Variables that do not matter

A text reaches the names that it refers to, and those that their expressions refer to in turn
(`Calculator.Reaches`). Two evaluations of a text over variables that agree on what the text reaches
are the same evaluation (`Calculator.evaluate_congr`). They make the same requests, for nothing else
is asked for on the way, however it ends. What the other names are bound to is never looked at, so
it may be unreadable, refer to undefined names or be cyclic.
-/

set_option autoImplicit false

namespace DecimalCalc

namespace Calculator

variable {c : Calculator} {vars vars' : Variables} {text name target : List Char}

/-- **The names that a text reaches**: those it refers to, and those that the expressions of reached
names refer to. -/
inductive Reaches (c : Calculator) (vars : Variables) (text : List Char) : List Char → Prop
  | occurs {name : List Char} (occurs : c.Occurs text name) : Reaches c vars text name
  | through {name target : List Char} (reaches : Reaches c vars text name)
      (refers : c.Refers vars name target) : Reaches c vars text target

/-- **Variables that agree on what a text reaches**, also on what of it is undefined. -/
def AgreeFor (c : Calculator) (text : List Char) (vars vars' : Variables) : Prop :=
  ∀ name, c.Reaches vars text name → vars.find? name = vars'.find? name

theorem Refers.of_find?_eq (h : c.Refers vars name target)
    (hfind : vars.find? name = vars'.find? name) : c.Refers vars' name target := by
  obtain ⟨definition, bound, occurs⟩ := h
  exact ⟨definition, hfind ▸ bound, occurs⟩

theorem Reaches.of_agree (agree : c.AgreeFor text vars vars') (h : c.Reaches vars text name) :
    c.Reaches vars' text name := by
  induction h with
  | occurs occurs => exact .occurs occurs
  | through reaches refers ih => exact .through ih (refers.of_find?_eq (agree _ reaches))

/-- What is reached over the other variables was reached already. -/
theorem Reaches.of_agree' (agree : c.AgreeFor text vars vars') (h : c.Reaches vars' text name) :
    c.Reaches vars text name := by
  induction h with
  | occurs occurs => exact .occurs occurs
  | through _ refers ih => exact .through ih (refers.of_find?_eq (agree _ ih).symm)

theorem reaches_iff (agree : c.AgreeFor text vars vars') :
    c.Reaches vars text name ↔ c.Reaches vars' text name :=
  ⟨.of_agree agree, .of_agree' agree⟩

/-- **An evaluation asks for reached names only.** -/
theorem Reached.reaches {request : Request} (h : c.Reached vars text request) :
    c.Reaches vars text request.name := by
  induction h with
  | start occurs => exact .occurs occurs
  | next _ call ih => exact .through ih call.refers

/-- The values over one of two agreeing variables solve the recursion over the other one, on the
requests that the text leads to. -/
theorem valueAt_solves (agree : c.AgreeFor text vars vars') {chain : List (List Char)}
    (reached : c.Reached vars text ⟨chain, name⟩) :
    c.valueAt vars' chain name = c.valueWith vars (c.valueAt vars') chain name := by
  have hfind : vars.find? name = vars'.find? name := agree name reached.reaches
  rw [valueAt_eq, valueWith, valueWith, hfind]

theorem compute_congr (agree : c.AgreeFor text vars vars') :
    c.compute text vars = c.compute text vars' := by
  calc c.compute text vars
      = c.evaluateWith (c.valueAt vars' []) text :=
        compute_unique fun _ _ reached => valueAt_solves agree reached
    _ = c.compute text vars' := by rw [compute, resolve_eq]

theorem evaluate_congr (agree : c.AgreeFor text vars vars') :
    c.evaluate text vars = c.evaluate text vars' := by
  rw [evaluate, evaluate, compute_congr agree]

/-- Binding a name that is not reached changes no evaluation. -/
theorem evaluate_bind_of_not_reaches (h : ¬c.Reaches vars text name) (binding : Binding) :
    c.evaluate text (vars.bind name binding) = c.evaluate text vars := by
  refine (evaluate_congr fun other reaches => ?_).symm
  have hne : other ≠ name := by
    rintro rfl
    exact h reaches
  rw [Variables.find?_bind, if_neg hne]

/-- **Unreachable variables do not matter.** Over two variables that agree on all names that a text
reaches, also on which of them are undefined, the text has the same value, or fails in the same way;
and over both it reaches the same names. Nothing is asked of the bindings of other names. -/
theorem evaluate_unreached (c : Calculator) (text : List Char) (vars vars' : Variables)
    (agree : ∀ name, c.Reaches vars text name → vars.find? name = vars'.find? name) :
    c.evaluate text vars = c.evaluate text vars' ∧
      ∀ name, c.Reaches vars text name ↔ c.Reaches vars' text name :=
  ⟨evaluate_congr agree, fun _ => reaches_iff agree⟩

/-- Where `a` is `2b` and `b` is three, `a+y` asks for `y` in vain. It does so too beside a `u` that
is cyclic, a `v` that is not read and a `w` that asks for an undefined `z`. -/
theorem evaluate_unreached_beside_cycle :
    let vars : Variables := .ofList [(['a'], .expression "2b".toList),
      (['b'], .number (.finite ⟨false, 3, 0⟩))]
    let vars' : Variables := .ofList [(['u'], .expression "u+1".toList),
      (['v'], .expression ")(".toList), (['b'], .number (.finite ⟨false, 3, 0⟩)),
      (['w'], .expression "z".toList), (['a'], .expression "2b".toList)]
    ({} : Calculator).evaluate "a+y".toList vars = .error (.fault (.undefinedVariable ['y'])) ∧
      ({} : Calculator).evaluate "a+y".toList vars =
        ({} : Calculator).evaluate "a+y".toList vars' := by
  intro vars vars'
  have hreached : ∀ name, ({} : Calculator).Reaches vars "a+y".toList name →
      name ∈ [['a'], ['+'], ['y'], ['2'], ['*'], ['b']] := by
    intro name h
    induction h with
    | occurs occurs =>
        have htokens : ({} : Calculator).tokenize "a+y".toList =
            .ok [.reference ['a'], .operator ['+'], .reference ['y']] := by decide +kernel
        exact List.mem_append_left [['2'], ['*'], ['b']] (occurs.mem_texts htokens)
    | @through name target _ refers _ =>
        obtain ⟨definition, bound, occurs⟩ := refers
        have hmem : (name, definition) ∈ [(['a'], "2b".toList)] :=
          Variables.mem_expressions_of_find? bound
        obtain ⟨rfl, rfl⟩ := Prod.mk.inj (List.mem_singleton.mp hmem)
        have htokens : ({} : Calculator).tokenize "2b".toList =
            .ok [.number ['2'], .operator ['*'], .reference ['b']] := by decide +kernel
        exact List.mem_append_right [['a'], ['+'], ['y']] (occurs.mem_texts htokens)
  refine ⟨by decide +kernel, (evaluate_unreached {} _ vars vars' fun name h => ?_).1⟩
  have hall : ∀ name ∈ [['a'], ['+'], ['y'], ['2'], ['*'], ['b']],
      vars.find? name = vars'.find? name := by decide
  exact hall name (hreached name h)

end Calculator

end DecimalCalc
