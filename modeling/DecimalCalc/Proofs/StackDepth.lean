import DecimalCalc.Proofs.Grammar
import DecimalCalc.Proofs.ReportedFailures
import Mathlib.Data.List.Forall2

/-!
# The depth of the operand stack

How deep the operand stack is does not depend on the values on it: a number lays one value on it, and
a symbol puts one value in the place of as many as its arity. So the depth is counted without them
(`depthAfter`), and **a run in which no literal and no operation goes wrong ends as the count says**
(`evaluate_depth`): where a symbol has too few operands it stops, and unless a single value is left in
the end there is no answer. Rows of tokens that differ only in their literals end alike.

The one thing that may still go wrong is to show the coordinate that is left
(`evaluate_infinite_point`).
-/

set_option autoImplicit false

namespace DecimalCalc

namespace Machine

variable {registry : Registry} {s : Settings} {g : Generator}

/-! ## Counting -/

/-- How many values a token takes from the stack: a symbol as many as its arity, a number none. -/
def taken (registry : Registry) (t : Token) : Nat :=
  match t.kind with
  | .operator | .function => ((registry.find? t.text).map Entry.arity).getD 0
  | _ => 0

/-- The depth after a token, which puts one value in the place of those that it takes. -/
def deepen (registry : Registry) (depth : Nat) (t : Token) : Except Fault Nat :=
  if depth < taken registry t then .error (.tooFewOperands depth (taken registry t))
  else .ok (depth - taken registry t + 1)

/-- **The depth after some tokens**, unless one of them needs more values than there are. -/
def depthAfter (registry : Registry) (depth : Nat) (tokens : List Token) : Except Fault Nat :=
  tokens.foldlM (deepen registry) depth

/-- A number, or a symbol that a registry has an entry for. -/
inductive Listed (registry : Registry) (t : Token) : Prop
  | number (kind : t.kind = .number)
  | symbol {entry : Entry} (kind : t.kind = .operator ∨ t.kind = .function)
      (listed : registry.find? t.text = some entry)

theorem taken_number {t : Token} (kind : t.kind = .number) : taken registry t = 0 := by
  simp [taken, kind]

theorem taken_symbol {t : Token} {entry : Entry}
    (kind : t.kind = .operator ∨ t.kind = .function)
    (listed : registry.find? t.text = some entry) : taken registry t = entry.arity := by
  rcases kind with kind | kind <;> simp [taken, kind, listed]

theorem tokenWeight_of_listed {t : Token} (h : Listed registry t) :
    Grammar.tokenWeight registry t = 1 - (taken registry t : Int) := by
  cases h with
  | number kind => simp [Grammar.tokenWeight, taken_number kind, kind]
  | symbol kind listed =>
      rw [taken_symbol kind listed]
      rcases kind with kind | kind <;> simp [Grammar.tokenWeight, kind, listed]

theorem deepen_of_lt {depth : Nat} {t : Token} (h : depth < taken registry t) :
    deepen registry depth t = .error (.tooFewOperands depth (taken registry t)) :=
  if_pos h

theorem deepen_of_le {depth : Nat} {t : Token} (h : taken registry t ≤ depth) :
    deepen registry depth t = .ok (depth - taken registry t + 1) :=
  if_neg (by omega)

theorem depthAfter_append (depth : Nat) (before after : List Token) :
    depthAfter registry depth (before ++ after) =
      (depthAfter registry depth before).bind fun depth => depthAfter registry depth after :=
  List.foldlM_append

theorem depthAfter_cons (depth : Nat) (t : Token) (after : List Token) :
    depthAfter registry depth (t :: after) =
      (deepen registry depth t).bind fun depth => depthAfter registry depth after :=
  List.foldlM_cons

/-- The count stops at the first token that needs more values than there are. -/
theorem depthAfter_of_lt {depth present : Nat} {before : List Token} {t : Token}
    (h : depthAfter registry depth before = .ok present) (hlt : present < taken registry t)
    (after : List Token) : depthAfter registry depth (before ++ t :: after) =
      .error (.tooFewOperands present (taken registry t)) := by
  rw [depthAfter_append, h]
  show depthAfter registry present (t :: after) = _
  rw [depthAfter_cons, deepen_of_lt hlt]
  rfl

/-- The count stops for no other reason. -/
theorem depthAfter_fails (depth : Nat) (tokens : List Token) :
    (depthAfter registry depth tokens).FailsWith fun fault =>
      ∃ present needed, fault = .tooFewOperands present needed := by
  refine Except.failsWith_foldlM (fun t _ depth => ?_) depth
  rw [deepen]
  split
  · exact Except.failsWith_error ⟨_, _, rfl⟩
  · exact Except.failsWith_ok _

/-- **The count adds up weights** where no token needs more values than there are. -/
theorem depthAfter_of_le (tokens : List Token) : (∀ t ∈ tokens, Listed registry t) →
    ∀ depth : Nat, (∀ before t after present, tokens = before ++ t :: after →
        depthAfter registry depth before = .ok present → taken registry t ≤ present) →
      ∃ total : Nat, depthAfter registry depth tokens = .ok total ∧
        (total : Int) = depth + Grammar.weight registry tokens := by
  induction tokens with
  | nil => exact fun _ depth _ => ⟨depth, rfl, by simp⟩
  | cons t tokens ih =>
      intro hlisted depth henough
      obtain ⟨ht, hlisted⟩ := List.forall_mem_cons.mp hlisted
      have hroom : taken registry t ≤ depth := henough [] t tokens depth rfl rfl
      obtain ⟨total, htotal, hweight⟩ := ih hlisted (depth - taken registry t + 1)
        fun before u after present hsplit hbefore => by
          refine henough (t :: before) u after present (by rw [hsplit, List.cons_append]) ?_
          rw [depthAfter_cons, deepen_of_le hroom]
          exact hbefore
      refine ⟨total, ?_, ?_⟩
      · rw [depthAfter_cons, deepen_of_le hroom]
        exact htotal
      · rw [Grammar.weight_cons, tokenWeight_of_listed ht]
        omega

/-! ## The machine follows the count -/

/-- **A step goes wrong in its literal or operation, or it follows the count.** -/
theorem step_deepen {t : Token} (h : Listed registry t) (stack : List Value) (g : Generator) :
    (∃ cause, (step registry s stack t).outcome g = .error (.ofOperation cause)) ∨
      ((step registry s stack t).outcome g).map List.length =
        (deepen registry stack.length t).mapError .fault := by
  cases h with
  | number kind =>
      rw [step_number kind]
      cases readLiteral s t.text with
      | error cause => exact .inl ⟨cause, rfl⟩
      | ok x =>
          refine .inr ?_
          rw [deepen_of_le (by rw [taken_number kind]; omega), taken_number kind]
          rfl
  | @symbol entry kind listed =>
      have hstep : step registry s stack t = apply s entry stack := by
        rw [step_symbol kind, Registry.lookup_eq_ok.mpr listed]
        rfl
      rw [hstep, apply]
      by_cases hroom : stack.length < entry.arity
      · refine .inr ?_
        rw [if_pos hroom, deepen_of_lt (by rwa [taken_symbol kind listed]),
          taken_symbol kind listed]
        rfl
      · rw [if_neg hroom]
        simp only [Drawing.outcome, Drawing.map, Drawing.mapError]
        rcases entry.action ((stack.take entry.arity).reverse.map Value.operand) s g with
          ⟨cause | result, g'⟩
        · exact .inl ⟨cause, rfl⟩
        · refine .inr ?_
          rw [deepen_of_le (by rw [taken_symbol kind listed]; omega), taken_symbol kind listed]
          show (.ok (result :: stack.drop entry.arity).length : Except Failure Nat) = .ok _
          rw [List.length_cons, List.length_drop]

/-- **A run in which no literal and no operation goes wrong follows the count.** -/
theorem run_depth (tokens : List Token) : (∀ t ∈ tokens, Listed registry t) →
    ∀ {stack : List Value} {g : Generator},
      (∀ cause, (run registry s stack tokens).outcome g ≠ .error (.ofOperation cause)) →
        ((run registry s stack tokens).outcome g).map List.length =
          (depthAfter registry stack.length tokens).mapError .fault := by
  induction tokens with
  | nil => exact fun _ stack g _ => rfl
  | cons t tokens ih =>
      intro hlisted stack g hcomputes
      obtain ⟨ht, hlisted⟩ := List.forall_mem_cons.mp hlisted
      rw [run_cons, Drawing.outcome_bind] at hcomputes ⊢
      rcases step_deepen ht stack g with ⟨cause, hstep⟩ | hdepth
      · exact absurd (by rw [hstep]; rfl) (hcomputes cause)
      -- what the step leaves of the generator, the other tokens draw from
      · generalize (step registry s stack t g).2 = left at hcomputes ⊢
        calc (((step registry s stack t).outcome g).bind fun stack =>
                (run registry s stack tokens).outcome left).map _
            = ((step registry s stack t).outcome g).bind fun stack =>
                (depthAfter registry stack.length tokens).mapError .fault := by
              cases hstep : (step registry s stack t).outcome g with
              | error failure => rfl
              | ok stack' =>
                  rw [hstep] at hcomputes
                  exact ih hlisted hcomputes
          _ = (((step registry s stack t).outcome g).map List.length).bind fun depth =>
                (depthAfter registry depth tokens).mapError .fault :=
              (Except.bind_map _ List.length fun depth =>
                (depthAfter registry depth tokens).mapError Failure.fault).symm
          _ = (depthAfter registry stack.length (t :: tokens)).mapError .fault := by
              rw [hdepth, depthAfter_cons, Except.mapError_bind]

theorem evaluate_outcome (tokens : List Token) (g : Generator) :
    (evaluate registry s tokens).outcome g =
      ((run registry s [] tokens).outcome g).bind (answer s) :=
  Drawing.outcome_bind _ _ _

/-- Where the count stops, the machine stops for the same reason. -/
theorem evaluate_of_depth_error {tokens : List Token} {fault : Fault}
    (hlisted : ∀ t ∈ tokens, Listed registry t)
    (hcomputes : ∀ cause, (run registry s [] tokens).outcome g ≠ .error (.ofOperation cause))
    (h : depthAfter registry 0 tokens = .error fault) :
    (evaluate registry s tokens).outcome g = .error (.fault fault) := by
  have hdepth := run_depth tokens hlisted hcomputes
  rw [List.length_nil, h] at hdepth
  cases hrun : (run registry s [] tokens).outcome g with
  | error failure =>
      rw [hrun] at hdepth
      obtain rfl : failure = .fault fault := Except.error.inj hdepth
      rw [evaluate_outcome, hrun]
      rfl
  | ok stack => rw [hrun] at hdepth; cases hdepth

/-- Where the count goes through, the machine does. -/
theorem run_of_depth_ok {tokens : List Token} {depth : Nat}
    (hlisted : ∀ t ∈ tokens, Listed registry t)
    (hcomputes : ∀ cause, (run registry s [] tokens).outcome g ≠ .error (.ofOperation cause))
    (h : depthAfter registry 0 tokens = .ok depth) :
    ∃ stack, (run registry s [] tokens).outcome g = .ok stack ∧ stack.length = depth := by
  have hdepth := run_depth tokens hlisted hcomputes
  rw [List.length_nil, h] at hdepth
  exact Except.map_eq_ok.mp hdepth

/-- A single value that is left is the answer. -/
theorem evaluate_of_depth_one {tokens : List Token}
    (hlisted : ∀ t ∈ tokens, Listed registry t)
    (hcomputes : ∀ cause, (run registry s [] tokens).outcome g ≠ .error (.ofOperation cause))
    (h : depthAfter registry 0 tokens = .ok 1) :
    ∃ v, (run registry s [] tokens).outcome g = .ok [v] ∧
      (evaluate registry s tokens).outcome g = (v.toScalar s.locale).mapError .signal := by
  obtain ⟨stack, hrun, hlength⟩ := run_of_depth_ok hlisted hcomputes h
  obtain ⟨v, rfl⟩ := List.length_eq_one_iff.mp hlength
  exact ⟨v, hrun, by rw [evaluate_outcome, hrun]; rfl⟩

theorem evaluate_of_depth_ne {tokens : List Token} {depth : Nat}
    (hlisted : ∀ t ∈ tokens, Listed registry t)
    (hcomputes : ∀ cause, (run registry s [] tokens).outcome g ≠ .error (.ofOperation cause))
    (h : depthAfter registry 0 tokens = .ok depth) (hne : depth ≠ 1) :
    (evaluate registry s tokens).outcome g = .error (.fault (.notOneResult depth)) := by
  obtain ⟨stack, hrun, rfl⟩ := run_of_depth_ok hlisted hcomputes h
  rw [evaluate_outcome, hrun]
  match stack, hne with
  | [], _ => rfl
  | [_], hne => exact absurd rfl hne
  | _ :: _ :: _, _ => rfl

/-! ## Rows of one shape -/

/-- The same token, or two numbers. -/
def SameShape (t u : Token) : Prop := t = u ∨ (t.kind = .number ∧ u.kind = .number)

theorem SameShape.taken_eq {t u : Token} (h : SameShape t u) :
    taken registry u = taken registry t := by
  rcases h with rfl | ⟨ht, hu⟩
  · rfl
  · rw [taken_number ht, taken_number hu]

theorem SameShape.listed {t u : Token} (h : SameShape t u) (ht : Listed registry t) :
    Listed registry u := by
  rcases h with rfl | ⟨_, hu⟩
  · exact ht
  · exact .number hu

theorem depthAfter_sameShape {tokens tokens' : List Token}
    (h : List.Forall₂ SameShape tokens tokens') : ∀ depth,
      depthAfter registry depth tokens' = depthAfter registry depth tokens := by
  induction h with
  | nil => exact fun _ => rfl
  | cons htoken _ ih =>
      intro depth
      rw [depthAfter_cons, depthAfter_cons, deepen, deepen, htoken.taken_eq]
      exact congrArg _ (funext ih)

theorem listed_sameShape {tokens tokens' : List Token}
    (h : List.Forall₂ SameShape tokens tokens') (hlisted : ∀ t ∈ tokens, Listed registry t) :
    ∀ t ∈ tokens', Listed registry t := by
  induction h with
  | nil => exact nofun
  | cons htoken _ ih =>
      obtain ⟨ht, hlisted⟩ := List.forall_mem_cons.mp hlisted
      exact List.forall_mem_cons.mpr ⟨htoken.listed ht, ih hlisted⟩

/-- Rows of one shape, in which nothing goes wrong, end alike. -/
theorem evaluate_sameShape {tokens tokens' : List Token} {s' : Settings} {g' : Generator}
    (h : List.Forall₂ SameShape tokens tokens') (hlisted : ∀ t ∈ tokens, Listed registry t)
    (hcomputes : ∀ cause, (run registry s [] tokens).outcome g ≠ .error (.ofOperation cause))
    (hcomputes' : ∀ cause, (run registry s' [] tokens').outcome g' ≠ .error (.ofOperation cause)) :
    (∃ fault, (evaluate registry s tokens).outcome g = .error (.fault fault) ∧
      (evaluate registry s' tokens').outcome g' = .error (.fault fault) ∧
      ((∃ present needed, fault = .tooFewOperands present needed) ∨
        ∃ depth, fault = .notOneResult depth)) ∨
    ∃ v v', (run registry s [] tokens).outcome g = .ok [v] ∧
      (run registry s' [] tokens').outcome g' = .ok [v'] := by
  have hlisted' := listed_sameShape h hlisted
  have hsame : depthAfter registry 0 tokens' = depthAfter registry 0 tokens :=
    depthAfter_sameShape h 0
  cases hdepth : depthAfter registry 0 tokens with
  | error fault =>
      refine .inl ⟨fault, evaluate_of_depth_error hlisted hcomputes hdepth, ?_, ?_⟩
      · exact evaluate_of_depth_error hlisted' hcomputes' (hsame.trans hdepth)
      · exact .inl (depthAfter_fails 0 tokens fault hdepth)
  | ok depth =>
      by_cases hone : depth = 1
      · subst hone
        obtain ⟨v, hrun, -⟩ := evaluate_of_depth_one hlisted hcomputes hdepth
        obtain ⟨v', hrun', -⟩ := evaluate_of_depth_one hlisted' hcomputes' (hsame.trans hdepth)
        exact .inr ⟨v, v', hrun, hrun'⟩
      · refine .inl ⟨_, evaluate_of_depth_ne hlisted hcomputes hdepth hone, ?_, .inr ⟨depth, rfl⟩⟩
        exact evaluate_of_depth_ne hlisted' hcomputes' (hsame.trans hdepth) hone

/-! ## The verdict -/

/-- **The verdict on a row depends on its shape.** Let all symbols have entries, and let no literal
and no operation go wrong. At the first token that needs more values than the count says there are,
the machine stops and reports both numbers. If there is no such token, the count is the weight of
the row; unless it is one, the machine reports it, and else a single value is left, which is
answered: a number always, and a coordinate if it can be shown, as it can if its components fit the
precision. A row that differs only in its literals, in which nothing goes wrong either, is reported
with the same numbers, or leaves a single value as well, whatever generator it draws from. -/
theorem evaluate_depth {tokens : List Token} (hlisted : ∀ t ∈ tokens, Listed registry t)
    (hcomputes : ∀ cause, (run registry s [] tokens).outcome g ≠ .error (.ofOperation cause)) :
    (∀ before t after present, tokens = before ++ t :: after →
      depthAfter registry 0 before = .ok present → present < taken registry t →
        (evaluate registry s tokens).outcome g =
          .error (.fault (.tooFewOperands present (taken registry t)))) ∧
    ((∀ before t after present, tokens = before ++ t :: after →
      depthAfter registry 0 before = .ok present → taken registry t ≤ present) →
        ∃ depth : Nat, depthAfter registry 0 tokens = .ok depth ∧
          (depth : Int) = Grammar.weight registry tokens) ∧
    (∀ depth, depthAfter registry 0 tokens = .ok depth → depth ≠ 1 →
      (evaluate registry s tokens).outcome g = .error (.fault (.notOneResult depth))) ∧
    (depthAfter registry 0 tokens = .ok 1 → ∃ v, (run registry s [] tokens).outcome g = .ok [v] ∧
      (evaluate registry s tokens).outcome g = (v.toScalar s.locale).mapError .signal ∧
      (∀ x, v = .number x → (evaluate registry s tokens).outcome g = .ok ⟨x, none⟩) ∧
      (v.Fits s.format → s.precision ≤ Format.maxPrecision →
        ∃ x, (evaluate registry s tokens).outcome g = .ok x)) ∧
    ∀ tokens' s' g', List.Forall₂ SameShape tokens tokens' →
      (∀ cause, (run registry s' [] tokens').outcome g' ≠ .error (.ofOperation cause)) →
        (∃ fault, (evaluate registry s tokens).outcome g = .error (.fault fault) ∧
          (evaluate registry s' tokens').outcome g' = .error (.fault fault) ∧
          ((∃ present needed, fault = .tooFewOperands present needed) ∨
            ∃ depth, fault = .notOneResult depth)) ∨
        ∃ v v', (run registry s [] tokens).outcome g = .ok [v] ∧
          (run registry s' [] tokens').outcome g' = .ok [v'] := by
  refine ⟨fun before t after present hsplit hbefore hlt => ?_, fun henough => ?_,
    fun depth hdepth hne => evaluate_of_depth_ne hlisted hcomputes hdepth hne, fun hone => ?_,
    fun tokens' s' g' h hcomputes' => evaluate_sameShape h hlisted hcomputes hcomputes'⟩
  · refine evaluate_of_depth_error hlisted hcomputes ?_
    rw [hsplit]
    exact depthAfter_of_lt hbefore hlt after
  · obtain ⟨depth, hdepth, hweight⟩ := depthAfter_of_le tokens hlisted 0 henough
    exact ⟨depth, hdepth, by simpa using hweight⟩
  · obtain ⟨v, hrun, heval⟩ := evaluate_of_depth_one hlisted hcomputes hone
    refine ⟨v, hrun, heval, fun x hx => ?_, fun hfits hmax => ?_⟩
    · rw [heval, hx]
      rfl
    · obtain ⟨x, hx⟩ := hfits.toScalar_ok hmax s.locale
      exact ⟨x, by rw [heval, hx]; rfl⟩

/-- In `1 2 + +` the second sum has one operand, and so it has in `3 4 + +`. -/
theorem evaluate_depth_sums :
    let tokens := [Token.number ['1'], Token.number ['2'], Token.operator ['+'],
      Token.operator ['+']]
    let tokens' := [Token.number ['3'], Token.number ['4'], Token.operator ['+'],
      Token.operator ['+']]
    (evaluate .builtin .initial tokens).outcome default = .error (.fault (.tooFewOperands 1 2)) ∧
      (evaluate .builtin .initial tokens').outcome default =
        .error (.fault (.tooFewOperands 1 2)) := by
  intro tokens tokens'
  have hlisted : ∀ t ∈ tokens, Listed Registry.builtin t := by
    simp only [tokens, List.forall_mem_cons]
    exact ⟨.number rfl, .number rfl, .symbol (.inl rfl) rfl, .symbol (.inl rfl) rfl, nofun⟩
  have hrun : (run .builtin .initial [] tokens).outcome default =
      .error (.fault (.tooFewOperands 1 2)) := by decide +kernel
  have hrun' : (run .builtin .initial [] tokens').outcome default =
      .error (.fault (.tooFewOperands 1 2)) := by decide +kernel
  have hcomputes : ∀ {row},
      (run .builtin .initial [] row).outcome default = .error (.fault (.tooFewOperands 1 2)) →
        ∀ cause, (run .builtin .initial [] row).outcome default ≠ .error (.ofOperation cause) := by
    intro row h cause
    rw [h]
    cases cause <;> exact nofun
  obtain ⟨hshort, -, -, -, hsame⟩ := evaluate_depth hlisted (hcomputes hrun)
  have hvalue := hshort [.number ['1'], .number ['2'], .operator ['+']] (.operator ['+']) [] 1 rfl
    rfl (by decide)
  refine ⟨hvalue, ?_⟩
  have hshape : List.Forall₂ SameShape tokens tokens' :=
    .cons (.inr ⟨rfl, rfl⟩) (.cons (.inr ⟨rfl, rfl⟩) (.cons (.inl rfl) (.cons (.inl rfl) .nil)))
  rcases hsame tokens' .initial default hshape (hcomputes hrun') with
    ⟨fault, hfault, hfault', -⟩ | ⟨_, _, h, _⟩
  · obtain rfl := Failure.fault.inj (Except.error.inj (hvalue.symm.trans hfault))
    exact hfault'
  · rw [hrun] at h
    cases h

/-- **A point at an infinite distance cannot be shown.** Its row computes and leaves a single
coordinate, but there is no answer. -/
theorem evaluate_infinite_point :
    let s : Settings := { Settings.initial with precision := 3, precision_pos := by decide }
    let tokens := [Token.number "Infinity".toList, Token.number ['1'],
      Token.function "Rec".toList]
    depthAfter .builtin 0 tokens = .ok 1 ∧
      (∃ point, (run .builtin s [] tokens).outcome default = .ok [.coordinate point]) ∧
      (evaluate .builtin s tokens).outcome default = .error (.signal .invalidOperation) := by
  intro s tokens
  have hrun : (run .builtin s [] tokens).outcome default =
      .ok [.coordinate ⟨.infinite false, .infinite false, .cartesian⟩] := by
    decide +kernel
  refine ⟨rfl, ⟨_, hrun⟩, ?_⟩
  rw [evaluate_outcome, hrun]
  rfl

end Machine

end DecimalCalc
