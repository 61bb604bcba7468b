import DecimalCalc.Expression.Builtin
import DecimalCalc.Proofs.MachineSteps
import DecimalCalc.Proofs.Tree
import DecimalCalc.Proofs.Trimming

/-!
# The stack machine computes trees

The machine sees a row of tokens and a stack of values; `Tree.value` sees a tree and needs no stack.
The two agree, and draw alike: a row of tokens has a result exactly if it is the postorder of a tree
that fits the registry, that tree has a value, and the value can be answered; and where the tree has
no value, the machine fails as the first subtree in postorder does that has none
(`Machine.evaluate_refines_tree`). A number can always be answered. A coordinate is answered with the
text that it is shown as, and an infinite one cannot be shown (`Machine.evaluate_unshown_sum`).
-/

set_option autoImplicit false

namespace DecimalCalc

variable {registry : Registry} {s : Settings}

namespace Value

/-- **The scalar that a value is answered as**: a number is answered without a text, and a coordinate
as its first component with the text that shows the whole coordinate. -/
inductive AnsweredAs (locale : List Char) : Value → Scalar → Prop
  | number (n : Number) : AnsweredAs locale (.number n) ⟨n, none⟩
  | coordinate {c : Coordinate} {text : List Char} (shown : c.display locale false = .ok text) :
      AnsweredAs locale (.coordinate c) ⟨c.first, some text⟩

theorem toScalar_eq_ok {locale : List Char} {v : Value} {x : Scalar} :
    v.toScalar locale = .ok x ↔ v.AnsweredAs locale x := by
  constructor
  · intro h
    cases v with
    | number n =>
        obtain rfl := Except.ok.inj h
        exact .number n
    | coordinate c =>
        obtain ⟨text, shown, hx⟩ := Except.bind_eq_ok.mp h
        obtain rfl := Except.ok.inj hx
        exact .coordinate shown
  · rintro (n | shown)
    · rfl
    · exact Except.bind_eq_ok.mpr ⟨_, shown, rfl⟩

end Value

namespace Tree

/-! ## Values of trees -/

/-- What a symbol makes of the values of its operands, the leftmost first. A coordinate counts as
its first component. -/
def applied (registry : Registry) (s : Settings) (symbol : Token) (values : List Value) :
    Drawing Failure Value :=
  match registry.lookup symbol.text with
  | .error cause => .error (.fault cause)
  | .ok entry => (entry.action (values.map Value.operand) s).mapError .ofOperation

mutual

/-- The value of a tree: its operands are computed from left to right, then its symbol. -/
def value (registry : Registry) (s : Settings) : Tree → Drawing Failure Value
  | .number text => .still (((readLiteral s text).map .number).mapError .ofOperation)
  | .node symbol operands => (values registry s operands).bind (applied registry s symbol)

/-- The values of some trees, from left to right. -/
def values (registry : Registry) (s : Settings) : List Tree → Drawing Failure (List Value)
  | [] => .ok []
  | t :: ts => (t.value registry s).bind fun v => (values registry s ts).map (v :: ·)

end

theorem values_length : ∀ ts : List Tree,
    (values registry s ts).Gives fun vs => vs.length = ts.length
  | [] => Drawing.gives_ok rfl
  | t :: ts => Drawing.gives_bind fun v =>
      ((values_length ts).mono fun vs h => by rw [List.length_cons, h, List.length_cons]).map

/-! ## The first failure -/

mutual

/-- A tree's subtrees in postorder, each with the generator that it is computed from. -/
def starts (registry : Registry) (s : Settings) : Tree → Generator → List (Tree × Generator)
  | .number text, g => [(.number text, g)]
  | .node symbol operands, g => startsOf registry s operands g ++ [(.node symbol operands, g)]

/-- The subtrees of some trees, of which each is computed from what the one before it has left. -/
def startsOf (registry : Registry) (s : Settings) :
    List Tree → Generator → List (Tree × Generator)
  | [], _ => []
  | t :: ts, g => starts registry s t g ++ startsOf registry s ts (t.value registry s g).2

end

mutual

/-- The subtrees that start are all of them, in postorder. -/
theorem map_fst_starts : ∀ (t : Tree) (g : Generator),
    (t.starts registry s g).map Prod.fst = t.subtrees
  | .number text, g => rfl
  | .node symbol operands, g => by
      rw [starts, List.map_append, map_fst_startsOf operands, subtrees]
      rfl

theorem map_fst_startsOf : ∀ (ts : List Tree) (g : Generator),
    (startsOf registry s ts g).map Prod.fst = subtreesOf ts
  | [], g => rfl
  | t :: ts, g => by
      rw [startsOf, List.map_append, map_fst_starts t, map_fst_startsOf ts, subtreesOf]

end

/-- How a run fails, if it does, and the generator that it leaves. -/
def failure? {α : Type} : Except Failure α × Generator → Option (Failure × Generator)
  | (.error failure, g) => some (failure, g)
  | (.ok _, _) => none

theorem failure?_eq_some_iff {α : Type} {result : Except Failure α × Generator} {e : Failure}
    {g : Generator} : failure? result = some (e, g) ↔ result = (.error e, g) := by
  rcases result with ⟨_ | v, g'⟩ <;> simp [failure?]

theorem failure?_eq_none_iff {α : Type} {result : Except Failure α × Generator} :
    failure? result = none ↔ ∃ v g, result = (.ok v, g) := by
  rcases result with ⟨_ | v, g⟩ <;> simp [failure?]

mutual

/-- **A tree fails as its first failing subtree in postorder does.** The subtrees before that one
have values, so it is its own number or symbol that fails. -/
theorem findSome?_starts : ∀ (t : Tree) (g : Generator),
    (t.starts registry s g).findSome? (fun u => failure? (u.1.value registry s u.2)) =
      failure? (t.value registry s g)
  | .number text, g => by simp [starts]
  | .node symbol operands, g => by
      rw [starts, List.findSome?_append, findSome?_startsOf operands]
      -- where all operands have values, only the symbol is left to fail
      rcases hvs : values registry s operands g with ⟨failure | vs, g'⟩
      · simp [failure?, value, hvs, Drawing.bind]
      · simp [failure?]

theorem findSome?_startsOf : ∀ (ts : List Tree) (g : Generator),
    (startsOf registry s ts g).findSome? (fun u => failure? (u.1.value registry s u.2)) =
      failure? (values registry s ts g)
  | [], g => rfl
  | t :: ts, g => by
      rw [startsOf, List.findSome?_append, findSome?_starts t, findSome?_startsOf ts, values]
      rcases hv : t.value registry s g with ⟨failure | v, g'⟩
      · simp [failure?, Drawing.bind, hv]
      · rcases hvs : values registry s ts g' with ⟨failure | vs, g''⟩ <;>
          simp [failure?, Drawing.bind, Drawing.map, Except.map, hv, hvs]

end

theorem value_eq_error_iff {t : Tree} {e : Failure} {g g' : Generator} :
    t.value registry s g = (.error e, g') ↔ ∃ before u start after,
      t.starts registry s g = before ++ (u, start) :: after ∧
        u.value registry s start = (.error e, g') ∧
        ∀ w ∈ before, ∃ v left, w.1.value registry s w.2 = (.ok v, left) := by
  rw [← failure?_eq_some_iff, ← findSome?_starts, List.findSome?_eq_some_iff]
  simp only [failure?_eq_some_iff, failure?_eq_none_iff, Prod.exists]

end Tree

namespace Machine

open DecimalCalc.Tree

/-! ## Running the postorder of a tree -/

/-- A symbol replaces the values of its operands by what it makes of them. -/
theorem step_node {symbol : Token} {entry : Entry} {values : List Value}
    (kind : symbol.kind = .operator ∨ symbol.kind = .function)
    (listed : registry.lookup symbol.text = .ok entry) (arity : values.length = entry.arity)
    (stack : List Value) :
    step registry s (values.reverse ++ stack) symbol =
      (applied registry s symbol values).map (· :: stack) := by
  have hlen : values.reverse.length = entry.arity := by simpa using arity
  have htake : ((values.reverse ++ stack).take entry.arity).reverse = values := by
    rw [← hlen, List.take_left, List.reverse_reverse]
  have hdrop : (values.reverse ++ stack).drop entry.arity = stack := by
    rw [← hlen, List.drop_left]
  have hroom : ¬(values.reverse ++ stack).length < entry.arity := by
    rw [List.length_append, hlen]; omega
  rw [step_symbol kind, applied, listed]
  show apply s entry (values.reverse ++ stack) = _
  rw [apply, if_neg hroom, htake, hdrop]

mutual

/-- **Running the postorder of a tree lays its value on the stack**, or fails as the tree does. -/
theorem run_postorder : ∀ {t : Tree}, t.Fits registry → ∀ stack,
    run registry s stack t.postorder = (t.value registry s).map (· :: stack)
  | .number text, _, stack => by
      rw [postorder, run_number, value]
      cases readLiteral s text <;> rfl
  | .node symbol operands, .node kind listed arity fits, stack => by
      rw [postorder, run_append, run_postorders fits, value, Drawing.bind_map, Drawing.map_bind]
      refine Drawing.bind_congr fun vs hvs => ?_
      rw [run_singleton, step_node kind listed ((values_length operands vs hvs).trans arity)]

/-- Trees lay their values on the stack one after the other. -/
theorem run_postorders : ∀ {ts : List Tree}, (∀ t ∈ ts, t.Fits registry) → ∀ stack,
    run registry s stack (postorders ts) = (values registry s ts).map (·.reverse ++ stack)
  | [], _, stack => rfl
  | t :: ts, fits, stack => by
      have hrest : ∀ v, run registry s (v :: stack) (postorders ts) =
          ((values registry s ts).map (v :: ·)).map (·.reverse ++ stack) := by
        intro v
        rw [run_postorders fun u hu => fits u (by simp [hu]), Drawing.map_map]
        simp
      rw [postorders, run_append, run_postorder (fits t (by simp)), values, Drawing.bind_map,
        Drawing.map_bind]
      exact congrArg _ (funext hrest)

end

/-- The machine answers the postorder of a tree with the tree's value. -/
theorem evaluate_postorder {t : Tree} (h : t.Fits registry) :
    evaluate registry s t.postorder = (t.value registry s).bind fun v =>
      .still ((v.toScalar s.locale).mapError .signal) := by
  rw [evaluate, run_postorder h, Drawing.bind_map]
  rfl

theorem evaluate_postorder_eq_ok {t : Tree} (h : t.Fits registry) {x : Scalar} {g g' : Generator} :
    evaluate registry s t.postorder g = (.ok x, g') ↔
      ∃ v, t.value registry s g = (.ok v, g') ∧ v.AnsweredAs s.locale x := by
  rw [evaluate_postorder h, Drawing.bind_eq_ok]
  constructor
  · rintro ⟨v, middle, hvalue, hanswer⟩
    obtain ⟨hscalar, rfl⟩ := Prod.mk.inj hanswer
    exact ⟨v, hvalue, Value.toScalar_eq_ok.mp (Except.mapError_eq_ok.mp hscalar)⟩
  · rintro ⟨v, hvalue, hanswer⟩
    exact ⟨v, g', hvalue, by rw [Value.toScalar_eq_ok.mpr hanswer]; rfl⟩

/-! ## Every run reads trees back -/

/-- A step that succeeds on as many values as there are trees adds its token to these trees. -/
theorem step_grow {trees : List Tree} {stack : List Value} (hlength : trees.length = stack.length)
    (token : Token) : (step registry s stack token).Gives fun stack' =>
      ∃ trees', grow registry trees token = some trees' ∧ trees'.length = stack'.length := by
  by_cases hnumber : token.kind = .number
  · rw [step_number hnumber]
    refine Drawing.gives_still (Except.Gives.map fun x _ => ?_)
    exact ⟨.number token.text :: trees, by simp only [grow, hnumber],
      congrArg (· + 1) hlength⟩
  · by_cases hsymbol : token.kind = .operator ∨ token.kind = .function
    · rw [step_symbol hsymbol]
      cases listed : registry.lookup token.text with
      | error cause => exact Drawing.gives_error _
      | ok entry =>
          show (apply s entry stack).Gives _
          rw [apply]
          by_cases hroom : stack.length < entry.arity
          · rw [if_pos hroom]
            exact Drawing.gives_error _
          · rw [if_neg hroom]
            have harity : (trees.take entry.arity).reverse.length = entry.arity := by
              rw [List.length_reverse, List.length_take]; omega
            have hgrow := grow_node hsymbol listed harity (trees.drop entry.arity)
            rw [List.reverse_reverse, List.take_append_drop] at hgrow
            refine Drawing.Gives.map fun v _ => ⟨_, hgrow, ?_⟩
            simp only [List.length_cons, List.length_drop, hlength]
    · rw [step_unexpected hnumber hsymbol]
      exact Drawing.gives_error _

/-- A run that succeeds on as many values as there are trees reads its tokens back onto them. -/
theorem run_readBack {tokens : List Token} : ∀ {trees : List Tree} {stack : List Value},
    trees.length = stack.length → (run registry s stack tokens).Gives fun stack' =>
      ∃ trees', readBack registry trees tokens = some trees' ∧ trees'.length = stack'.length := by
  induction tokens with
  | nil => exact fun hlength => Drawing.gives_ok ⟨_, rfl, hlength⟩
  | cons token tokens ih =>
      intro trees stack hlength
      rw [run_cons]
      refine (step_grow hlength token).bind fun next ⟨grown, hgrow, hnext⟩ => ?_
      refine (ih hnext).mono fun stack' ⟨trees', hread, hlast⟩ => ⟨trees', ?_, hlast⟩
      show (grow registry trees token).bind _ = _
      rw [hgrow, Option.bind_some]
      exact hread

/-- What the machine has a result for is the postorder of a tree that fits. -/
theorem exists_tree_of_evaluate {tokens : List Token} {x : Scalar}
    (h : (evaluate registry s tokens).Yields x) :
    ∃ t : Tree, t.Fits registry ∧ t.postorder = tokens := by
  obtain ⟨stack, hrun, hresult⟩ := h.of_bind
  have hanswer := Drawing.yields_still.mp hresult
  have hempty : ([] : List Tree).length = ([] : List Value).length := rfl
  obtain ⟨trees, hread, hlength⟩ := run_readBack hempty _ hrun
  obtain ⟨hfits, hpostorder⟩ := readBack_sound hread (by simp)
  have hone : trees.length = 1 := by
    rw [hlength]
    -- the machine answers a single value only
    rcases stack with _ | ⟨v, _ | ⟨w, rest⟩⟩
    · cases hanswer
    · rfl
    · cases hanswer
  obtain ⟨t, rfl⟩ := List.length_eq_one_iff.mp hone
  refine ⟨t, hfits t (by simp), ?_⟩
  simpa [postorders] using hpostorder

/-! ## The machine and the tree -/

/-- **The stack machine refines the evaluation of trees.** From any generator, a row of tokens has
the result `x` exactly if it is the postorder of a tree that fits the registry, the tree has a value,
and the value is answered as `x`; the same generator is left. There is at most one such tree. A
value is answered if it is a number, or a coordinate that fits the precision; a coordinate that
cannot be shown has no answer. Where the tree has no value, the machine fails as the first of its
subtrees in postorder does that has none. -/
theorem evaluate_refines_tree (registry : Registry) (s : Settings) (tokens : List Token) :
    (∀ x g g', evaluate registry s tokens g = (.ok x, g') ↔
      ∃ (t : Tree) (v : Value), t.Fits registry ∧ t.postorder = tokens ∧
        t.value registry s g = (.ok v, g') ∧ v.AnsweredAs s.locale x) ∧
    (∀ t u : Tree, t.Fits registry → u.Fits registry → t.postorder = tokens →
      u.postorder = tokens → t = u) ∧
    (∀ (t : Tree) (v : Value) g g', t.Fits registry → t.postorder = tokens →
      t.value registry s g = (.ok v, g') →
      (∃ n, v = .number n) ∨ (v.Fits s.format ∧ s.precision ≤ Format.maxPrecision) →
      ∃ x, evaluate registry s tokens g = (.ok x, g')) ∧
    (∀ (t : Tree) (c : Coordinate) (signal : Signal) g g', t.Fits registry →
      t.postorder = tokens → t.value registry s g = (.ok (.coordinate c), g') →
      c.display s.locale false = .error signal →
      evaluate registry s tokens g = (.error (.signal signal), g')) ∧
    (∀ (t u : Tree) (before after : List (Tree × Generator)) (failure : Failure) g start g',
      t.Fits registry → t.postorder = tokens →
      t.starts registry s g = before ++ (u, start) :: after →
      (∀ w ∈ before, ∃ v left, w.1.value registry s w.2 = (.ok v, left)) →
      u.value registry s start = (.error failure, g') →
      t.subtrees = before.map Prod.fst ++ u :: after.map Prod.fst ∧
        evaluate registry s tokens g = (.error failure, g')) := by
  refine ⟨fun x g g' => ⟨fun h => ?_, ?_⟩, ?_, ?_, ?_, ?_⟩
  · -- the run itself reads the tree back
    obtain ⟨t, hfits, rfl⟩ := exists_tree_of_evaluate (Drawing.yields_of_eq h)
    obtain ⟨v, hvalue, hanswer⟩ := (evaluate_postorder_eq_ok hfits).mp h
    exact ⟨t, v, hfits, rfl, hvalue, hanswer⟩
  · rintro ⟨t, v, hfits, rfl, hvalue, hanswer⟩
    exact (evaluate_postorder_eq_ok hfits).mpr ⟨v, hvalue, hanswer⟩
  · rintro t u ht hu rfl hsame
    exact postorder_inj ht hu hsame.symm
  · rintro t v g g' hfits rfl hvalue hshown
    obtain ⟨x, hx⟩ : ∃ x, v.toScalar s.locale = .ok x := by
      rcases hshown with ⟨n, rfl⟩ | ⟨hv, hmax⟩
      · exact ⟨_, rfl⟩
      · exact hv.toScalar_ok hmax s.locale
    exact ⟨x, (evaluate_postorder_eq_ok hfits).mpr ⟨v, hvalue, Value.toScalar_eq_ok.mp hx⟩⟩
  · rintro t c signal g g' hfits rfl hvalue hsignal
    rw [evaluate_postorder hfits, Drawing.bind, hvalue]
    show (((c.toScalar s.locale).mapError Failure.signal, g') : _ × _) = _
    rw [Coordinate.toScalar, hsignal]
    rfl
  · rintro t u before after failure g start g' hfits rfl hsplit hbefore hu
    have hvalue : t.value registry s g = (.error failure, g') :=
      value_eq_error_iff.mpr ⟨before, u, start, after, hsplit, hu, hbefore⟩
    constructor
    · rw [← map_fst_starts t g, hsplit, List.map_append, List.map_cons]
    · rw [evaluate_postorder hfits, Drawing.bind, hvalue]

/-- The left operand of a difference is laid down first. -/
theorem evaluate_refines_tree_difference :
    evaluate Registry.builtin .initial
      [Token.number ['5'], Token.number ['3'], Token.operator ['-']] default =
        (.ok ⟨.finite ⟨false, 2, 0⟩, none⟩, default) := by
  refine ((evaluate_refines_tree Registry.builtin .initial _).1 _ _ _).mpr
    ⟨.node (Token.operator ['-']) [.number ['5'], .number ['3']],
      .number (.finite ⟨false, 2, 0⟩), ?_, rfl, ?_, .number _⟩
  · refine .node (.inl rfl) rfl rfl fun t ht => ?_
    rcases List.mem_pair.mp ht with rfl | rfl <;> exact .number _
  · exact Prod.ext (by decide +kernel) rfl

/-- **A sum of infinities as a distance has a value that cannot be shown**: the tree fits and each of
its subtrees has a value, but there is no answer. -/
theorem evaluate_unshown_sum :
    let s : Settings := { Settings.initial with precision := 3, precision_pos := by decide }
    let sum : Tree := .node (Token.operator ['+']) [.number "Infinity".toList, .number ['1']]
    let point : Tree := .node (Token.function "Rec".toList) [sum, .number ['1']]
    point.Fits .builtin ∧
      (∃ c, (point.value .builtin s).outcome default = .ok (.coordinate c)) ∧
      (evaluate .builtin s point.postorder).outcome default =
        .error (.signal .invalidOperation) := by
  intro s sum point
  refine ⟨?_, ⟨⟨.infinite false, .infinite false, .cartesian⟩, by decide +kernel⟩,
    by decide +kernel⟩
  refine .node (.inr rfl) rfl rfl fun t ht => ?_
  rcases List.mem_pair.mp ht with rfl | rfl
  · refine .node (.inl rfl) rfl rfl fun u hu => ?_
    rcases List.mem_pair.mp hu with rfl | rfl <;> exact .number _
  · exact .number _

end Machine

end DecimalCalc
