import DecimalCalc.Proofs.OperandCount
import DecimalCalc.Proofs.Reordering
import DecimalCalc.Proofs.StackMachine
import DecimalCalc.Proofs.Substitution
import DecimalCalc.Proofs.TokenRules

/-!
# Which expressions have a value

What the machine has a result for is the postorder of a tree, and as a row of tokens every tree
weighs as much as one operand. Reordering keeps the weight of a row, as it drops nothing but
parentheses and separators, and checks just that parentheses are balanced. So an expression with a
value has balanced parentheses and the weight one, and it is well-formed exactly if it has no
surplus (`Calculator.derives_iff_noSurplus_of_evaluate`). Where an operand is missing, one too many
elsewhere makes up for it: `1 2 +` has the value of `1 + 2`.
-/

set_option autoImplicit false

namespace DecimalCalc

open Grammar

variable {registry : Registry}

/-! ## A tree weighs as much as one operand -/

namespace Tree

mutual

/-- **The postorder of a tree weighs as much as one operand**: a symbol takes its operands away and
leaves one. -/
theorem weight_postorder : ∀ {t : Tree}, t.Fits registry → weight registry t.postorder = 1
  | .number text, _ => rfl
  | .node symbol operands, .node kind listed arity fits => by
      have hsymbol : tokenWeight registry symbol = 1 - (operands.length : Int) := by
        have hfind := Registry.lookup_eq_ok.mp listed
        rcases kind with kind | kind <;> simp [tokenWeight, kind, hfind, arity]
      rw [postorder, weight_append, weight_postorders fits, weight_cons, weight_nil, hsymbol]
      omega

theorem weight_postorders : ∀ {ts : List Tree}, (∀ t ∈ ts, t.Fits registry) →
    weight registry (postorders ts) = ts.length
  | [], _ => rfl
  | t :: ts, fits => by
      rw [postorders, weight_append, weight_postorder (fits t (by simp)),
        weight_postorders fun u hu => fits u (by simp [hu]), List.length_cons]
      omega

end

end Tree

namespace Machine

/-- What the machine answers weighs as much as one operand. -/
theorem weight_of_evaluate {s : Settings} {tokens : List Token} {x : Scalar}
    (h : (evaluate registry s tokens).Yields x) : weight registry tokens = 1 := by
  obtain ⟨t, hfits, rfl⟩ := exists_tree_of_evaluate h
  exact Tree.weight_postorder hfits

end Machine

/-! ## Reordering keeps the weight -/

namespace ReversePolish

/-- **Reordering keeps the weight of a row.** -/
theorem weight_of_reorder {tokens out : List Token} (h : reorder registry tokens = .ok out) :
    weight registry out = weight registry tokens := by
  obtain ⟨written, waiting, hread, _, rfl⟩ := reorder_inv h
  have hsum := advance_sum (m := tokenWeight registry) (fun t ht => tokenWeight_of_kind ht) tokens
    hread
  rw [weight, weight, List.map_append, List.sum_append, hsum]
  simp

/-! ## Reordering pairs parentheses -/

/-- How many parentheses wait. -/
def depth (stack : List Token) : Nat := stack.countP (·.kind == .leftParen)

theorem depth_of_unopened {above : List Token} (h : Unopened above) : depth above = 0 := by
  rw [depth, List.countP_eq_zero]
  intro t ht
  simpa using h t ht

@[simp] theorem depth_append (above below : List Token) :
    depth (above ++ below) = depth above + depth below := List.countP_append

theorem depth_cons_of_leftParen {t : Token} (h : t.kind = .leftParen) (stack : List Token) :
    depth (t :: stack) = depth stack + 1 := by
  simp [depth, h]

theorem depth_cons_of_ne {t : Token} (h : t.kind ≠ .leftParen) (stack : List Token) :
    depth (t :: stack) = depth stack := by
  simp [depth, h]

/-- **A step leaves as many parentheses waiting as are open.** -/
theorem Move.depth_eq {stack written stack' : List Token} {t : Token}
    (h : Move stack t written stack') : open? (depth stack) t = some (depth stack') := by
  cases h with
  | write kind => rcases kind with kind | kind <;> simp [open?, kind]
  | wait kind =>
      rcases kind with kind | kind
      · simp [open?, kind, depth_cons_of_ne]
      · simp [open?, kind, depth_cons_of_leftParen]
  | yield kind heq hunopened =>
      rw [heq, depth_append, depth_of_unopened hunopened, depth_cons_of_ne (by simp [kind])]
      simp [open?, kind]
  | close kind open' heq hunopened =>
      rw [heq, depth_append, depth_of_unopened hunopened, depth_cons_of_leftParen open']
      simp [open?, kind]
  | closeCall kind open' call heq hunopened =>
      rw [heq, depth_append, depth_of_unopened hunopened, depth_cons_of_leftParen open',
        depth_cons_of_ne (by simp [call])]
      simp [open?, kind]
  | separate kind open' heq hunopened =>
      rw [heq, depth_append, depth_of_unopened hunopened, depth_cons_of_leftParen open']
      simp [open?, kind]

theorem advance_depth (tokens : List Token) : ∀ {stack written stack' : List Token},
    advance registry stack tokens = .ok (written, stack') →
      openAfter? (depth stack) tokens = some (depth stack') := by
  induction tokens with
  | nil =>
      intro stack written stack' h
      obtain ⟨rfl, rfl⟩ := Prod.mk.inj (Except.ok.inj h)
      rfl
  | cons t tokens ih =>
      intro stack written stack' h
      obtain ⟨out, middle, more, hstep, hrest, rfl⟩ := advance_cons_inv h
      rw [openAfter?_cons, (move_of_step hstep).depth_eq]
      exact ih hrest

/-- Reordering takes balanced parentheses only. -/
theorem wellNested_of_reorder {tokens out : List Token} (h : reorder registry tokens = .ok out) :
    WellNested tokens := by
  obtain ⟨written, waiting, hread, hunopened, rfl⟩ := reorder_inv h
  have hdepth := advance_depth tokens hread
  rw [depth_of_unopened hunopened] at hdepth
  exact hdepth

end ReversePolish

/-! ## Expressions with a value -/

namespace Calculator

theorem compute_eq (c : Calculator) {text : List Char} (hblank : text.all Text.isBlank = false)
    (vars : Variables) :
    c.compute text vars = (c.reversePolishWith (c.resolve vars) text).bind
      (Machine.evaluate c.registry c.settings) := by
  rw [compute, evaluateWith, hblank]
  rfl

/-- The stages that an expression goes through on the way to its value. -/
theorem compute_inv {c : Calculator} {text : List Char} {vars : Variables} {x : Scalar}
    (hblank : text.all Text.isBlank = false) (h : (c.compute text vars).Yields x) :
    ∃ tokens replaced out, c.tokenize text = .ok tokens ∧
      (c.substitute (c.resolve vars) tokens).Yields replaced ∧
      ReversePolish.reorder c.registry replaced = .ok out ∧
      (Machine.evaluate c.registry c.settings out).Yields x := by
  rw [compute_eq c hblank] at h
  obtain ⟨out, hpolish, hvalue⟩ := h.of_bind
  obtain ⟨tokens, replaced, htokens, hreplaced, hreorder⟩ := reversePolishWith_inv hpolish
  exact ⟨tokens, replaced, out, htokens, hreplaced, hreorder, hvalue⟩

/-- **Which expressions have a value.** Parentheses are balanced, with separators inside of them,
and a factorial directly follows the end of an operand. Beyond that an expression with a value is
well-formed exactly if no operand and no argument is too many. -/
theorem derives_iff_noSurplus_of_evaluate (c : Calculator) (hregistry : c.registry = .builtin)
    (text : List Char) (hblank : text.all Text.isBlank = false) (vars : Variables) (x : Scalar)
    (h : c.evaluate text vars = .ok x) :
    ∃ tokens, c.tokenize text = .ok tokens ∧ WellNested tokens ∧ FactorialsFollow none tokens ∧
      (Derives .builtin .expression tokens ↔ NoSurplus .builtin tokens) := by
  obtain ⟨tokens, replaced, out, htokens, hreplaced, hout, hvalue⟩ :=
    compute_inv hblank (Drawing.yields_of_outcome h)
  rw [hregistry] at hout hvalue
  have hgrammar : Grammatical c.lexicon.registry := by
    rw [lexicon, hregistry]
    exact builtin_grammatical
  have hobeys : Obeys Registry.builtin none tokens := by
    rw [← hregistry]
    exact tokenize_obeys hgrammar htokens
  have hnested : WellNested tokens := by
    rw [WellNested, ← substitute_open hreplaced]
    exact ReversePolish.wellNested_of_reorder hout
  have hweight : weight Registry.builtin tokens = 1 := by
    rw [← substitute_weight hreplaced, ← ReversePolish.weight_of_reorder hout]
    exact Machine.weight_of_evaluate hvalue
  refine ⟨tokens, htokens, hnested, hobeys.factorials, ?_, ?_⟩
  · exact noSurplus_of_derives builtin_grammatical
  · intro hsurplus
    exact derives_of_weight hobeys.proper hobeys.factorials (hsurplus.closes hnested) hweight

/-- An implied product and a call of two arguments: `2gcd(12;18)` is `2*gcd(12;18)`. -/
theorem derives_iff_noSurplus_of_product :
    ∃ tokens, ({} : Calculator).tokenize "2gcd(12;18)".toList = .ok tokens ∧ WellNested tokens ∧
      FactorialsFollow none tokens ∧
      (Derives .builtin .expression tokens ↔ NoSurplus .builtin tokens) :=
  derives_iff_noSurplus_of_evaluate {} rfl _ (by decide) {} ⟨.finite ⟨false, 12, 0⟩, none⟩
    (by decide +kernel)

/-- Two operands before an operator have a value, though they are no expression: `1 2 +` is three.
-/
theorem evaluate_two_operands_before_sum :
    ({} : Calculator).evaluate "1 2 +".toList = .ok ⟨.finite ⟨false, 3, 0⟩, none⟩ ∧
      ({} : Calculator).tokenize "1 2 +".toList =
        .ok [Token.number ['1'], Token.number ['2'], Token.operator ['+']] ∧
      ¬Derives .builtin .expression
        [Token.number ['1'], Token.number ['2'], Token.operator ['+']] := by
  refine ⟨by decide +kernel, by decide +kernel, fun h => ?_⟩
  exact absurd (noSurplus_of_derives builtin_grammatical h) (by decide +kernel)

end Calculator

end DecimalCalc
