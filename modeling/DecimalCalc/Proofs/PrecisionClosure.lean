import DecimalCalc.Proofs.FittingResults
import DecimalCalc.Proofs.NumberText
import DecimalCalc.Proofs.Rebinding
import DecimalCalc.Proofs.Reordering
import DecimalCalc.Proofs.SpacedTokens

/-!
# The precision is kept

Whatever an expression is and whatever its variables are, **every number that lies on the operand
stack at any time is finite and fits the format** of the settings, and so does the answer
(`Calculator.evaluate_fits`).

What operations and literals have in common, all values on the stack have (`Machine.run_keeps`).
Here a number is rounded as it is read, and an operation keeps to the format
(`Operation.action_closed`). What is left to show is that no literal names an infinity or a NaN. A
literal that comes from the text of an expression is a word of the number grammar, perhaps with a
sign; one that stands for a constant or a variable is the plain text of a finite number. Both are
numeric, and reordering makes up no tokens.
-/

set_option autoImplicit false

namespace DecimalCalc

open Except

/-! ## Numeric literals -/

namespace Token

/-- If the token is a number, its text is numeric. -/
def Numeric (t : Token) : Prop := t.kind = .number → ∀ c ∈ t.text, IsNumeric c

theorem numeric_of_kind {t : Token} (h : t.kind ≠ .number) : t.Numeric := fun hkind =>
  absurd hkind h

theorem numeric_of_grammar {digits : List Char} (h : digits ∈ NumberLiteral.grammar) :
    ∀ c ∈ digits, IsNumeric c := fun c hc => by
  rcases NumberLiteral.mem_grammar_chars digits h c hc with (hdigit | hunderscore) | hpoint
  · exact .inl hdigit
  · exact .inr (.inr (.inr hunderscore))
  · exact .inr (.inl hpoint)

theorem Spells.numeric {lexicon : Lexicon} {last : Option Token} {t : Token}
    (h : Spells lexicon last t) : t.Numeric := by
  cases h with
  | number mem => exact fun _ => numeric_of_grammar mem
  | negative mem =>
      intro _ c hc
      rcases List.mem_cons.mp hc with rfl | hc
      · exact .inr (.inr (.inl rfl))
      · exact numeric_of_grammar mem c hc
  | reference | leftParen | rightParen | separator | constant => exact numeric_of_kind nofun
  | symbol alone other unsigned read =>
      refine numeric_of_kind fun hkind => ?_
      rcases (ofSymbol_eq_ok (read 0)).1 with heq | heq <;> (rw [heq] at hkind; cases hkind)

theorem SpelledAfter.numeric {lexicon : Lexicon} {last : Option Token} {tokens : List Token}
    (h : SpelledAfter lexicon last tokens) : ∀ t ∈ tokens, t.Numeric := by
  induction h with
  | nil => exact nofun
  | cons spells _ ih => exact List.forall_mem_cons.mpr ⟨spells.numeric, ih⟩

theorem numeric_plain {x : Number} (h : x.IsFinite) : (number x.plain).Numeric := by
  obtain ⟨d, rfl⟩ := h
  exact fun _ c hc => (Decimal.isNumeric_of_mem_plain hc).1

end Token

/-! ## The stack -/

namespace Machine

variable {s : Settings}

/-- **A stack whose values all fit** the format of the settings. -/
def StackFits (s : Settings) (stack : List Value) : Prop := ∀ v ∈ stack, v.Fits s.format

theorem stackFits_nil : StackFits s [] := nofun

theorem readLiteral_gives {text : List Char} (h : ∀ c ∈ text, IsNumeric c) :
    (readLiteral s text).Gives (Number.Fits s.format) := by
  unfold readLiteral
  split
  · exact gives_error _
  · rename_i x hx
    have hfinite : x.IsFinite :=
      Number.finite_of_read? (fun c hc => h c (List.mem_of_mem_filter hc)) hx
    have hplus := Number.plus_gives (f := s.format) s.precision_pos hfinite
    split
    · rename_i y hy
      exact gives_ok (hplus y hy)
    · exact gives_error _

/-- The answer is what the value stands for as an operand. -/
theorem toScalar_gives {P : Number → Prop} {v : Value} (h : P v.operand) (locale : List Char) :
    (v.toScalar locale).Gives fun x => P x.number := by
  cases v with
  | number x => exact gives_ok h
  | coordinate c => exact gives_bind fun _ => gives_ok h

section Keeps

variable {P : Value → Prop} (hresult : ∀ (operation : Operation) (operands : List Value),
  (∀ v ∈ operands, P v) → (operation.action (operands.map Value.operand) s).Gives P)

include hresult

theorem apply_keeps {entry : Entry} {operation : Operation} (h : entry.action = operation.action)
    {stack : List Value} (hstack : ∀ v ∈ stack, P v) :
    (apply s entry stack).Gives fun stack => ∀ v ∈ stack, P v := by
  have hgives := hresult operation (stack.take entry.arity).reverse fun v hv =>
    hstack v (List.mem_of_mem_take (List.mem_reverse.mp hv))
  have hrest : ∀ v ∈ stack.drop entry.arity, P v := fun v hv => hstack v (List.mem_of_mem_drop hv)
  rw [apply, h]
  refine Drawing.gives_ite (Drawing.gives_error _) ?_
  exact ((hgives.mono fun v hv => List.forall_mem_cons.mpr ⟨hv, hrest⟩).mapError _).map

/-- **One step keeps what all values have in common**, if operations do and a literal has it. -/
theorem step_keeps {t : Token}
    (hliteral : t.kind = .number → (readLiteral s t.text).Gives fun x => P (.number x))
    {stack : List Value} (hstack : ∀ v ∈ stack, P v) :
    (step Registry.builtin s stack t).Gives fun stack => ∀ v ∈ stack, P v := by
  by_cases hnumber : t.kind = .number
  · rw [step_number hnumber]
    exact Drawing.gives_still <|
      (((hliteral hnumber).mono fun x hx => List.forall_mem_cons.mpr ⟨hx, hstack⟩).mapError _).map
  by_cases hsymbol : t.kind = .operator ∨ t.kind = .function
  · have hentry : (Registry.builtin.lookup t.text).Gives fun entry =>
        ∃ operation : Operation, entry.action = operation.action := by
      intro entry h
      obtain ⟨operation, haction, -⟩ := exists_operation entry (Registry.mem_of_lookup h).1
      exact ⟨operation, haction⟩
    rw [step_symbol hsymbol]
    exact (Drawing.gives_still (hentry.mapError _)).bind fun entry ⟨_, h⟩ =>
      apply_keeps hresult h hstack
  · rw [step_unexpected hnumber hsymbol]
    exact Drawing.gives_error _

/-- **A run keeps what all values have in common**, if operations do and all literals have it. -/
theorem run_keeps {tokens : List Token} (hliteral : ∀ t ∈ tokens, t.kind = .number →
    (readLiteral s t.text).Gives fun x => P (.number x)) :
    ∀ {stack : List Value}, (∀ v ∈ stack, P v) →
      (run Registry.builtin s stack tokens).Gives fun stack => ∀ v ∈ stack, P v := by
  induction tokens with
  | nil => exact fun hstack => Drawing.gives_ok hstack
  | cons t tokens ih =>
      intro stack hstack
      obtain ⟨ht, hrest⟩ := List.forall_mem_cons.mp hliteral
      rw [run_cons]
      exact (step_keeps hresult ht hstack).bind fun stack hstack => ih hrest hstack

/-- **The answer has what all values have in common**, as operands. -/
theorem evaluate_keeps {Q : Number → Prop} (hoperand : ∀ v, P v → Q v.operand) {tokens : List Token}
    (hliteral : ∀ t ∈ tokens, t.kind = .number →
      (readLiteral s t.text).Gives fun x => P (.number x)) :
    (evaluate Registry.builtin s tokens).Gives fun x => Q x.number := by
  refine (run_keeps hresult hliteral (List.forall_mem_nil _)).bind fun stack hstack =>
    Drawing.gives_still ?_
  unfold answer
  split
  · rename_i value
    have hvalue := hoperand value (hstack value List.mem_cons_self)
    exact (toScalar_gives hvalue _).mapError _
  · exact gives_error _

end Keeps

/-- Operations lead from values that fit to such values. -/
theorem operation_fits (operation : Operation) (operands : List Value)
    (h : ∀ v ∈ operands, v.Fits s.format) :
    (operation.action (operands.map Value.operand) s).Gives (Value.Fits s.format) := by
  refine operation.action_closed _ s fun x hx => ?_
  obtain ⟨v, hv, rfl⟩ := List.mem_map.mp hx
  exact (h v hv).operand.isFinite

/-- **A run keeps the format.** -/
theorem run_gives {tokens : List Token} (htokens : ∀ t ∈ tokens, t.Numeric) :
    ∀ {stack : List Value}, StackFits s stack →
      (run Registry.builtin s stack tokens).Gives (StackFits s) :=
  run_keeps operation_fits fun t ht hkind => readLiteral_gives (htokens t ht hkind)

theorem evaluate_gives {tokens : List Token} (htokens : ∀ t ∈ tokens, t.Numeric) :
    (evaluate Registry.builtin s tokens).Gives fun x => x.number.Fits s.format :=
  evaluate_keeps operation_fits (fun _ => Value.Fits.operand) fun t ht hkind =>
    readLiteral_gives (htokens t ht hkind)

end Machine

/-! ## Expressions -/

namespace Calculator

variable {c : Calculator} {vars : Variables} {text : List Char}
  {valueOf : List Char → Drawing Failure Number}

/-- The variables that are bound to numbers are bound to finite ones. -/
def Finite (vars : Variables) : Prop :=
  ∀ name x, vars.find? name = some (.number x) → x.IsFinite

section

variable (builtin : c.registry = .builtin)

include builtin

theorem tokenize_gives (text : List Char) :
    (c.tokenize text).Gives fun tokens => ∀ t ∈ tokens, t.Numeric := by
  have hlexicon : c.lexicon = {} := by rw [lexicon, builtin]
  intro tokens h
  rw [tokenize, hlexicon] at h
  exact (Lexicon.tokenize_spelled Lexicon.builtin_legible h).1.numeric

omit builtin in
theorem substitute_gives (hvalue : ∀ name, (valueOf name).Gives Number.IsFinite)
    {tokens : List Token} (htokens : ∀ t ∈ tokens, t.Numeric) :
    (c.substitute valueOf tokens).Gives fun tokens => ∀ t ∈ tokens, t.Numeric := by
  have htoken : ∀ t : Token, t.Numeric → (c.substituteToken valueOf t).Gives Token.Numeric := by
    intro t ht
    unfold substituteToken
    split
    · refine Drawing.gives_still <|
        Gives.map (Gives.mono (P := Number.IsFinite) ?_ fun _ => Token.numeric_plain)
      unfold constantValue
      split
      · exact ((Constant.value_gives _ _).mono fun _ => Number.Fits.isFinite).mapError _
      · exact gives_error _
    · exact Drawing.Gives.map ((hvalue _).mono fun _ => Token.numeric_plain)
    · exact Drawing.gives_ok ht
  intro replaced h t' ht'
  obtain ⟨t, ht, hyields⟩ := exists_of_mem_substitute h t' ht'
  exact htoken t (htokens t ht) t' hyields

theorem reversePolishWith_gives (hvalue : ∀ name, (valueOf name).Gives Number.IsFinite)
    (text : List Char) :
    (c.reversePolishWith valueOf text).Gives fun tokens => ∀ t ∈ tokens, t.Numeric :=
  (Drawing.gives_still (tokenize_gives builtin text)).bind fun _ htokens =>
    (substitute_gives hvalue htokens).bind fun _ htokens' => Drawing.gives_still <|
      Gives.mapError (fun _ hout t ht => htokens' t (ReversePolish.reorder_subset hout t ht)) _

theorem evaluateWith_gives (hvalue : ∀ name, (valueOf name).Gives Number.IsFinite)
    (text : List Char) :
    (c.evaluateWith valueOf text).Gives fun x => x.number.Fits c.settings.format := by
  refine Drawing.gives_ite (Drawing.gives_ok (Number.fits_number_zero c.settings.precision_pos)) ?_
  refine (reversePolishWith_gives builtin hvalue text).bind fun tokens htokens => ?_
  rw [builtin]
  exact Machine.evaluate_gives htokens

/-- The value of a variable is finite, whatever expressions are being evaluated. -/
theorem valueOf_gives (hvars : Finite vars) (depth : Nat) : ∀ resolving name,
    (c.valueOf vars depth resolving name).Gives Number.IsFinite := by
  induction depth with
  | zero =>
      intro resolving name
      unfold Calculator.valueOf
      split
      · exact Drawing.gives_error _
      · rename_i x hx
        exact Drawing.gives_ok (hvars name x hx)
      · exact Drawing.gives_ite (Drawing.gives_error _) (Drawing.gives_error _)
  | succ depth ih =>
      intro resolving name
      unfold Calculator.valueOf
      split
      · exact Drawing.gives_error _
      · rename_i x hx
        exact Drawing.gives_ok (hvars name x hx)
      · refine Drawing.gives_ite (Drawing.gives_error _) (Drawing.Gives.map ?_)
        exact (evaluateWith_gives builtin (ih _) _).mono fun _ => Number.Fits.isFinite

/-- **The precision is kept.** However deep an expression is met, at every moment of the run of its
tokens all values on the stack fit the format, and so does the number that it is answered with. -/
theorem evaluate_fits (hvars : Finite vars) (depth : Nat) (resolving : List (List Char))
    (text : List Char) :
    (∀ before after stack,
      (c.reversePolishWith (c.valueOf vars depth resolving) text).Yields (before ++ after) →
        (Machine.run c.registry c.settings [] before).Yields stack →
          ∀ v ∈ stack, v.Fits c.settings.format) ∧
    (∀ x, (c.evaluateWith (c.valueOf vars depth resolving) text).Yields x →
      x.number.Fits c.settings.format) ∧
    ∀ x, c.evaluate text vars = .ok x → x.number.Fits c.settings.format := by
  refine ⟨fun before after stack htokens hrun => ?_, ?_, ?_⟩
  · have hnumeric := reversePolishWith_gives builtin (valueOf_gives builtin hvars depth resolving)
      text _ htokens
    rw [builtin] at hrun
    exact Machine.run_gives (fun t ht => hnumeric t (List.mem_append_left _ ht))
      Machine.stackFits_nil stack hrun
  · exact evaluateWith_gives builtin (valueOf_gives builtin hvars depth resolving) text
  · exact fun x h => evaluateWith_gives builtin (valueOf_gives builtin hvars _ _) text x
      (Drawing.yields_of_outcome h)

end

/-- With three digits, a variable of six digits and a quotient without end are rounded. -/
theorem evaluate_fits_quotient :
    let c : Calculator := { settings :=
      { Settings.initial with precision := 3, precision_pos := by decide } }
    let vars : Variables := .ofList [(['x'], .number (.finite ⟨false, 123456, -3⟩))]
    (∀ v ∈ [Value.number (.finite ⟨false, 7, 0⟩), .number (.finite ⟨false, 123, 0⟩)],
      v.Fits c.settings.format) ∧
    c.evaluate "x/7".toList vars = .ok ⟨.finite ⟨false, 176, -1⟩, none⟩ ∧
    (Number.finite ⟨false, 176, -1⟩).Fits c.settings.format := by
  intro c vars
  have hvars : Finite vars := by
    intro name x hx
    rw [show vars = Variables.bind {} ['x'] _ from rfl, Variables.find?_bind] at hx
    split at hx
    · cases hx
      exact Number.isFinite_finite _
    · cases hx
  obtain ⟨hstack, -, hanswer⟩ := evaluate_fits (c := c) rfl hvars 1 [] "x/7".toList
  have hvalue : c.evaluate "x/7".toList vars = .ok ⟨.finite ⟨false, 176, -1⟩, none⟩ := by
    decide +kernel
  refine ⟨?_, hvalue, hanswer _ hvalue⟩
  exact hstack [.number "123.456".toList, .number ['7']] [.operator ['/']] _
    (Drawing.yields_of_outcome (g := default) (by decide +kernel))
    (Drawing.yields_of_outcome (g := default) (by decide +kernel))

end Calculator

end DecimalCalc
