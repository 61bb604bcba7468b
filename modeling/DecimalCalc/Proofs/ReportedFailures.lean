import DecimalCalc.CommandLine.Run
import DecimalCalc.Proofs.PrecisionClosure
import DecimalCalc.Proofs.Trimming

/-!
# Which failures are reported

Most operations report a bare arithmetic signal as a fault that names the operation. Of those that do
not, some never meet a signal when their operands fit the format: a sign is changed without rounding,
and nothing overflows that is at most as large as an operand. What is left are the *exposed*
operations (`Operation.Exposed`): selections, least common multiples, random integers and polar
coordinates.

So **an evaluation that meets no exposed symbol fails with a fault or not at all**, and showing its
value fails never (`Calculator.failures_reported`). An exposed symbol does let a signal through
(`Calculator.evaluate_exposed`).
-/

set_option autoImplicit false

namespace DecimalCalc

open Except

/-! ## Operations without a signal -/

namespace Decimal

variable {f : Format} {x y : Decimal}

theorem value_abs_magnitude (x : Decimal) : |x.magnitude.value| = |x.value| := by
  rw [value_magnitude, abs_abs]

theorem plus_ok (hp : 0 < f.precision) (hy : y.Fits f) (h : |x.value| ≤ |y.value|) :
    ∃ z, plus f x = .ok z := by
  unfold plus
  split
  · exact round_ok hp hy.digits hy.highest (value_abs_magnitude x ▸ h)
  · exact round_ok hp hy.digits hy.highest h

theorem minus_ok (hp : 0 < f.precision) (hy : y.Fits f) (h : |x.value| ≤ |y.value|) :
    ∃ z, minus f x = .ok z := by
  unfold minus
  split
  · exact round_ok hp hy.digits hy.highest (value_abs_magnitude x ▸ h)
  · exact round_ok hp hy.digits hy.highest (by rwa [value_neg, abs_neg])

theorem abs_ok (hp : 0 < f.precision) (hx : x.Fits f) : ∃ z, abs f x = .ok z := by
  unfold abs
  split
  · exact minus_ok hp hx le_rfl
  · exact plus_ok hp hx le_rfl

end Decimal

namespace Number

variable {f : Format} {x : Number}

theorem lift₁_ok {onFinite : Decimal → Except Signal Decimal}
    {onInfinite : Bool → Except Signal Number} (hmax : f.precision ≤ Format.maxPrecision)
    {d : Decimal} (h : ∃ z, onFinite d = .ok z) :
    ∃ z, lift₁ f onFinite onInfinite (.finite d) = .ok z := by
  obtain ⟨z, hz⟩ := h
  exact ⟨.finite z, by rw [lift₁_finite hmax, hz]; rfl⟩

theorem isInteger_finite (d : Decimal) : (finite d).isInteger = .ok d.isInteger := rfl

end Number

/-! ## Exposed operations -/

namespace OperationError

/-- A fault is reported to the user; a bare signal is not. -/
def IsFault : OperationError → Prop
  | .fault _ => True
  | .signal _ => False

end OperationError

namespace Operation

/-- **An operation that lets a signal through** for some operands that fit. -/
def Exposed (operation : Operation) : Prop :=
  operation ∈ [permutation, combination, lcm, randomInteger, toPolar]

instance (operation : Operation) : Decidable operation.Exposed :=
  inferInstanceAs (Decidable (_ ∈ _))

/-- The number of operands. -/
def arity : Operation → Nat
  | .add | .subtract | .multiply | .divide | .modulo | .power | .permutation | .combination | .gcd
  | .lcm | .randomInteger | .root | .logarithm | .direction | .beta | .toCartesian | .toPolar => 2
  | _ => 1

end Operation

namespace Outcome

theorem fails_fail {α : Type} (fault : DomainFault) :
    (fail fault : Outcome α).FailsWith OperationError.IsFault := failsWith_error trivial

theorem fails_guarded {α : Type} {operation : Operation} (words : operation.refusalWords?.isSome)
    (operands : List Number) (result : Outcome α) :
    (guarded operation operands result).FailsWith OperationError.IsFault := by
  unfold guarded
  split
  · rw [if_pos words]
    exact failsWith_error trivial
  · rename_i hresult
    intro e he
    cases e with
    | fault fault => trivial
    | signal signal => exact (hresult signal he).elim

theorem fails_ofSignal {α : Type} {result : Except Signal α} (h : ∃ a, result = .ok a) :
    (ofSignal result).FailsWith OperationError.IsFault := by
  obtain ⟨a, rfl⟩ := h
  exact failsWith_ok a

end Outcome

open Outcome OperationError

namespace Functions

variable {s : Settings} {x y : Number}

theorem integer_gives (task : IntegerTask) (d : Decimal) :
    (Number.integer task (.finite d)).Gives fun n : Int => (n : ℚ) = d.value := by
  unfold Number.integer
  rw [Number.isInteger_finite]
  cases hinteger : d.isInteger with
  | false => exact gives_fail _
  | true =>
      refine gives_ok ?_
      obtain ⟨n, hn⟩ := Decimal.isInteger_iff.mp hinteger
      have htruncate : d.truncate = n := by
        rw [Decimal.truncate_eq, hn]
        split
        · rename_i h
          rw [abs_of_nonneg h, Int.floor_intCast]
        · rename_i h
          rw [abs_of_neg (not_le.mp h), ← Int.cast_neg, Int.floor_intCast, neg_neg]
      rw [htruncate, hn]

theorem integer_fails (task : IntegerTask) (d : Decimal) :
    (Number.integer task (.finite d)).FailsWith IsFault := by
  unfold Number.integer
  rw [Number.isInteger_finite]
  cases d.isInteger with
  | true => exact failsWith_ok _
  | false => exact fails_fail _

section

variable (hmax : s.precision ≤ Format.maxPrecision)

include hmax

theorem absolute_fails (hx : x.Fits s.format) : (absolute s x).FailsWith IsFault := by
  obtain ⟨d, rfl, hd⟩ := hx
  exact fails_ofSignal (Number.lift₁_ok hmax (Decimal.abs_ok s.precision_pos hd))

theorem negate_fails (hx : x.Fits s.format) : (negate s x).FailsWith IsFault := by
  obtain ⟨d, rfl, hd⟩ := hx
  exact fails_ofSignal (Number.lift₁_ok hmax (Decimal.minus_ok s.precision_pos hd le_rfl))

/-- A common divisor is at most as large as one of the operands, or zero. -/
theorem gcd_fails (hx : x.Fits s.format) (hy : y.Fits s.format) :
    (gcd s x y).FailsWith IsFault := by
  obtain ⟨d, rfl, hd⟩ := hx
  obtain ⟨e, rfl, he⟩ := hy
  refine (integer_fails .gcd d).bind fun m hm => (integer_fails .gcd e).bind fun n hn => ?_
  have hm := integer_gives .gcd d m hm
  have hn := integer_gives .gcd e n hn
  refine fails_ofSignal (Number.lift₁_ok hmax ?_)
  have hvalue : |(Decimal.ofInt (m.natAbs.gcd n.natAbs : Nat)).value| =
      ((m.natAbs.gcd n.natAbs : Nat) : ℚ) := by
    rw [Decimal.value_ofInt, Int.cast_natCast, Nat.abs_cast]
  have habs : ∀ {k : Int} {z : Decimal}, (k : ℚ) = z.value → |z.value| = (k.natAbs : ℚ) := by
    intro k z hk
    rw [← hk, Nat.cast_natAbs, Int.cast_abs]
  -- without a first operand the divisor is the second one, and else it is not above the first
  rcases Nat.eq_zero_or_pos m.natAbs with hzero | hpos
  · refine Decimal.plus_ok s.precision_pos he ?_
    rw [hvalue, habs hn, hzero, Nat.gcd_zero_left]
  · refine Decimal.plus_ok s.precision_pos hd ?_
    rw [hvalue, habs hm]
    exact_mod_cast Nat.gcd_le_left _ hpos

end

theorem toCartesian_fails (hradius : x.IsFinite) (angle : Number) :
    (toCartesian s x angle).FailsWith IsFault := by
  obtain ⟨d, rfl⟩ := hradius
  have hbelow : (ofSignal ((Number.finite d).isBelow Number.zero)).FailsWith IsFault :=
    fails_ofSignal ⟨_, rfl⟩
  unfold toCartesian
  refine hbelow.bind fun below _ => ?_
  cases below with
  | true => exact fails_fail _
  | false =>
      exact (fails_guarded rfl _ _).bind fun _ _ => (fails_guarded rfl _ _).bind fun _ _ =>
        (fails_guarded rfl _ _).bind fun _ _ => (fails_guarded rfl _ _).bind fun _ _ =>
          failsWith_ok _

theorem unary_fails {f : Settings → Number → Outcome Number} {operands : List Number}
    (hlength : operands.length = 1) (h : ∀ x ∈ operands, (f s x).FailsWith IsFault) :
    (unary f operands s).FailsWith IsFault := by
  match operands, hlength with
  | [x], _ => exact Drawing.failsWith_still ((h x (by simp)).map _)

theorem pair_fails {α : Type} {make : α → Value} {f : Settings → Number → Number → Outcome α}
    {operands : List Number} (hlength : operands.length = 2)
    (h : ∀ x ∈ operands, ∀ y ∈ operands, (f s x y).FailsWith IsFault) :
    (pair make (fun s x y => .still (f s x y)) operands s).FailsWith IsFault := by
  match operands, hlength with
  | [x, y], _ => exact (Drawing.failsWith_still (h x (by simp) y (by simp))).map _

end Functions

open Functions in
/-- **An operation that is not exposed reports every failure**, if its operands fit. -/
theorem Operation.action_fails {operation : Operation} (hidden : ¬operation.Exposed) {s : Settings}
    (hmax : s.precision ≤ Format.maxPrecision) {operands : List Number}
    (hlength : operands.length = operation.arity) (hfits : ∀ x ∈ operands, x.Fits s.format) :
    (operation.action operands s).FailsWith IsFault := by
  cases operation with
  | permutation | combination | lcm | randomInteger | toPolar => exact absurd (by decide) hidden
  | absolute => exact unary_fails hlength fun x hx => absolute_fails hmax (hfits x hx)
  | negate => exact unary_fails hlength fun x hx => negate_fails hmax (hfits x hx)
  | gcd => exact pair_fails hlength fun x hx y hy => gcd_fails hmax (hfits x hx) (hfits y hy)
  | toCartesian =>
      exact pair_fails hlength fun x hx y _ => toCartesian_fails (hfits x hx).isFinite y
  | add | subtract | multiply | divide | modulo | power | root | logarithm | direction | beta =>
      exact pair_fails hlength fun x _ y _ => fails_guarded rfl _ _
  | _ => exact unary_fails hlength fun x _ => fails_guarded rfl _ _

/-! ## Exposed symbols -/

/-- The symbols of the exposed operations. -/
def exposedSymbols : List (List Char) :=
  ["nPr".toList, "nCr".toList, "perm".toList, "comb".toList, "lcm".toList, "LCM".toList,
    "RandInt".toList, "Pol".toList]

/-- An entry does what an operation does, and its symbol tells whether the operation is exposed. -/
def Entry.Performs (entry : Entry) : Prop := ∃ operation : Operation,
  entry.action = operation.action ∧ entry.arity = operation.arity ∧
    (operation.Exposed → entry.symbol ∈ exposedSymbols)

theorem performs_entry {symbol : List Char} {arity : Nat} {precedence : Int}
    {associativity : Associativity} {fixity : Fixity} {operation : Operation}
    (harity : arity = operation.arity) (exposed : operation.Exposed → symbol ∈ exposedSymbols) :
    Entry.Performs ⟨symbol, arity, precedence, associativity, fixity, operation.action⟩ :=
  ⟨operation, rfl, harity, exposed⟩

/-- **Every built-in symbol does what an operation does.** -/
theorem performs_builtin : ∀ entry ∈ Builtin.entries, entry.Performs := by
  simp only [Builtin.entries, Builtin.trigonometric, Builtin.between, Builtin.function,
    Builtin.root, Entry.between, Entry.before, Entry.after, List.cons_append, List.nil_append,
    List.forall_mem_cons, List.not_mem_nil, IsEmpty.forall_iff, implies_true, and_true]
  and_intros
  all_goals exact performs_entry rfl (by decide)

/-! ## The machine -/

namespace Failure

/-- A failure that is reported to the user. -/
def IsFault : Failure → Prop
  | .fault _ => True
  | .signal _ | .stalled _ => False

theorem IsFault.exists_cause {failure : Failure} (h : failure.IsFault) :
    ∃ cause, failure = .fault cause := by
  cases failure with
  | fault cause => exact ⟨cause, rfl⟩
  | signal | stalled => exact h.elim

theorem isFault_ofOperation {cause : OperationError} (h : cause.IsFault) :
    (ofOperation cause).IsFault := by
  cases cause with
  | fault => trivial
  | signal => exact h

end Failure

/-- A token that does not stand for an exposed operation. -/
def Token.Hidden (t : Token) : Prop :=
  t.kind = .operator ∨ t.kind = .function → t.text ∉ exposedSymbols

theorem Token.hidden_number (text : List Char) : (number text).Hidden := by
  rintro (h | h) <;> cases h

namespace Machine

variable {s : Settings} {stack : List Value} {t : Token}

/-- **What is known of the stack**: its values fit, and there are none if the precision is beyond the
largest one. -/
structure Loaded (s : Settings) (stack : List Value) : Prop where
  fits : StackFits s stack
  bounded : stack ≠ [] → s.precision ≤ Format.maxPrecision

theorem loaded_nil : Loaded s [] := ⟨stackFits_nil, fun h => absurd rfl h⟩

theorem readLiteral_fails (text : List Char) :
    (readLiteral s text).FailsWith OperationError.IsFault := by
  unfold readLiteral
  split
  · exact Outcome.fails_fail _
  · split
    · exact failsWith_ok _
    · exact Outcome.fails_fail _

/-- No number is read in a precision that is too large. -/
theorem precision_le_of_readLiteral {text : List Char} {x : Number}
    (h : readLiteral s text = .ok x) : s.precision ≤ Format.maxPrecision := by
  unfold readLiteral at h
  split at h
  · cases h
  · split at h
    · rename_i hplus
      obtain ⟨u, hcheck, -⟩ := bind_eq_ok.mp hplus
      exact Number.le_of_check (f := s.format) hcheck
    · cases h

theorem Operation.arity_pos (operation : Operation) : 0 < operation.arity := by
  cases operation <;> decide

section Apply

variable {entry : Entry} (performs : entry.Performs) (hstack : Loaded s stack)

include performs hstack

theorem bounded_of_le (h : entry.arity ≤ stack.length) :
    s.precision ≤ Format.maxPrecision := by
  obtain ⟨operation, -, harity, -⟩ := performs
  have := Operation.arity_pos operation
  exact hstack.bounded fun hnil => by subst hnil; simp at h; omega

theorem apply_reports (hidden : entry.symbol ∉ exposedSymbols) :
    (apply s entry stack).FailsWith Failure.IsFault := by
  rw [apply]
  split
  · exact Drawing.failsWith_error trivial
  · have hlength : entry.arity ≤ stack.length := by omega
    have hmax := bounded_of_le performs hstack hlength
    obtain ⟨operation, haction, harity, hexposed⟩ := performs
    have hcount : ((stack.take entry.arity).reverse.map Value.operand).length =
        operation.arity := by
      rw [List.length_map, List.length_reverse, List.length_take, harity]
      omega
    have hoperands : ∀ x ∈ (stack.take entry.arity).reverse.map Value.operand,
        x.Fits s.format := by
      intro x hx
      obtain ⟨v, hv, rfl⟩ := List.mem_map.mp hx
      exact (hstack.fits v (List.mem_of_mem_take (List.mem_reverse.mp hv))).operand
    have hresult := operation.action_fails (fun h => hidden (hexposed h)) hmax hcount hoperands
    rw [haction]
    exact (Drawing.FailsWith.mapError
      (hresult.mono fun _ => Failure.isFault_ofOperation)).map _

end Apply

theorem performs_of_lookup {symbol : List Char} {entry : Entry}
    (h : Registry.builtin.lookup symbol = .ok entry) : entry.Performs ∧ entry.symbol = symbol := by
  obtain ⟨hmem, hsymbol⟩ := Registry.mem_of_lookup h
  exact ⟨performs_builtin entry hmem, hsymbol⟩

theorem loaded_iff : Loaded s stack ↔
    ∀ v ∈ stack, v.Fits s.format ∧ s.precision ≤ Format.maxPrecision := by
  refine ⟨fun h v hv => ⟨h.fits v hv, h.bounded (List.ne_nil_of_mem hv)⟩, fun h =>
    ⟨fun v hv => (h v hv).1, fun hne => ?_⟩⟩
  obtain ⟨v, hv⟩ := List.exists_mem_of_ne_nil stack hne
  exact (h v hv).2

/-- No operation takes no operands. -/
theorem operation_bounded (operation : Operation) (operands : List Value)
    (h : ∀ v ∈ operands, s.precision ≤ Format.maxPrecision) :
    (operation.action (operands.map Value.operand) s).Gives fun _ =>
      s.precision ≤ Format.maxPrecision := by
  cases operands with
  | nil =>
      have hnone : ∃ cause, operation.action [] s = .error cause := by
        cases operation <;> exact ⟨_, rfl⟩
      obtain ⟨cause, hcause⟩ := hnone
      rw [List.map_nil, hcause]
      exact Drawing.gives_error _
  | cons v operands => exact fun _ _ => h v List.mem_cons_self

theorem operation_loaded (operation : Operation) (operands : List Value)
    (h : ∀ v ∈ operands, v.Fits s.format ∧ s.precision ≤ Format.maxPrecision) :
    (operation.action (operands.map Value.operand) s).Gives fun v =>
      v.Fits s.format ∧ s.precision ≤ Format.maxPrecision := fun v hv =>
  ⟨operation_fits operation operands (fun v hv => (h v hv).1) v hv,
    operation_bounded operation operands (fun v hv => (h v hv).2) v hv⟩

/-- **One step keeps the stack loaded.** -/
theorem step_loaded (hstack : Loaded s stack) (hnumeric : t.Numeric) :
    (step Registry.builtin s stack t).Gives (Loaded s) := by
  refine (step_keeps operation_loaded ?_ (loaded_iff.mp hstack)).mono fun _ => loaded_iff.mpr
  exact fun hkind x hx => ⟨readLiteral_gives (hnumeric hkind) x hx, precision_le_of_readLiteral hx⟩

/-- **Nothing lies on the stack in a precision that is too large.** -/
theorem run_bounded (tokens : List Token) : (run Registry.builtin s [] tokens).Gives fun stack =>
    ∀ v ∈ stack, s.precision ≤ Format.maxPrecision :=
  run_keeps operation_bounded (fun _ _ _ _ => precision_le_of_readLiteral) (List.forall_mem_nil _)

theorem precision_le_of_evaluate (tokens : List Token) :
    (evaluate Registry.builtin s tokens).Gives fun _ => s.precision ≤ Format.maxPrecision := by
  refine (run_bounded tokens).bind fun stack hstack => Drawing.gives_still ?_
  unfold answer
  split
  · exact fun _ _ => hstack _ List.mem_cons_self
  · exact gives_error _

/-- **One step reports every failure**, unless its symbol is exposed. -/
theorem step_reports (hstack : Loaded s stack) (hidden : t.Hidden) :
    (step Registry.builtin s stack t).FailsWith Failure.IsFault := by
  by_cases hnumber : t.kind = .number
  · rw [step_number hnumber]
    exact Drawing.failsWith_still <|
      ((readLiteral_fails t.text).mono fun _ => Failure.isFault_ofOperation).mapError.map _
  by_cases hsymbol : t.kind = .operator ∨ t.kind = .function
  · have hlookup : ((Registry.builtin.lookup t.text).mapError Failure.fault).FailsWith
        Failure.IsFault := FailsWith.mapError fun _ _ => trivial
    rw [step_symbol hsymbol]
    refine (Drawing.failsWith_still hlookup).bind fun entry hentry => ?_
    have hfound := mapError_eq_ok.mp (Drawing.yields_still.mp hentry)
    obtain ⟨performs, heq⟩ := performs_of_lookup hfound
    exact apply_reports performs hstack (heq ▸ hidden hsymbol)
  · rw [step_unexpected hnumber hsymbol]
    exact Drawing.failsWith_error trivial

/-- **A run reports every failure.** -/
theorem run_reports {tokens : List Token} (hnumeric : ∀ t ∈ tokens, t.Numeric)
    (hidden : ∀ t ∈ tokens, t.Hidden) : ∀ {stack : List Value}, Loaded s stack →
      (run Registry.builtin s stack tokens).FailsWith Failure.IsFault := by
  induction tokens with
  | nil => exact fun hstack => Drawing.failsWith_ok _
  | cons t tokens ih =>
      intro stack hstack
      obtain ⟨ht, hnumeric⟩ := List.forall_mem_cons.mp hnumeric
      obtain ⟨ht', hidden⟩ := List.forall_mem_cons.mp hidden
      rw [run_cons]
      exact (step_reports hstack ht').bind fun stack' h =>
        ih hnumeric hidden (step_loaded hstack ht stack' h)

/-- An answer is a number that can be shown. -/
theorem evaluate_reports {tokens : List Token} (hnumeric : ∀ t ∈ tokens, t.Numeric)
    (hidden : ∀ t ∈ tokens, t.Hidden) :
    (evaluate Registry.builtin s tokens).FailsWith Failure.IsFault := by
  refine (run_reports hnumeric hidden loaded_nil).bind fun stack hstack =>
    Drawing.failsWith_still ?_
  unfold answer
  split
  · rename_i value
    have hfits := run_gives hnumeric stackFits_nil _ hstack value List.mem_cons_self
    have hmax := run_bounded tokens _ hstack value List.mem_cons_self
    obtain ⟨x, hx⟩ := hfits.toScalar_ok hmax s.locale
    rw [hx]
    exact failsWith_ok _
  · exact failsWith_error trivial

end Machine

/-! ## Expressions -/

namespace Calculator

open CommandLine

variable {c : Calculator} {vars : Variables} {text e : List Char}
  {valueOf : List Char → Drawing Failure Number}

/-- An expression without exposed symbols, whose constants have values. -/
def Hidden (c : Calculator) (e : List Char) : Prop :=
  ∀ tokens, c.tokenize e = .ok tokens → ∀ t ∈ tokens,
    t.Hidden ∧ (t.kind = .constant → ∃ x, c.constantValue t = .ok x)

theorem hidden_of_tokenize {tokens : List Token} (h : c.tokenize e = .ok tokens)
    (hidden : ∀ t ∈ tokens, t.text ∉ exposedSymbols ∧ t.kind ≠ .constant) : c.Hidden e := by
  intro tokens' h' t ht
  obtain rfl := Except.ok.inj (h.symm.trans h')
  exact ⟨fun _ => (hidden t ht).1, fun hkind => absurd hkind (hidden t ht).2⟩

theorem tokenize_reports (builtin : c.registry = .builtin) (text : List Char) :
    (c.tokenize text).FailsWith Failure.IsFault := by
  have hsymbols : [] ∉ c.lexicon.symbols := by
    rw [lexicon, builtin]
    decide
  refine (Lexicon.tokenize_fails c.symbols_ne_nil text).mono fun failure h => ?_
  cases failure with
  | fault => trivial
  | signal => exact h
  | stalled => exact absurd h hsymbols

theorem substitute_reports {tokens : List Token}
    (hidden : ∀ t ∈ tokens, t.Hidden ∧ (t.kind = .constant → ∃ x, c.constantValue t = .ok x))
    (hvalue : ∀ name, Token.reference name ∈ tokens → (valueOf name).FailsWith Failure.IsFault) :
    (c.substitute valueOf tokens).FailsWith Failure.IsFault ∧
      (c.substitute valueOf tokens).Gives fun tokens => ∀ t ∈ tokens, t.Hidden := by
  induction tokens with
  | nil => exact ⟨Drawing.failsWith_ok _, Drawing.gives_ok nofun⟩
  | cons t tokens ih =>
      obtain ⟨ht, hidden⟩ := List.forall_mem_cons.mp hidden
      have hrest := ih hidden fun name hname => hvalue name (List.mem_cons_of_mem t hname)
      have htoken : (c.substituteToken valueOf t).FailsWith Failure.IsFault ∧
          (c.substituteToken valueOf t).Gives Token.Hidden := by
        obtain ⟨kind, text⟩ := t
        cases kind with
        | constant =>
            obtain ⟨x, hx⟩ := ht.2 rfl
            refine ⟨Drawing.failsWith_still (FailsWith.map ?_ _),
              Drawing.gives_still (Gives.map fun _ _ => Token.hidden_number _)⟩
            rw [hx]
            exact failsWith_ok _
        | reference =>
            exact ⟨(hvalue text List.mem_cons_self).map _,
              Drawing.Gives.map fun _ _ => Token.hidden_number _⟩
        | _ => exact ⟨Drawing.failsWith_ok _, Drawing.gives_ok ht.1⟩
      rw [substitute_cons]
      exact ⟨htoken.1.bind fun t' _ => hrest.1.map _, htoken.2.bind fun t' ht' =>
        Drawing.Gives.map fun tokens' h => List.forall_mem_cons.mpr ⟨ht', hrest.2 tokens' h⟩⟩

section

variable (builtin : c.registry = .builtin)

include builtin

theorem reversePolishWith_reports (hidden : c.Hidden e)
    (hvalue : ∀ name, c.Occurs e name → (valueOf name).FailsWith Failure.IsFault) :
    (c.reversePolishWith valueOf e).FailsWith Failure.IsFault ∧
      (c.reversePolishWith valueOf e).Gives fun tokens => ∀ t ∈ tokens, t.Hidden := by
  have hsubstitute := fun tokens (h : c.tokenize e = .ok tokens) =>
    substitute_reports (hidden tokens h) fun name hname => hvalue name ⟨tokens, h, hname⟩
  constructor
  · refine (Drawing.failsWith_still (tokenize_reports builtin e)).bind fun tokens h => ?_
    exact (hsubstitute tokens (Drawing.yields_still.mp h)).1.bind fun _ _ =>
      Drawing.failsWith_still (FailsWith.mapError fun _ _ => trivial)
  · intro out hout
    obtain ⟨tokens, replaced, h, hreplaced, hreorder⟩ := reversePolishWith_inv hout
    exact fun t ht => (hsubstitute tokens h).2 replaced hreplaced t
      (ReversePolish.reorder_subset hreorder t ht)

/-- What is answered can be shown: it fits a format of a precision that is not too large. -/
def Showable (x : Scalar) : Prop :=
  ∃ f : Format, f.precision ≤ Format.maxPrecision ∧ x.number.Fits f

omit builtin in
theorem display_ok {x : Scalar} (h : Showable x) (grouping : Bool) :
    ∃ shown, c.display x grouping = .ok shown := by
  obtain ⟨f, hmax, hfits⟩ := h
  obtain ⟨shown, hshown⟩ := Number.display_ok hmax hfits c.settings.locale grouping
  unfold display Scalar.display
  split
  · exact ⟨_, rfl⟩
  · exact ⟨shown, by rw [hshown]; rfl⟩

theorem evaluateWith_reports (hidden : c.Hidden e)
    (hfinite : ∀ name, (valueOf name).Gives Number.IsFinite)
    (hvalue : ∀ name, c.Occurs e name → (valueOf name).FailsWith Failure.IsFault) :
    (c.evaluateWith valueOf e).FailsWith Failure.IsFault ∧
      (c.evaluateWith valueOf e).Gives Showable := by
  have hfits := evaluateWith_gives builtin hfinite e
  unfold evaluateWith at hfits ⊢
  split
  · exact ⟨Drawing.failsWith_ok _, Drawing.gives_ok ⟨⟨1, .halfEven⟩, by decide,
      Number.fits_number_zero Nat.one_pos⟩⟩
  · rename_i hblank
    rw [if_neg hblank] at hfits
    obtain ⟨hfails, hgives⟩ := reversePolishWith_reports builtin hidden hvalue
    have hnumeric := reversePolishWith_gives builtin hfinite e
    rw [builtin]
    refine ⟨hfails.bind fun tokens h => ?_, fun x hx => ?_⟩
    · exact Machine.evaluate_reports (hnumeric tokens h) (hgives tokens h)
    · rw [builtin] at hfits
      obtain ⟨tokens, -, hevaluate⟩ := hx.of_bind
      exact ⟨c.settings.format,
        Machine.precision_le_of_evaluate tokens x hevaluate, hfits x hx⟩

/-- A variable is met with whatever expressions are being evaluated. -/
theorem valueOf_reports (hvars : Finite vars) (hidden : ∀ e, c.Meets vars text e → c.Hidden e)
    (depth : Nat) : ∀ resolving e name, c.Meets vars text e → c.Occurs e name →
      (c.valueOf vars depth resolving name).FailsWith Failure.IsFault := by
  induction depth with
  | zero =>
      intro resolving e name met occurs
      unfold Calculator.valueOf
      split
      · exact Drawing.failsWith_error trivial
      · exact Drawing.failsWith_ok _
      · split <;> exact Drawing.failsWith_error trivial
  | succ depth ih =>
      intro resolving e name met occurs
      unfold Calculator.valueOf
      split
      · exact Drawing.failsWith_error trivial
      · exact Drawing.failsWith_ok _
      · rename_i definition bound
        have met' := met.through occurs bound
        split
        · exact Drawing.failsWith_error trivial
        · exact (evaluateWith_reports builtin (hidden definition met')
            (valueOf_gives builtin hvars depth _) fun target =>
              ih _ definition target met').1.map _

theorem compute_reports (hvars : Finite vars) (hidden : ∀ e, c.Meets vars text e → c.Hidden e) :
    (c.compute text vars).FailsWith Failure.IsFault ∧ (c.compute text vars).Gives Showable :=
  evaluateWith_reports builtin (hidden text .itself) (valueOf_gives builtin hvars _ _)
    fun name => valueOf_reports builtin hvars hidden _ _ text name .itself

omit builtin in
theorem finite_empty : Finite {} := nofun

omit builtin in
/-- Without variables only the text itself is met. -/
theorem hidden_of_meets (hidden : c.Hidden text) : ∀ e, c.Meets {} text e → c.Hidden e := by
  intro e met
  cases met with
  | itself => exact hidden
  | through met occurs bound => cases bound

/-- What has a value is rendered. -/
theorem render_reports (hvars : Finite vars) (hidden : ∀ e, c.Meets vars text e → c.Hidden e)
    (grouping : Bool) : (c.render text vars grouping).FailsWith Failure.IsFault := by
  obtain ⟨hfails, hgives⟩ := compute_reports builtin hvars hidden
  refine FailsWith.bind (hfails c.generator) fun x hx => ?_
  obtain ⟨shown, hshown⟩ := display_ok (c := c) (hgives x (Drawing.yields_of_outcome hx)) grouping
  rw [hshown]
  exact failsWith_ok _

theorem dump_reports (hidden : c.Hidden text) : (dump c text).FailsWith Failure.IsFault := by
  have hvalue : ∀ name, c.Occurs text name →
      (c.valueOf {} 0 [] name).FailsWith Failure.IsFault := fun name =>
    valueOf_reports builtin finite_empty (hidden_of_meets hidden) 0 [] text name .itself
  have hpolish := (reversePolishWith_reports builtin hidden hvalue).1
  refine (tokenize_reports builtin text).bind fun tokens _ => ?_
  refine FailsWith.bind (hpolish c.generator) fun ordered _ => ?_
  exact FailsWith.bind (FailsWith.mapError fun _ _ => trivial) fun _ _ => failsWith_ok _

/-- A line of the command line is always reported on. -/
theorem reportFrom_ok (task : CommandLine.Task) (grouping : Bool) {line : List Char}
    (hidden : c.Hidden (Text.strip line)) (g : Generator) :
    ∃ report g', reportFrom c task grouping line g = (.ok report, g') := by
  have hperform : (perform c task grouping (Text.strip line)).FailsWith Failure.IsFault := by
    cases task with
    | dump => exact Drawing.failsWith_still (dump_reports builtin hidden)
    | evaluate | grammar =>
        obtain ⟨hfails, hgives⟩ := compute_reports builtin finite_empty (hidden_of_meets hidden)
        refine hfails.bind fun x hx => Drawing.failsWith_still ?_
        obtain ⟨shown, hshown⟩ := display_ok (c := c) (hgives x hx) grouping
        rw [hshown]
        exact failsWith_ok _
  rw [reportFrom]
  split
  · exact ⟨_, _, rfl⟩
  · rw [Drawing.handle]
    rcases hresult : perform c task grouping (Text.strip line) g with ⟨failure | text, g'⟩
    · obtain ⟨cause, rfl⟩ :=
        (hperform g failure (Drawing.outcome_eq_error.mpr ⟨g', hresult⟩)).exists_cause
      exact ⟨_, _, rfl⟩
    · exact ⟨_, _, rfl⟩

/-- **Every failure is reported** where no exposed symbol is met and the constants that are met have
values: the text is evaluated, attempted and rendered with a result or a fault, and the lines of a
run are all reported on, whatever is done with them. -/
theorem failures_reported (hvars : Finite vars) (hidden : ∀ e, c.Meets vars text e → c.Hidden e) :
    (c.evaluate text vars).FailsWith Failure.IsFault ∧
    (∃ outcome, c.attempt text vars = .ok outcome) ∧
    (∀ grouping, (c.render text vars grouping).FailsWith Failure.IsFault) ∧
    ∀ task grouping lines, (∀ line ∈ lines, c.Hidden (Text.strip line)) →
      (reports c task grouping lines).2 = none := by
  have hfails := (compute_reports builtin hvars hidden).1 c.generator
  refine ⟨hfails, ?_, render_reports builtin hvars hidden, fun task grouping lines hlines => ?_⟩
  · unfold attempt
    split
    · exact ⟨_, rfl⟩
    · exact ⟨_, rfl⟩
    · rename_i failure hfault herror
      obtain ⟨cause, rfl⟩ := (hfails failure herror).exists_cause
      exact absurd rfl (hfault cause)
  · clear hvars hidden hfails
    induction lines generalizing c with
    | nil => rfl
    | cons line lines ih =>
        obtain ⟨hline, hlines⟩ := List.forall_mem_cons.mp hlines
        obtain ⟨report, g', hreport⟩ := reportFrom_ok builtin task grouping hline c.generator
        rw [reports, hreport]
        exact ih builtin hlines

end

/-- A quotient by a variable that comes out as zero is a fault, and is reported as one. -/
theorem failures_reported_quotient :
    let vars : Variables := .ofList [(['x'], .expression "gcd(4;6)-2".toList)]
    ({} : Calculator).evaluate "abs(-7)/x".toList vars =
        .error (.fault (.domain .divisionByZero)) ∧
      ({} : Calculator).attempt "abs(-7)/x".toList vars = .ok (.error (.domain .divisionByZero)) ∧
      (({} : Calculator).evaluate "abs(-7)/x".toList vars).FailsWith Failure.IsFault := by
  intro vars
  have hfind : ∀ name definition, vars.find? name = some (.expression definition) →
      definition = "gcd(4;6)-2".toList := by
    intro name definition hbound
    rw [show vars = Variables.bind {} ['x'] _ from rfl, Variables.find?_bind] at hbound
    split at hbound
    · cases hbound
      rfl
    · cases hbound
  have hidden : ∀ e, ({} : Calculator).Meets vars "abs(-7)/x".toList e →
      ({} : Calculator).Hidden e := by
    intro e met
    cases met with
    | itself =>
        have htokens : ({} : Calculator).tokenize "abs(-7)/x".toList =
            .ok [.function "abs".toList, .leftParen, .number "-7".toList, .rightParen,
              .operator ['/'], .reference ['x']] := by
          decide +kernel
        exact hidden_of_tokenize htokens (by decide)
    | through _ _ bound =>
        rw [hfind _ _ bound]
        have htokens : ({} : Calculator).tokenize "gcd(4;6)-2".toList =
            .ok [.function "gcd".toList, .leftParen, .number ['4'], .separator, .number ['6'],
              .rightParen, .operator ['-'], .number ['2']] := by
          decide +kernel
        exact hidden_of_tokenize htokens (by decide)
  have hvars : Finite vars := by
    intro name x hbound
    rw [show vars = Variables.bind {} ['x'] _ from rfl, Variables.find?_bind] at hbound
    split at hbound <;> cases hbound
  exact ⟨by decide +kernel, by decide +kernel, (failures_reported rfl hvars hidden).1⟩

/-- **Exposed symbols let signals through**: a selection of more things than fit a machine word, a
square that is too large for the exponent range, and bounds too long for a message. -/
theorem evaluate_exposed :
    ({} : Calculator).evaluate "Pol(10^600000;1)".toList = .error (.signal .overflow) ∧
      ({} : Calculator).attempt "Pol(10^600000;1)".toList = .error (.signal .overflow) ∧
      ({} : Calculator).evaluate "perm(20000000000000000000;10000000000000000000)".toList =
        .error (.signal .wordOverflow) ∧
      ({} : Calculator).evaluate "RandInt(10^5000;1)".toList =
        .error (.signal .tooLongToWrite) := by
  decide +kernel

end Calculator

end DecimalCalc
