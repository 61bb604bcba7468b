import DecimalCalc.Proofs.NumberText
import DecimalCalc.Proofs.StackMachine
import DecimalCalc.Proofs.WholeFunctions

/-!
# Integer arithmetic that fits is exact

The exact value of a tree over integer literals (`Tree.exactValue?`) is computed without a precision
and without any decimals. It is defined for the operations that make integers out of integers, where
they have an integer as their result. If the exact values of all subtrees have no more digits than
the precision, then the machine answers the exact value (`Machine.evaluate_exact`): each literal and
each operation is answered exactly, so that the operation above it gets the integers that it would
get in the exact computation.
-/

set_option autoImplicit false

namespace DecimalCalc

open scoped Nat

/-! ## Literals of integers -/

namespace Text

/-- The number that digits of any script write; there has to be one at least. -/
def natural? (text : List Char) : Option Nat :=
  if text ≠ [] ∧ text.all isDigit = true then
    some (Nat.ofDigits 10 (text.filterMap digitValue?).reverse)
  else none

/-- **The integer that a literal writes**: digits, perhaps after a minus sign. Underscores do not
count. -/
def integer? (text : List Char) : Option Int :=
  match text.filter (· ≠ '_') with
  | '-' :: digits => (natural? digits).map fun (n : Nat) => -(n : Int)
  | digits => (natural? digits).map fun (n : Nat) => (n : Int)

theorem natural?_eq_some {digits : List Char} {n : Nat} (h : natural? digits = some n) :
    digits ≠ [] ∧ (∀ c ∈ digits, isDigit c = true) ∧
      digitsValue (digits.filterMap digitValue?) = n := by
  unfold natural? at h
  split at h
  · rename_i hdigits
    exact ⟨hdigits.1, List.all_eq_true.mp hdigits.2, (digitsValue_eq _).trans (Option.some.inj h)⟩
  · cases h

/-- A literal of an integer is a row of digits, with or without a sign. -/
theorem integer?_eq_some {text : List Char} {n : Int} (h : integer? text = some n) :
    ∃ negative digits, text.filter (· ≠ '_') = (if negative then ['-'] else []) ++ digits ∧
      digits ≠ [] ∧ (∀ c ∈ digits, isDigit c = true) ∧
      Decimal.Whole ⟨negative, digitsValue (digits.filterMap digitValue?), 0⟩ n := by
  unfold integer? at h
  split at h
  · rename_i digits hfilter
    obtain ⟨m, hm, rfl⟩ := Option.map_eq_some_iff.mp h
    obtain ⟨hne, hdigits, hvalue⟩ := natural?_eq_some hm
    exact ⟨true, digits, hfilter, hne, hdigits, rfl, by rw [hvalue]; rfl⟩
  · obtain ⟨m, hm, rfl⟩ := Option.map_eq_some_iff.mp h
    obtain ⟨hne, hdigits, hvalue⟩ := natural?_eq_some hm
    exact ⟨false, _, rfl, hne, hdigits, rfl, by rw [hvalue]; rfl⟩

theorem spanSign_signed {digits : List Char} (hdigits : ∀ c ∈ digits, isDigit c = true)
    (negative : Bool) :
    spanSign ((if negative then ['-'] else []) ++ digits) = (negative, digits) := by
  cases negative with
  | true => rfl
  | false =>
      cases digits with
      | nil => rfl
      | cons c digits =>
          have hdigit := hdigits c (by simp)
          show spanSign (c :: digits) = _
          rw [spanSign]
          · rintro _ ⟨⟩
            exact absurd hdigit (by decide)
          · rintro _ ⟨⟩
            exact absurd hdigit (by decide)

theorem isNumeric_signed {digits : List Char} (hdigits : ∀ c ∈ digits, isDigit c = true)
    (negative : Bool) : ∀ c ∈ (if negative then ['-'] else []) ++ digits, IsNumeric c := by
  intro c hc
  rcases List.mem_append.mp hc with hsign | hc
  · cases negative with
    | true => exact .inr (.inr (.inl (List.mem_singleton.mp hsign)))
    | false => cases hsign
  · exact .inl (hdigits c hc)

end Text

open Text

/-- Digits without a point are read as an integer. -/
theorem Decimal.readUnsigned?_digits {digits : List Char} (hne : digits ≠ [])
    (hdigits : ∀ c ∈ digits, isDigit c = true) (negative : Bool)
    (hplace : (digitCount (digitsValue (digits.filterMap digitValue?)) : Int) ≤ maxWrittenPlace) :
    readUnsigned? negative digits =
      some ⟨negative, digitsValue (digits.filterMap digitValue?), 0⟩ := by
  have hnone : ∀ c ∈ ([] : List Char), isDigit c = true := nofun
  have hread := readUnsigned?_point hdigits hne hnone negative
  have hadjusted : ¬(maxWrittenPlace <
      adjusted ⟨negative, digitsValue (digits.filterMap digitValue?), 0⟩) := by
    unfold adjusted Decimal.digits
    dsimp only
    omega
  rw [if_pos rfl, List.append_nil] at hread
  rw [hread]
  simp [hadjusted, minWrittenExponent]

/-- **A literal of an integer is read exactly**, if there is room for the integer. -/
theorem readLiteral_answers {s : Settings} (hmax : s.precision ≤ 999999) {text : List Char}
    {n : Int} (h : integer? text = some n) (holds : s.format.Holds n) :
    Answers (readLiteral s text) n := by
  obtain ⟨negative, digits, hfilter, hne, hdigits, hwhole⟩ := integer?_eq_some h
  have hnumeric := isNumeric_signed hdigits negative
  have hread : Number.read? ((if negative then ['-'] else []) ++ digits) =
      some (.finite ⟨negative, digitsValue (digits.filterMap digitValue?), 0⟩) := by
    rw [Number.read?_numeric hnumeric,
      strip_of_not_blank fun c hc => Decimal.not_blank_of_isNumeric (hnumeric c hc),
      spanSign_signed hdigits, Decimal.readUnsigned?_digits hne hdigits]
    · rfl
    · have hplace := holds.place
      rw [← hwhole.coefficient] at hplace
      exact hplace.trans (by decide)
  obtain ⟨z, hz, wz⟩ := Number.plus_answers (Functions.room hmax) ⟨_, rfl, hwhole⟩ holds
  refine ⟨z, ?_, wz⟩
  rw [readLiteral, hfilter, hread]
  simp only [hz]

/-! ## Exact values -/

namespace Operation

/-- **The exact result of an operation on integers**, where it is defined. A remainder is from zero
up to the magnitude of the divisor, exponents are not negative, and zero to the power of zero is
one. -/
def exactResult? : Operation → List Int → Option Int
  | .add, [a, b] => some (a + b)
  | .subtract, [a, b] => some (a - b)
  | .multiply, [a, b] => some (a * b)
  | .modulo, [a, b] => if b = 0 then none else some (a % b)
  | .power, [a, b] => if 0 ≤ b then some (a ^ b.toNat) else none
  | .negate, [a] => some (-a)
  | .absolute, [a] => some |a|
  | .factorial, [a] => if 0 ≤ a then some (a.toNat)! else none
  | .permutation, [n, k] =>
    if 0 ≤ k ∧ k ≤ n then some (n.toNat.descFactorial k.toNat) else none
  | .combination, [n, k] => if 0 ≤ k ∧ k ≤ n then some (n.toNat.choose k.toNat) else none
  | .gcd, [a, b] => some (a.gcd b)
  | .lcm, [a, b] => some (a.lcm b)
  | _, _ => none

/-- The number of operands of an operation with exact results. -/
def exactArity : Operation → Nat
  | .negate | .absolute | .factorial => 1
  | _ => 2

theorem length_of_exactResult? {operation : Operation} {ns : List Int} {n : Int}
    (h : operation.exactResult? ns = some n) : ns.length = operation.exactArity := by
  unfold exactResult? at h
  split at h
  all_goals first | rfl | cases h

/-- The symbols of the operations with exact results. -/
def exactSymbols : List (List Char × Operation) :=
  [("+".toList, .add), ("-".toList, .subtract), ("*".toList, .multiply), ("×".toList, .multiply),
    ("%".toList, .modulo), ("^".toList, .power), ("nPr".toList, .permutation),
    ("nCr".toList, .combination), ("!".toList, .factorial), ("neg".toList, .negate),
    ("abs".toList, .absolute), ("perm".toList, .permutation), ("comb".toList, .combination),
    ("gcd".toList, .gcd), ("GCD".toList, .gcd), ("lcm".toList, .lcm), ("LCM".toList, .lcm)]

/-- The operation with exact results that a symbol stands for. -/
def ofSymbol? (symbol : List Char) : Option Operation :=
  (exactSymbols.find? fun entry => entry.1 = symbol).map Prod.snd

/-- The built-in entries of these symbols do the operations. -/
theorem lookup_of_ofSymbol? {symbol : List Char} {operation : Operation}
    (h : ofSymbol? symbol = some operation) : ∃ entry, Registry.builtin.lookup symbol = .ok entry ∧
      entry.action = operation.action ∧ entry.arity = operation.exactArity := by
  have hlisted : ∀ listed ∈ exactSymbols, ∃ entry,
      Registry.builtin.lookup listed.1 = .ok entry ∧ entry.action = listed.2.action ∧
        entry.arity = listed.2.exactArity := by
    simp only [exactSymbols, List.forall_mem_cons]
    refine ⟨?_, ?_, ?_, ?_, ?_, ?_, ?_, ?_, ?_, ?_, ?_, ?_, ?_, ?_, ?_, ?_, ?_, nofun⟩
    all_goals exact ⟨_, rfl, rfl, rfl⟩
  obtain ⟨listed, hfind, rfl⟩ := Option.map_eq_some_iff.mp h
  have hsymbol : listed.1 = symbol := by simpa using List.find?_some hfind
  exact hsymbol ▸ hlisted listed (List.mem_of_find?_eq_some hfind)

end Operation

namespace Tree

mutual

/-- **The exact value of a tree** over integer literals, where it is defined and an integer. -/
def exactValue? : Tree → Option Int
  | .number text => Text.integer? text
  | .node symbol operands =>
    if symbol.kind = .operator ∨ symbol.kind = .function then do
      let operation ← Operation.ofSymbol? symbol.text
      operation.exactResult? (← exactValues? operands)
    else none

/-- The exact values of some trees. -/
def exactValues? : List Tree → Option (List Int)
  | [] => some []
  | t :: ts => do return (← t.exactValue?) :: (← exactValues? ts)

end

/-- **All exact values have at most so many digits**, of the tree and of all its subtrees. -/
def ExactWithin (digits : Nat) (t : Tree) : Prop :=
  ∀ u ∈ t.subtrees, ∃ n, u.exactValue? = some n ∧ n.natAbs < 10 ^ digits

end Tree

/-! ## Operations on integers -/

namespace Functions

variable {s : Settings} {xs : List Number} {a b n : Int}

/-- A function of an integer. -/
theorem unary_answers {f : Settings → Number → Outcome Number}
    (hxs : List.Forall₂ Number.Whole xs [a]) (h : ∀ x, x.Whole a → Answers (f s x) n) :
    ∃ z, unary f xs s = .ok (.number z) ∧ z.Whole n := by
  obtain ⟨x, _, hx, ⟨⟩, rfl⟩ := List.forall₂_cons_right_iff.mp hxs
  obtain ⟨z, hz, wz⟩ := h x hx
  exact ⟨z, by rw [unary, hz]; rfl, wz⟩

/-- A function of two integers. -/
theorem binary_answers {f : Settings → Number → Number → Outcome Number}
    (hxs : List.Forall₂ Number.Whole xs [a, b])
    (h : ∀ x y, x.Whole a → y.Whole b → Answers (f s x y) n) :
    ∃ z, binary f xs s = .ok (.number z) ∧ z.Whole n := by
  obtain ⟨x, _, hx, hys, rfl⟩ := List.forall₂_cons_right_iff.mp hxs
  obtain ⟨y, _, hy, ⟨⟩, rfl⟩ := List.forall₂_cons_right_iff.mp hys
  obtain ⟨z, hz, wz⟩ := h x y hx hy
  exact ⟨z, by rw [binary, pair, hz]; rfl, wz⟩

end Functions

open Functions in
/-- **Operations on integers are exact**, where there is room for their operands and their
result. -/
theorem Operation.action_exact {s : Settings} (hmax : s.precision ≤ 999999)
    {operation : Operation} {ns : List Int} {n : Int} (h : operation.exactResult? ns = some n)
    (hoperands : ∀ m ∈ ns, s.format.Holds m) (holds : s.format.Holds n) {xs : List Number}
    (hxs : List.Forall₂ Number.Whole xs ns) :
    ∃ z, operation.action xs s = .ok (.number z) ∧ z.Whole n := by
  -- the cases are the operations in the order of their exact results
  unfold exactResult? at h
  split at h
  · obtain rfl := Option.some.inj h
    exact binary_answers hxs fun _ _ hx hy => add_answers hmax hx hy holds
  · obtain rfl := Option.some.inj h
    exact binary_answers hxs fun _ _ hx hy => subtract_answers hmax hx hy holds
  · obtain rfl := Option.some.inj h
    exact binary_answers hxs fun _ _ hx hy => multiply_answers hmax hx hy holds
  · obtain ⟨hdivisor, h⟩ := Option.ite_none_left_eq_some.mp h
    obtain rfl := Option.some.inj h
    exact binary_answers hxs fun _ _ hx hy =>
      modulo_answers hmax hx hy hdivisor (hoperands _ (by simp)) holds
  · obtain ⟨hexponent, h⟩ := Option.ite_none_right_eq_some.mp h
    obtain rfl := Option.some.inj h
    exact binary_answers hxs fun _ _ hx hy => power_answers hmax hx hy hexponent holds
  · obtain rfl := Option.some.inj h
    exact unary_answers hxs fun _ hx => negate_answers hmax hx holds
  · obtain rfl := Option.some.inj h
    exact unary_answers hxs fun _ hx => absolute_answers hmax hx holds
  · obtain ⟨hpos, h⟩ := Option.ite_none_right_eq_some.mp h
    obtain rfl := Option.some.inj h
    exact unary_answers hxs fun _ hx => factorial_answers hmax hx hpos holds
  · obtain ⟨⟨hpos, hle⟩, h⟩ := Option.ite_none_right_eq_some.mp h
    obtain rfl := Option.some.inj h
    exact binary_answers hxs fun _ _ hx hy => permutation_answers hmax hx hy hpos hle holds
  · obtain ⟨⟨hpos, hle⟩, h⟩ := Option.ite_none_right_eq_some.mp h
    obtain rfl := Option.some.inj h
    exact binary_answers hxs fun _ _ hx hy => combination_answers hmax hx hy hpos hle holds
  · obtain rfl := Option.some.inj h
    exact binary_answers hxs fun _ _ hx hy => gcd_answers hmax hx hy holds
  · obtain rfl := Option.some.inj h
    exact binary_answers hxs fun _ _ hx hy => lcm_answers hmax hx hy holds
  · cases h

/-! ## Trees of integers -/

namespace Tree

/-- What the exact value of a node is made of. -/
theorem exactValue?_node {symbol : Token} {operands : List Tree} {n : Int}
    (h : (Tree.node symbol operands).exactValue? = some n) :
    (symbol.kind = .operator ∨ symbol.kind = .function) ∧ ∃ operation ns,
      Operation.ofSymbol? symbol.text = some operation ∧ exactValues? operands = some ns ∧
        operation.exactResult? ns = some n := by
  rw [exactValue?] at h
  obtain ⟨kind, h⟩ := Option.ite_none_right_eq_some.mp h
  obtain ⟨operation, hoperation, h⟩ := Option.bind_eq_some_iff.mp h
  obtain ⟨ns, hns, h⟩ := Option.bind_eq_some_iff.mp h
  exact ⟨kind, operation, ns, hoperation, hns, h⟩

theorem exactValues?_cons {t : Tree} {ts : List Tree} {ns : List Int}
    (h : exactValues? (t :: ts) = some ns) :
    ∃ m ms, t.exactValue? = some m ∧ exactValues? ts = some ms ∧ ns = m :: ms := by
  rw [exactValues?] at h
  obtain ⟨m, hm, h⟩ := Option.bind_eq_some_iff.mp h
  obtain ⟨ms, hms, h⟩ := Option.bind_eq_some_iff.mp h
  exact ⟨m, ms, hm, hms, (Option.some.inj h).symm⟩

theorem length_of_exactValues? : ∀ {ts : List Tree} {ns : List Int}, exactValues? ts = some ns →
    ns.length = ts.length
  | [], ns, h => by
      obtain rfl := Option.some.inj h
      rfl
  | t :: ts, ns, h => by
      obtain ⟨m, ms, -, hms, rfl⟩ := exactValues?_cons h
      rw [List.length_cons, List.length_cons, length_of_exactValues? hms]

mutual

/-- A tree that has an exact value fits the registry. -/
theorem fits_of_exactValue? : ∀ {t : Tree} {n : Int}, t.exactValue? = some n →
    t.Fits Registry.builtin
  | .number text, _, _ => .number text
  | .node symbol operands, n, h => by
      obtain ⟨kind, operation, ns, hoperation, hns, hn⟩ := exactValue?_node h
      obtain ⟨entry, listed, -, arity⟩ := Operation.lookup_of_ofSymbol? hoperation
      refine .node kind listed ?_ (fits_of_exactValues? hns)
      rw [arity, ← Operation.length_of_exactResult? hn, length_of_exactValues? hns]

theorem fits_of_exactValues? : ∀ {ts : List Tree} {ns : List Int}, exactValues? ts = some ns →
    ∀ t ∈ ts, t.Fits Registry.builtin
  | [], _, _ => nofun
  | t :: ts, ns, h => by
      obtain ⟨m, ms, hm, hms, -⟩ := exactValues?_cons h
      exact List.forall_mem_cons.mpr ⟨fits_of_exactValue? hm, fits_of_exactValues? hms⟩

end

theorem self_mem_subtrees (t : Tree) : t ∈ t.subtrees := by
  cases t <;> simp [subtrees]

variable {s : Settings}

mutual

/-- **The value of a tree is its exact value**, where there is room for the exact values of all
subtrees. -/
theorem value_exact (hmax : s.precision ≤ 999999) : ∀ {t : Tree} {n : Int},
    t.exactValue? = some n → (∀ u ∈ t.subtrees, ∀ m, u.exactValue? = some m → s.format.Holds m) →
    ∃ z, t.value Registry.builtin s = .ok (.number z) ∧ z.Whole n
  | .number text, n, h, hroom => by
      have holds := hroom (.number text) (by simp [subtrees]) n h
      rw [exactValue?] at h
      obtain ⟨z, hz, wz⟩ := readLiteral_answers hmax h holds
      exact ⟨z, by rw [value, hz]; rfl, wz⟩
  | .node symbol operands, n, h, hroom => by
      have holds := hroom (.node symbol operands) (by simp [subtrees]) n h
      obtain ⟨-, operation, ns, hoperation, hns, hn⟩ := exactValue?_node h
      obtain ⟨entry, listed, haction, -⟩ := Operation.lookup_of_ofSymbol? hoperation
      have hbelow : ∀ u ∈ subtreesOf operands, ∀ m, u.exactValue? = some m → s.format.Holds m :=
        fun u hu => hroom u (by simp [subtrees, hu])
      obtain ⟨vs, hvs, wvs, hoperands⟩ := values_exact hmax hns hbelow
      obtain ⟨z, hz, wz⟩ := Operation.action_exact hmax hn hoperands holds wvs
      refine ⟨z, ?_, wz⟩
      rw [value, hvs]
      show applied Registry.builtin s symbol vs = _
      rw [applied]
      simp only [listed, haction, hz]
      rfl

theorem values_exact (hmax : s.precision ≤ 999999) : ∀ {ts : List Tree} {ns : List Int},
    exactValues? ts = some ns →
    (∀ u ∈ subtreesOf ts, ∀ m, u.exactValue? = some m → s.format.Holds m) →
    ∃ vs, values Registry.builtin s ts = .ok vs ∧
      List.Forall₂ Number.Whole (vs.map Value.operand) ns ∧ ∀ m ∈ ns, s.format.Holds m
  | [], ns, h, _ => by
      obtain rfl := Option.some.inj h
      exact ⟨[], rfl, .nil, nofun⟩
  | t :: ts, ns, h, hroom => by
      obtain ⟨m, ms, hm, hms, rfl⟩ := exactValues?_cons h
      have hself := t.self_mem_subtrees
      obtain ⟨z, hz, wz⟩ := value_exact hmax hm fun u hu => hroom u (by simp [subtreesOf, hu])
      obtain ⟨vs, hvs, wvs, holds⟩ := values_exact hmax hms fun u hu =>
        hroom u (by simp [subtreesOf, hu])
      refine ⟨.number z :: vs, ?_, .cons wz wvs, ?_⟩
      · rw [values, hz, hvs]
        rfl
      · exact List.forall_mem_cons.mpr ⟨hroom t (by simp [subtreesOf, hself]) m hm, holds⟩

end

end Tree

/-- **Integer arithmetic that fits is exact**, and draws nothing, in every precision up to the highest
place and in every rounding mode. -/
theorem Machine.evaluate_exact (s : Settings) (hmax : s.precision ≤ 999999) (t : Tree)
    (h : t.ExactWithin s.precision) : ∃ (n : Int) (d : Decimal), t.exactValue? = some n ∧
      Machine.evaluate Registry.builtin s t.postorder = .ok ⟨.finite d, none⟩ ∧ d.value = n := by
  obtain ⟨n, hn, -⟩ := h t t.self_mem_subtrees
  have hroom : ∀ u ∈ t.subtrees, ∀ m, u.exactValue? = some m → s.format.Holds m := by
    intro u hu m hm
    obtain ⟨m', hm', hlt⟩ := h u hu
    obtain rfl := Option.some.inj (hm.symm.trans hm')
    exact Format.holds_of_lt s.precision_pos hmax hlt
  obtain ⟨_, hvalue, d, rfl, hd⟩ := Tree.value_exact hmax hn hroom
  refine ⟨n, d, hn, ?_, hd.value⟩
  rw [evaluate_postorder (Tree.fits_of_exactValue? hn), hvalue]
  rfl

/-- The remainder of a negative number, selected, with two digits throughout. -/
theorem Machine.evaluate_exact_two_digits : ∃ d : Decimal,
    Machine.evaluate Registry.builtin
      { Settings.initial with precision := 2, precision_pos := by decide }
      (Tree.node (Token.operator "nCr".toList) [.number "7".toList,
        .node (Token.operator "%".toList)
          [.node (Token.function "neg".toList) [.number "17".toList],
            .number "5".toList]]).postorder = .ok ⟨.finite d, none⟩ ∧ d.value = 35 := by
  have hwithin : Tree.ExactWithin 2 (Tree.node (Token.operator "nCr".toList) [.number "7".toList,
      .node (Token.operator "%".toList)
        [.node (Token.function "neg".toList) [.number "17".toList], .number "5".toList]]) := by
    simp only [Tree.ExactWithin, Tree.subtrees, Tree.subtreesOf, List.append_nil,
      List.cons_append, List.nil_append, List.forall_mem_cons]
    exact ⟨⟨7, by decide, by decide⟩, ⟨17, by decide, by decide⟩, ⟨-17, by decide, by decide⟩,
      ⟨5, by decide, by decide⟩, ⟨3, by decide, by decide⟩, ⟨35, by decide, by decide⟩, nofun⟩
  obtain ⟨n, d, hn, hd, hvalue⟩ := Machine.evaluate_exact
    { Settings.initial with precision := 2, precision_pos := by decide } (by decide) _ hwithin
  refine ⟨d, hd, ?_⟩
  obtain rfl : 35 = n := Option.some.inj hn
  exact hvalue

end DecimalCalc
