import DecimalCalc.Proofs.Acceptance
import DecimalCalc.Proofs.PrecisionClosure

/-!
# The verdict of reordering

Whether a row of tokens can be reordered shows in one scan from left to right that keeps nothing
but the number of open parentheses (`scan`). Reordering keeps no such number: what it looks at is a
stack on which operators, functions and parentheses wait for each other. **Both always come to the
same verdict**, about the same token (`reorder_verdict`).

The parentheses on the stack are those among the tokens read that are still open, the innermost on
top, with nothing but balanced rows between them (`LeavesOpen`). Their number is what the scan
counts. At the end the topmost one is the last parenthesis that was never closed.
-/

set_option autoImplicit false

namespace DecimalCalc

variable {registry : Registry}

namespace Token

/-- How many more parentheses are open after the token. -/
def rise (t : Token) : Int :=
  match t.kind with
  | .leftParen => 1
  | .rightParen => -1
  | _ => 0

theorem rise_of_leftParen {t : Token} (h : t.kind = .leftParen) : t.rise = 1 := by
  simp [rise, h]

theorem rise_of_rightParen {t : Token} (h : t.kind = .rightParen) : t.rise = -1 := by
  simp [rise, h]

theorem rise_of_other {t : Token} (hopen : t.kind ≠ .leftParen) (hclose : t.kind ≠ .rightParen) :
    t.rise = 0 := by
  unfold rise
  split
  · exact absurd ‹_› hopen
  · exact absurd ‹_› hclose
  · rfl

end Token

namespace ReversePolish

/-! ## The scan -/

/-- What is wrong with a token where so many parentheses are open. -/
def objection? (registry : Registry) (depth : Nat) (token : Token) : Option Fault :=
  match token.kind with
  | .number | .function | .leftParen => none
  | .operator =>
    if (registry.find? token.text).isSome then none else some (.unknownSymbol token.text)
  | .rightParen => if depth = 0 then some (.mismatchedParentheses token) else none
  | .separator => if depth = 0 then some (.misplacedSeparator token) else none
  | .reference | .constant | .string => some (.unexpectedToken token)

/-- How many parentheses are open after a token. -/
def depthAfter (depth : Nat) (token : Token) : Nat :=
  match token.kind with
  | .leftParen => depth + 1
  | .rightParen => depth - 1
  | _ => depth

/-- **The scan**: the first objection, or else how many parentheses are open at the end. -/
def scan (registry : Registry) (depth : Nat) : List Token → Except Fault Nat
  | [] => .ok depth
  | token :: rest =>
    match objection? registry depth token with
    | some fault => .error fault
    | none => scan registry (depthAfter depth token) rest

/-- What the scan stops at. -/
theorem scan_eq_error {fault : Fault} : ∀ {tokens : List Token} {depth : Nat},
    scan registry depth tokens = .error fault →
      ∃ before token after inside, tokens = before ++ token :: after ∧
        scan registry depth before = .ok inside ∧
        objection? registry inside token = some fault
  | [], _, h => nomatch h
  | token :: rest, depth, h => by
      rw [scan] at h
      cases hobjection : objection? registry depth token with
      | some cause =>
          simp only [hobjection, Except.error.injEq] at h
          exact ⟨[], token, rest, depth, rfl, rfl, by rw [hobjection, h]⟩
      | none =>
          simp only [hobjection] at h
          obtain ⟨before, last, after, inside, rfl, hbefore, hlast⟩ := scan_eq_error h
          refine ⟨token :: before, last, after, inside, rfl, ?_, hlast⟩
          rw [scan, hobjection]
          exact hbefore

/-! ## A step objects to what the scan objects to -/

theorem fromParen_eq_nil {stack : List Token} : fromParen stack = [] ↔ depth stack = 0 := by
  rw [fromParen, List.dropWhile_eq_nil_iff, depth, List.countP_eq_zero]
  simp

/-- A step fails with the objection that there is. -/
theorem step_of_objection {stack : List Token} {token : Token} {fault : Fault}
    (h : objection? registry (depth stack) token = some fault) :
    step registry stack token = .error fault := by
  cases hkind : token.kind with
  | number | function | leftParen => simp [objection?, hkind] at h
  | operator =>
      cases hfind : registry.find? token.text with
      | some entry => simp [objection?, hkind, hfind] at h
      | none =>
          simp only [objection?, hkind, hfind, Option.isSome_none, Bool.false_eq_true, if_false,
            Option.some.injEq] at h
          rw [step_of_unlisted hkind hfind, h]
  | rightParen =>
      by_cases hdepth : depth stack = 0
      · simp only [objection?, hkind, hdepth, if_true, Option.some.injEq] at h
        rw [step_of_unmatched hkind (fromParen_eq_nil.mpr hdepth), h]
      · simp [objection?, hkind, hdepth] at h
  | separator =>
      by_cases hdepth : depth stack = 0
      · simp only [objection?, hkind, hdepth, if_true, Option.some.injEq] at h
        rw [step_of_misplaced hkind (fromParen_eq_nil.mpr hdepth), h]
      · simp [objection?, hkind, hdepth] at h
  | reference | constant | string =>
      simp only [objection?, hkind, Option.some.injEq] at h
      rw [step_of_unexpected (by simp [hkind]), h]

/-- **A step that nothing is objected to succeeds.** -/
theorem step_of_no_objection {stack : List Token} {token : Token}
    (h : objection? registry (depth stack) token = none) :
    ∃ result, step registry stack token = .ok result := by
  cases hkind : token.kind with
  | number => exact ⟨_, step_of_number hkind stack⟩
  | function | leftParen => exact ⟨_, step_of_waits (by simp [hkind]) stack⟩
  | operator =>
      cases hfind : registry.find? token.text with
      | none => simp [objection?, hkind, hfind] at h
      | some entry =>
          rw [step_of_operator hkind, Registry.lookup_eq_ok.mpr hfind]
          exact ⟨_, rfl⟩
  | rightParen =>
      cases hfrom : fromParen stack with
      | nil => simp [objection?, hkind, fromParen_eq_nil.mp hfrom] at h
      | cons paren below => exact ⟨_, step_of_rightParen hkind hfrom⟩
  | separator =>
      cases hfrom : fromParen stack with
      | nil => simp [objection?, hkind, fromParen_eq_nil.mp hfrom] at h
      | cons paren below => exact ⟨_, step_of_separator hkind hfrom⟩
  | reference | constant | string => simp [objection?, hkind] at h

/-- The scan counts the parentheses that wait. -/
theorem depthAfter_of_step {stack written stack' : List Token} {token : Token}
    (h : step registry stack token = .ok (written, stack')) :
    depthAfter (depth stack) token = depth stack' := by
  have hopen := (move_of_step h).depth_eq
  cases hkind : token.kind with
  | leftParen => simpa [depthAfter, Grammar.open?, hkind] using hopen
  | rightParen =>
      simp only [Grammar.open?, hkind] at hopen
      split at hopen
      · cases hopen
      · simpa [depthAfter, hkind] using hopen
  | separator =>
      simp only [Grammar.open?, hkind] at hopen
      split at hopen
      · cases hopen
      · simpa [depthAfter, hkind] using hopen
  | _ => simpa [depthAfter, Grammar.open?, hkind] using hopen

/-- **Up to an objection, a row is read step by step.** -/
theorem advance_of_scan : ∀ (tokens stack : List Token) {inside : Nat},
    scan registry (depth stack) tokens = .ok inside →
      ∃ written stack', advance registry stack tokens = .ok (written, stack') ∧
        depth stack' = inside
  | [], stack, inside, h => ⟨[], stack, rfl, Except.ok.inj h⟩
  | token :: rest, stack, inside, h => by
      rw [scan] at h
      cases hobjection : objection? registry (depth stack) token with
      | some fault => simp [hobjection] at h
      | none =>
          simp only [hobjection] at h
          -- the scan goes on with the depth of the stack that the step leaves
          obtain ⟨⟨first, middle⟩, hstep⟩ := step_of_no_objection hobjection
          rw [depthAfter_of_step hstep] at h
          obtain ⟨more, last, hrest, hdepth⟩ := advance_of_scan rest middle h
          exact ⟨first ++ more, last, advance_cons_of_ok hstep hrest, hdepth⟩

/-- An objection of the scan is what reordering fails with. -/
theorem reorder_of_scan_error {tokens : List Token} {fault : Fault}
    (h : scan registry 0 tokens = .error fault) : reorder registry tokens = .error fault := by
  obtain ⟨before, token, after, inside, rfl, hbefore, hobjection⟩ := scan_eq_error h
  obtain ⟨written, stack, hread, rfl⟩ := advance_of_scan before [] hbefore
  rw [reorder, reorderFrom_append hread, reorderFrom_cons, step_of_objection hobjection]
  rfl

/-! ## The parentheses that are left open -/

/-- How many more parentheses are open after some tokens. -/
def rise (tokens : List Token) : Int := (tokens.map Token.rise).sum

@[simp] theorem rise_nil : rise [] = 0 := rfl

@[simp] theorem rise_cons (t : Token) (tokens : List Token) :
    rise (t :: tokens) = t.rise + rise tokens := by
  simp [rise]

@[simp] theorem rise_append (ts us : List Token) : rise (ts ++ us) = rise ts + rise us := by
  simp [rise]

/-- A parenthesis before these tokens is never closed: at no place among them have more
parentheses been closed than opened. -/
def NeverClosed (after : List Token) : Prop := ∀ read, read <+: after → 0 ≤ rise read

/-- **The last parenthesis that is never closed**, seen from the tokens after it. -/
structure LastUnclosed (paren : Token) (after : List Token) : Prop where
  kind : paren.kind = .leftParen
  unclosed : NeverClosed after
  last : ∀ between later rest, after = between ++ later :: rest → later.kind = .leftParen →
    ¬NeverClosed rest

/-- Every parenthesis of a row is closed in it, and no other one is. -/
structure Balanced (tokens : List Token) : Prop where
  unclosed : NeverClosed tokens
  level : rise tokens = 0

theorem balanced_nil : Balanced [] := by
  refine ⟨fun read hread => ?_, rfl⟩
  rw [List.prefix_nil.mp hread, rise_nil]

theorem prefix_append_inv {ts us read : List Token} (h : read <+: ts ++ us) :
    read <+: ts ∨ ∃ more, more <+: us ∧ read = ts ++ more := by
  rcases List.prefix_or_prefix_of_prefix h (List.prefix_append ts us) with h' | ⟨more, rfl⟩
  · exact .inl h'
  · exact .inr ⟨more, (List.prefix_append_right_inj ts).mp h, rfl⟩

/-- One balanced row after another is balanced. -/
theorem Balanced.append {ts us : List Token} (hts : Balanced ts) (hus : Balanced us) :
    Balanced (ts ++ us) := by
  constructor
  · intro read hread
    rcases prefix_append_inv hread with h | ⟨more, h, rfl⟩
    · exact hts.unclosed read h
    · rw [rise_append, hts.level, zero_add]
      exact hus.unclosed more h
  · rw [rise_append, hts.level, hus.level, add_zero]

theorem prefix_singleton_inv {t : Token} {read : List Token} (h : read <+: [t]) :
    read = [] ∨ read = [t] := by
  rcases List.prefix_cons_iff.mp h with rfl | ⟨more, rfl, hmore⟩
  · exact .inl rfl
  · exact .inr (by rw [List.prefix_nil.mp hmore])

theorem balanced_singleton {t : Token} (h : t.rise = 0) : Balanced [t] := by
  constructor
  · intro read hread
    rcases prefix_singleton_inv hread with rfl | rfl <;> simp [h]
  · simp [h]

/-- A balanced row in parentheses is balanced. -/
theorem Balanced.enclosed {ts : List Token} (h : Balanced ts) {left right : Token}
    (hleft : left.kind = .leftParen) (hright : right.kind = .rightParen) :
    Balanced (left :: ts ++ [right]) := by
  have hrise := Token.rise_of_leftParen hleft
  constructor
  · intro read hread
    rcases prefix_append_inv hread with hpart | ⟨more, hmore, rfl⟩
    · rcases List.prefix_cons_iff.mp hpart with rfl | ⟨inside, rfl, hinside⟩
      · simp
      · have hnonneg := h.unclosed inside hinside
        rw [rise_cons, hrise]
        omega
    · rcases prefix_singleton_inv hmore with rfl | rfl <;>
        simp [hrise, h.level, Token.rise_of_rightParen hright]
  · simp [hrise, h.level, Token.rise_of_rightParen hright]

/-- **What the tokens of a row leave open**: these parentheses, the innermost first, with a balanced
row after each of them. -/
inductive LeavesOpen : List Token → List Token → Prop
  | nil {tokens : List Token} (balanced : Balanced tokens) : LeavesOpen tokens []
  | cons {before after parens : List Token} {paren : Token} (outer : LeavesOpen before parens)
      (kind : paren.kind = .leftParen) (balanced : Balanced after) :
      LeavesOpen (before ++ paren :: after) (paren :: parens)

theorem LeavesOpen.append {tokens parens more : List Token} (h : LeavesOpen tokens parens)
    (hmore : Balanced more) : LeavesOpen (tokens ++ more) parens := by
  cases h with
  | nil balanced => exact .nil (balanced.append hmore)
  | cons outer kind balanced =>
      rw [List.append_assoc, List.cons_append]
      exact .cons outer kind (balanced.append hmore)

/-- A closing parenthesis closes the innermost one that is open. -/
theorem LeavesOpen.close {tokens parens : List Token} {paren t : Token}
    (h : LeavesOpen tokens (paren :: parens)) (ht : t.kind = .rightParen) :
    LeavesOpen (tokens ++ [t]) parens := by
  cases h with
  | cons outer kind balanced =>
      rw [List.append_assoc]
      exact outer.append (balanced.enclosed kind ht)

/-- The innermost parenthesis that is left open is the last one that is never closed. -/
theorem LeavesOpen.lastUnclosed {tokens parens : List Token} {paren : Token}
    (h : LeavesOpen tokens (paren :: parens)) :
    ∃ before after, tokens = before ++ paren :: after ∧ LastUnclosed paren after := by
  cases h with
  | @cons before after _ _ outer kind balanced =>
      refine ⟨before, after, rfl, kind, balanced.unclosed, ?_⟩
      -- one more that stays open would leave the row after `paren` above its level
      rintro between later rest rfl hlater hrest
      have hbetween := balanced.unclosed between (List.prefix_append _ _)
      have hall := hrest rest (List.prefix_refl rest)
      have hlevel := balanced.level
      rw [rise_append, rise_cons, Token.rise_of_leftParen hlater] at hlevel
      omega

/-! ## The stack holds what is left open -/

/-- The parentheses that wait. -/
def parens (stack : List Token) : List Token := stack.filter (·.kind == .leftParen)

theorem parens_of_unopened {above : List Token} (h : Unopened above) : parens above = [] := by
  rw [parens, List.filter_eq_nil_iff]
  intro t ht
  simpa using h t ht

@[simp] theorem parens_append (above below : List Token) :
    parens (above ++ below) = parens above ++ parens below := List.filter_append ..

theorem parens_cons_of_leftParen {t : Token} (h : t.kind = .leftParen) (stack : List Token) :
    parens (t :: stack) = t :: parens stack := by
  simp [parens, h]

theorem parens_cons_of_ne {t : Token} (h : t.kind ≠ .leftParen) (stack : List Token) :
    parens (t :: stack) = parens stack := by
  simp [parens, h]

theorem length_parens (stack : List Token) : (parens stack).length = depth stack :=
  List.countP_eq_length_filter.symm

/-- **A step keeps on the stack what is left open.** -/
theorem Move.leavesOpen {stack written stack' seen : List Token} {t : Token}
    (h : Move stack t written stack') (hseen : LeavesOpen seen (parens stack)) :
    LeavesOpen (seen ++ [t]) (parens stack') := by
  cases h with
  | write kind =>
      refine hseen.append (balanced_singleton (Token.rise_of_other ?_ ?_)) <;>
        rcases kind with kind | kind <;> simp [kind]
  | wait kind =>
      rcases kind with kind | kind
      · rw [parens_cons_of_ne (by simp [kind])]
        exact hseen.append (balanced_singleton (Token.rise_of_other (by simp [kind])
          (by simp [kind])))
      · rw [parens_cons_of_leftParen kind]
        exact .cons hseen kind balanced_nil
  -- what goes from the top of the stack opens no parenthesis, so that the same ones wait
  | yield kind heq hunopened =>
      rw [heq, parens_append, parens_of_unopened hunopened, List.nil_append] at hseen
      rw [parens_cons_of_ne (by simp [kind])]
      exact hseen.append (balanced_singleton (Token.rise_of_other (by simp [kind])
        (by simp [kind])))
  | close kind open' heq hunopened =>
      rw [heq, parens_append, parens_of_unopened hunopened, List.nil_append,
        parens_cons_of_leftParen open'] at hseen
      exact hseen.close kind
  | closeCall kind open' call heq hunopened =>
      rw [heq, parens_append, parens_of_unopened hunopened, List.nil_append,
        parens_cons_of_leftParen open', parens_cons_of_ne (by simp [call])] at hseen
      exact hseen.close kind
  | separate kind open' heq hunopened =>
      rw [heq, parens_append, parens_of_unopened hunopened, List.nil_append] at hseen
      exact hseen.append (balanced_singleton (Token.rise_of_other (by simp [kind])
        (by simp [kind])))

theorem advance_leavesOpen (tokens : List Token) : ∀ {seen stack written stack' : List Token},
    LeavesOpen seen (parens stack) → advance registry stack tokens = .ok (written, stack') →
      LeavesOpen (seen ++ tokens) (parens stack') := by
  induction tokens with
  | nil =>
      intro seen stack written stack' hseen h
      obtain ⟨rfl, rfl⟩ := Prod.mk.inj (Except.ok.inj h)
      rwa [List.append_nil]
  | cons t tokens ih =>
      intro seen stack written stack' hseen h
      obtain ⟨out, middle, more, hstep, hrest, rfl⟩ := advance_cons_inv h
      have hmiddle := (move_of_step hstep).leavesOpen hseen
      have hlast := ih hmiddle hrest
      rwa [List.append_assoc] at hlast

theorem unopened_of_depth {stack : List Token} (h : depth stack = 0) : Unopened stack := by
  rw [depth, List.countP_eq_zero] at h
  intro t ht hkind
  exact h t ht (by simp [hkind])

theorem finish_of_parens {stack rest : List Token} {paren : Token}
    (h : parens stack = paren :: rest) : finish stack = .error (.mismatchedParentheses paren) := by
  have hfind : stack.find? (·.kind == .leftParen) = some paren := by
    rw [← List.head?_filter, ← parens, h]
    rfl
  rw [finish, hfind]

/-! ## Waiting operators are listed -/

/-- Whether a waiting token is written out before an operator may wait above it, where the registry
might not list what waits. -/
def yieldsTo? (registry : Registry) (later : Entry) (waiting : Token) : Except Fault Bool :=
  match waiting.kind with
  | .function => .ok true
  | .operator => (registry.lookup waiting.text).map (outranks · later)
  | _ => .ok false

/-- Whoever waits as an operator has been looked up. -/
theorem find?_of_step {stack written stack' : List Token} {token : Token}
    (h : step registry stack token = .ok (written, stack')) (hkind : token.kind = .operator) :
    ∃ entry, registry.find? token.text = some entry := by
  rw [step_of_operator hkind] at h
  obtain ⟨entry, hlookup, -⟩ := Except.map_eq_ok.mp h
  exact ⟨entry, Registry.lookup_eq_ok.mp hlookup⟩

theorem find?_of_advance {tokens : List Token} : ∀ {stack written stack' : List Token},
    advance registry stack tokens = .ok (written, stack') →
    ∀ t ∈ tokens, t.kind = .operator → ∃ entry, registry.find? t.text = some entry := by
  induction tokens with
  | nil => exact fun _ _ ht => nomatch ht
  | cons token rest ih =>
      intro stack written stack' h t ht hkind
      obtain ⟨out, middle, more, hstep, hrest, rfl⟩ := advance_cons_inv h
      rcases List.mem_cons.mp ht with rfl | ht
      · exact find?_of_step hstep hkind
      · exact ih hrest t ht hkind

/-- **Comparing an operator with what waits never fails**: of the operators that wait, none is
unknown to the registry. -/
theorem yieldsTo?_of_advance {tokens written stack : List Token}
    (h : advance registry [] tokens = .ok (written, stack)) (later : Entry) :
    ∀ t ∈ stack, yieldsTo? registry later t = .ok (yieldsTo registry later t) := by
  intro t ht
  have hmem : t ∈ tokens := by
    simpa using advance_subset tokens h t (List.mem_append_right written ht)
  cases hkind : t.kind with
  | operator =>
      obtain ⟨entry, hfind⟩ := find?_of_advance h t hmem hkind
      simp only [yieldsTo?, yieldsTo, hkind, Registry.lookup_eq_ok.mpr hfind, hfind]
      rfl
  | _ => simp [yieldsTo?, yieldsTo, hkind]

/-! ## The verdict -/

/-- **The verdict of reordering.** It is the first objection of the scan, about the very token;
else, if parentheses are open at the end, it is the last one that is never closed; else there is
none. -/
theorem reorder_verdict (registry : Registry) (tokens : List Token) :
    (∀ fault, scan registry 0 tokens = .error fault →
      (∃ before token after depth, tokens = before ++ token :: after ∧
        scan registry 0 before = .ok depth ∧ objection? registry depth token = some fault) ∧
      reorder registry tokens = .error fault) ∧
    (∀ depth, scan registry 0 tokens = .ok (depth + 1) →
      ∃ before paren after, tokens = before ++ paren :: after ∧ LastUnclosed paren after ∧
        reorder registry tokens = .error (.mismatchedParentheses paren)) ∧
    (scan registry 0 tokens = .ok 0 → ∃ out, reorder registry tokens = .ok out) := by
  refine ⟨fun fault h => ⟨scan_eq_error h, reorder_of_scan_error h⟩, fun inside h => ?_,
    fun h => ?_⟩
  · obtain ⟨written, stack, hread, hdepth⟩ := advance_of_scan tokens [] h
    have hstart : LeavesOpen [] (parens []) := .nil balanced_nil
    have hleaves : LeavesOpen tokens (parens stack) := advance_leavesOpen tokens hstart hread
    cases hparens : parens stack with
    | nil =>
        rw [← length_parens, hparens] at hdepth
        cases hdepth
    | cons paren rest =>
        rw [hparens] at hleaves
        obtain ⟨before, after, heq, hlast⟩ := hleaves.lastUnclosed
        refine ⟨before, paren, after, heq, hlast, ?_⟩
        rw [reorder_of_advance hread, finish_of_parens hparens]
        rfl
  · obtain ⟨written, stack, hread, hdepth⟩ := advance_of_scan tokens [] h
    refine ⟨written ++ stack, ?_⟩
    rw [reorder_of_advance hread, finish_of_unopened (unopened_of_depth hdepth)]
    rfl

/-- Two parentheses of `((1)+(` are never closed; in `1)x` the parenthesis comes before the name. -/
theorem reorder_verdict_two_open :
    (∃ before paren after, [Token.leftParen, Token.leftParen, Token.number ['1'],
        Token.rightParen, Token.operator ['+'], Token.leftParen] = before ++ paren :: after ∧
      LastUnclosed paren after ∧
      reorder .builtin [Token.leftParen, Token.leftParen, Token.number ['1'], Token.rightParen,
        Token.operator ['+'], Token.leftParen] = .error (.mismatchedParentheses paren)) ∧
    reorder .builtin [Token.number ['1'], Token.rightParen, Token.reference ['x']] =
      .error (.mismatchedParentheses Token.rightParen) :=
  ⟨(reorder_verdict .builtin _).2.1 1 (by decide +kernel),
    ((reorder_verdict .builtin _).1 _ (by decide +kernel)).2⟩

end ReversePolish

end DecimalCalc
