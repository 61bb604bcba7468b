import DecimalCalc.Proofs.Acceptance
import DecimalCalc.Proofs.CallText
import DecimalCalc.Proofs.StackMachine

/-!
# An operator that is called like a function

A function that is called is written out when its parenthesis closes. An operator that is called
waits until something makes it yield, and while it is laid down, what waits right before it may have
to yield itself. So `nPr(a;b)` means `perm(a;b)` unless a function without parentheses or another
`nPr` or `nCr` stands right before it, or a factorial right after it: these are written out before
the operator. Everywhere else the line keeps its outcome (`Calculator.evaluate_operator_call`).
-/

set_option autoImplicit false

namespace DecimalCalc

open Grammar

variable {registry : Registry}

/-! ## Tokens in parentheses -/

namespace ReversePolish

/-- The tokens are read above an open parenthesis in one way, whatever waits below it. -/
def ReadsAbove (registry : Registry) (tokens : List Token) : Prop :=
  ∀ above, Unopened above → ∃ written above', Unopened above' ∧ ∀ stack,
    advance registry (above ++ Token.leftParen :: stack) tokens =
      .ok (written, above' ++ Token.leftParen :: stack)

/-- One token that is read so. -/
theorem readsAbove_singleton {t : Token} (h : ∀ above, Unopened above → ∃ written above',
      Unopened above' ∧ ∀ stack, step registry (above ++ Token.leftParen :: stack) t =
        .ok (written, above' ++ Token.leftParen :: stack)) : ReadsAbove registry [t] := by
  intro above habove
  obtain ⟨written, above', habove', hstep⟩ := h above habove
  refine ⟨written ++ [], above', habove', fun stack => ?_⟩
  exact advance_cons_of_ok (hstep stack) (advance_nil _)

theorem ReadsAbove.append {ts us : List Token} (hts : ReadsAbove registry ts)
    (hus : ReadsAbove registry us) : ReadsAbove registry (ts ++ us) := by
  intro above habove
  obtain ⟨written, middle, hmiddle, hread⟩ := hts above habove
  obtain ⟨more, last, hlast, hread'⟩ := hus middle hmiddle
  exact ⟨written ++ more, last, hlast,
    fun stack => advance_append_of_ok (hread stack) (hread' stack)⟩

theorem ReadsAbove.cons {t : Token} {ts : List Token} (ht : ReadsAbove registry [t])
    (hts : ReadsAbove registry ts) : ReadsAbove registry (t :: ts) := ht.append hts

theorem readsAbove_number {t : Token} (h : t.kind = .number) : ReadsAbove registry [t] :=
  readsAbove_singleton fun above habove => ⟨[t], above, habove, fun _ => step_of_number h _⟩

theorem readsAbove_function (symbol : List Char) :
    ReadsAbove registry [Token.function symbol] := by
  refine readsAbove_singleton fun above habove => ⟨[], Token.function symbol :: above, ?_, ?_⟩
  · intro t ht
    rcases List.mem_cons.mp ht with rfl | ht
    · rintro ⟨⟩
    · exact habove t ht
  · exact fun stack => step_function _ symbol

theorem readsAbove_after {symbol : List Char} {entry : Entry}
    (listed : registry.find? symbol = some entry) (fixity : entry.fixity = .after) :
    ReadsAbove registry [Token.operator symbol] :=
  readsAbove_singleton fun above habove =>
    ⟨_, above, habove, fun _ => step_after listed fixity _⟩

theorem readsAbove_between {symbol : List Char} {entry : Entry}
    (listed : registry.find? symbol = some entry) (fixity : entry.fixity = .between) :
    ReadsAbove registry [Token.operator symbol] := by
  have hparen : yieldsTo registry entry Token.leftParen = false := rfl
  -- nothing yields from the open parenthesis on
  have hsplit : ∀ above stack : List Token,
      (above ++ Token.leftParen :: stack).takeWhile (yieldsTo registry entry) =
          above.takeWhile (yieldsTo registry entry) ∧
        (above ++ Token.leftParen :: stack).dropWhile (yieldsTo registry entry) =
          above.dropWhile (yieldsTo registry entry) ++ Token.leftParen :: stack := by
    intro above stack
    induction above with
    | nil => simp [hparen]
    | cons t above ih => cases h : yieldsTo registry entry t <;> simp [h, ih]
  refine readsAbove_singleton fun above habove =>
    ⟨above.takeWhile (yieldsTo registry entry),
      Token.operator symbol :: above.dropWhile (yieldsTo registry entry), ?_, fun stack => ?_⟩
  · intro t ht
    rcases List.mem_cons.mp ht with rfl | ht
    · rintro ⟨⟩
    · exact habove t (List.dropWhile_subset _ ht)
  · rw [step_between_eq listed fixity, (hsplit above stack).1, (hsplit above stack).2]
    rfl

theorem readsAbove_separator : ReadsAbove registry [Token.separator] :=
  readsAbove_singleton fun above habove =>
    ⟨above, [], fun _ h => absurd h List.not_mem_nil, fun stack => step_separator habove stack⟩

/-- A closing parenthesis ends the function that waits right below its partner. -/
theorem readsAbove_parens {ts : List Token} (hts : ReadsAbove registry ts) :
    ReadsAbove registry (Token.leftParen :: (ts ++ [Token.rightParen])) := by
  intro above habove
  obtain ⟨written, inner, hinner, hread⟩ := hts [] fun _ h => absurd h List.not_mem_nil
  -- the closing parenthesis takes a function along that waits below its partner
  have hclose : ∃ more above', Unopened above' ∧ ∀ stack,
      step registry (inner ++ Token.leftParen :: (above ++ Token.leftParen :: stack))
        Token.rightParen = .ok (more, above' ++ Token.leftParen :: stack) := by
    cases above with
    | nil => exact ⟨inner, [], habove, fun stack => step_rightParen hinner (by rintro _ ⟨⟩ ⟨⟩)⟩
    | cons t above =>
        by_cases hcall : t.kind = .function
        · obtain ⟨_, symbol⟩ := t
          obtain rfl : _ = TokenKind.function := hcall
          exact ⟨inner ++ [Token.function symbol], above,
            fun u hu => habove u (List.mem_cons_of_mem _ hu),
            fun stack => step_rightParen_function hinner symbol _⟩
        · exact ⟨inner, t :: above, habove,
            fun stack => step_rightParen hinner (by rintro _ ⟨⟩; exact hcall)⟩
  obtain ⟨more, above', habove', hstep⟩ := hclose
  refine ⟨[] ++ (written ++ (more ++ [])), above', habove', fun stack => ?_⟩
  refine advance_cons_of_ok (step_leftParen _) ?_
  exact advance_append_of_ok (hread _) (advance_cons_of_ok (hstep stack) (advance_nil _))

/-- **What the grammar derives is read in one way above an open parenthesis**, once its operands are
numbers. -/
theorem readsAbove_of_derives {phrase : Phrase} {w : List Token} (h : Derives registry phrase w)
    (hnumbers : ∀ t ∈ w, t.isAtom = true → t.kind = .number) : ReadsAbove registry w := by
  induction h with
  | atom atom => exact readsAbove_number (hnumbers _ List.mem_cons_self atom)
  | group _ ih => exact readsAbove_parens (ih fun t ht => hnumbers t (by simp [ht]))
  | call _ _ _ ih =>
      exact (readsAbove_function _).cons
        (readsAbove_parens (ih fun t ht => hnumbers t (by simp [ht])))
  | operatorCall listed fixity _ ih =>
      exact (readsAbove_between listed fixity).cons
        (readsAbove_parens (ih fun t ht => hnumbers t (by simp [ht])))
  | apply _ _ _ _ ih =>
      exact (readsAbove_function _).cons (ih fun t ht => hnumbers t (by simp [ht]))
  | after _ listed fixity ih =>
      exact (ih fun t ht => hnumbers t (by simp [ht])).append (readsAbove_after listed fixity)
  | single _ ih => exact ih hnumbers
  | between _ listed fixity _ ihl ihr =>
      exact (ihl fun t ht => hnumbers t (by simp [ht])).append
        ((readsAbove_between listed fixity).cons (ihr fun t ht => hnumbers t (by simp [ht])))
  | one _ ih => exact ih hnumbers
  | more _ _ ihe ihargs =>
      exact (ihe fun t ht => hnumbers t (by simp [ht])).append
        (readsAbove_separator.cons (ihargs fun t ht => hnumbers t (by simp [ht])))

/-- No phrase is without an operand. -/
theorem exists_atom_of_derives {phrase : Phrase} {w : List Token} (h : Derives registry phrase w) :
    ∃ t ∈ w, t.isAtom = true := by
  induction h with
  | @atom t atom => exact ⟨t, List.mem_cons_self, atom⟩
  | single _ ih | one _ ih => exact ih
  | group _ ih | call _ _ _ ih | operatorCall _ _ _ ih | apply _ _ _ _ ih | after _ _ _ ih
  | between _ _ _ _ ih _ | more _ _ ih _ =>
      obtain ⟨t, ht, hatom⟩ := ih
      exact ⟨t, by simp [ht], hatom⟩

/-! ## Where the name is written out -/

section

variable {f o : List Char} {entry : Entry}

/-- **What a call writes out, and what it leaves waiting.** A function is written out after its
arguments. An operator waits instead, and what yields to it is written out before them. -/
theorem advance_call (listed : registry.find? o = some entry) (fixity : entry.fixity = .between)
    {args : List Token} (hargs : Derives registry (.arguments 2) args)
    (hnumbers : ∀ t ∈ args, t.isAtom = true → t.kind = .number) :
    ∃ out, (∃ t ∈ out, t.kind = .number) ∧ ∀ stack : List Token,
      advance registry stack
          (Token.function f :: Token.leftParen :: (args ++ [Token.rightParen])) =
        .ok (out ++ [Token.function f], stack) ∧
      advance registry stack
          (Token.operator o :: Token.leftParen :: (args ++ [Token.rightParen])) =
        .ok (stack.takeWhile (yieldsTo registry entry) ++ out,
          Token.operator o :: stack.dropWhile (yieldsTo registry entry)) := by
  obtain ⟨written, inner, hinner, hread⟩ :=
    readsAbove_of_derives hargs hnumbers [] fun _ h => absurd h List.not_mem_nil
  refine ⟨written ++ inner, ?_, fun stack => ⟨?_, ?_⟩⟩
  · obtain ⟨t, ht, hatom⟩ := exists_atom_of_derives hargs
    have hkind : t.kind = .number := hnumbers t ht hatom
    have hmem := mem_of_advance args hkind (hread []) (List.mem_append_left _ ht)
    have hne : t ≠ Token.leftParen := by
      rintro rfl
      cases hkind
    refine ⟨t, ?_, hkind⟩
    simp only [List.mem_append, List.mem_singleton] at hmem ⊢
    tauto
  · -- the function waits below the parenthesis, which ends it
    have hclose : step registry (inner ++ Token.leftParen :: Token.function f :: stack)
        Token.rightParen = .ok (inner ++ [Token.function f], stack) :=
      step_rightParen_function hinner f stack
    have h := advance_cons_of_ok (step_function stack f) (advance_cons_of_ok (step_leftParen _)
      (advance_append_of_ok (hread _) (advance_cons_of_ok hclose (advance_nil _))))
    simpa using h
  · -- the operator is laid down first, and still waits when the parenthesis closes
    have hclose : step registry (inner ++ Token.leftParen :: Token.operator o ::
        stack.dropWhile (yieldsTo registry entry)) Token.rightParen =
          .ok (inner, Token.operator o :: stack.dropWhile (yieldsTo registry entry)) :=
      step_rightParen hinner (by rintro _ ⟨⟩ ⟨⟩)
    have h := advance_cons_of_ok (step_between_eq listed fixity stack)
      (advance_cons_of_ok (step_leftParen _)
        (advance_append_of_ok (hread _) (advance_cons_of_ok hclose (advance_nil _))))
    simpa using h

theorem finish_cons {t : Token} (ht : t.kind ≠ .leftParen) (stack : List Token) :
    finish (t :: stack) = (finish stack).map (t :: ·) := by
  have hfind : (t :: stack).find? (·.kind == .leftParen) = stack.find? (·.kind == .leftParen) :=
    List.find?_cons_of_neg (by simpa using ht)
  rw [finish, hfind, finish]
  cases stack.find? (·.kind == .leftParen) <;> rfl

/-- An operator that all others make yield is written out by whatever may follow an operand, except
a factorial. -/
theorem step_operator_cons (listed : registry.find? o = some entry)
    (hyield : ∀ {symbol later}, registry.find? symbol = some later → outranks entry later = true)
    (hgrammar : Grammatical registry) {t : Token}
    (ht : t.kind ≠ .number ∧ t.startsOperand = false) (hne : t ≠ Token.operator factorialSymbol)
    (stack : List Token) :
    step registry (Token.operator o :: stack) t =
      (step registry stack t).map fun r => (Token.operator o :: r.1, r.2) := by
  obtain ⟨hnumber, hstarts⟩ := ht
  cases hkind : t.kind with
  | number => exact absurd hkind hnumber
  | function | leftParen | reference | constant => simp [Token.startsOperand, hkind] at hstarts
  | string =>
      have hunexpected : t.kind = .reference ∨ t.kind = .constant ∨ t.kind = .string := by
        simp [hkind]
      rw [step_of_unexpected hunexpected, step_of_unexpected hunexpected]
      rfl
  | operator =>
      cases hlater : registry.find? t.text with
      | none =>
          rw [step_of_unlisted hkind hlater, step_of_unlisted hkind hlater]
          rfl
      | some later =>
          -- of the operators after an operand there is the factorial only
          have hfixity : later.isAfter = false := by
            by_contra hafter
            have hsymbol := (hgrammar.after hlater (by simpa [Entry.isAfter] using hafter)).2
            obtain ⟨_, text⟩ := t
            obtain rfl : _ = TokenKind.operator := hkind
            exact hne (by rw [Token.operator, ← hsymbol])
          have hfirst : yieldsTo registry later (Token.operator o) = true := by
            simp [yieldsTo, Token.operator, listed, hyield hlater]
          rw [step_of_not_after hkind hlater hfixity, step_of_not_after hkind hlater hfixity,
            List.takeWhile_cons_of_pos hfirst, List.dropWhile_cons_of_pos hfirst]
          rfl
  | rightParen => exact step_of_uncover (.inl hkind) (by rintro ⟨⟩) stack
  | separator => exact step_of_uncover (.inr hkind) (by rintro ⟨⟩) stack

theorem reorderFrom_operator_cons (listed : registry.find? o = some entry)
    (hyield : ∀ {symbol later}, registry.find? symbol = some later → outranks entry later = true)
    (hgrammar : Grammatical registry) {post : List Token}
    (hpost : ∀ t ∈ post.head?, t.kind ≠ .number ∧ t.startsOperand = false)
    (hne : post.head? ≠ some (Token.operator factorialSymbol)) (stack : List Token) :
    reorderFrom registry (Token.operator o :: stack) post =
      (reorderFrom registry stack post).map (Token.operator o :: ·) := by
  cases post with
  | nil => exact finish_cons (by rintro ⟨⟩) stack
  | cons t post =>
      have ht : t ≠ Token.operator factorialSymbol := fun h => hne (by rw [h]; rfl)
      rw [reorderFrom_cons, reorderFrom_cons,
        step_operator_cons listed hyield hgrammar (hpost t rfl) ht stack, Except.bind_map,
        Except.map_bind]
      simp only [Except.map_map, List.cons_append]

end

/-! ## What waits right before a call -/

/-- The function in the place of an operator that computes the same. -/
def asFunction (t : Token) : Token :=
  if t = Token.operator "nPr".toList then Token.function "perm".toList
  else if t = Token.operator "nCr".toList then Token.function "comb".toList
  else t

theorem asFunction_twins {f o : List Char} (twins : Twins f o) :
    asFunction (Token.operator o) = Token.function f ∧
      asFunction (Token.function f) = Token.function f := by
  rcases twins with ⟨rfl, rfl⟩ | ⟨rfl, rfl⟩ <;> decide

theorem asFunction_kind (t : Token) : (asFunction t).kind = .number ↔ t.kind = .number := by
  rw [asFunction]
  split
  · rename_i h
    rw [h]
    decide
  · split
    · rename_i h
      rw [h]
      decide
    · rfl

/-- No function without parentheses and no `nPr` or `nCr` stands right before a call. -/
def Free (pre : List Token) : Prop :=
  ∀ t ∈ pre.getLast?, t.kind ≠ .function ∧ t ≠ Token.operator "nPr".toList ∧
    t ≠ Token.operator "nCr".toList

/-- Nothing around a call is written out between its arguments and the operator, or yields to it. -/
def Undisturbed (pre post : List Token) : Prop :=
  Free pre ∧ post.head? ≠ some (Token.operator factorialSymbol)

/-- All others yield to the operators among the twins, but of those between operands only they
themselves do so in turn. -/
theorem outranks_twins {f o : List Char} {entry : Entry} (twins : Twins f o)
    (listed : Registry.builtin.find? o = some entry) :
    (∀ {symbol later}, Registry.builtin.find? symbol = some later → outranks entry later = true) ∧
      ∀ {symbol waiting}, Registry.builtin.find? symbol = some waiting →
        waiting.fixity = .between →
          (outranks waiting entry = true ↔ symbol = "nPr".toList ∨ symbol = "nCr".toList) := by
  -- of the entries themselves this is decided
  have hentries : ∀ e ∈ Builtin.entries, e.symbol = "nPr".toList ∨ e.symbol = "nCr".toList →
      ∀ other ∈ Builtin.entries, outranks e other = true ∧ (other.fixity = .between →
        (outranks other e = true ↔ other.symbol = "nPr".toList ∨ other.symbol = "nCr".toList)) := by
    decide +kernel
  have hlisted : ∀ {symbol e}, Registry.builtin.find? symbol = some e →
      e ∈ Builtin.entries ∧ e.symbol = symbol := fun h =>
    ⟨List.mem_of_find?_eq_some h, by simpa using List.find?_some h⟩
  obtain ⟨hmem, hsymbol⟩ := hlisted listed
  have hentry := hentries entry hmem (by
    rw [hsymbol]
    exact twins.imp And.right And.right)
  refine ⟨fun h => (hentry _ (hlisted h).1).1, fun h hfixity => ?_⟩
  obtain ⟨hwaiting, rfl⟩ := hlisted h
  exact (hentry _ hwaiting).2 hfixity

theorem not_number_of_yieldsTo {entry : Entry} {t : Token}
    (h : yieldsTo registry entry t = true) : t.kind ≠ .number := by
  intro hkind
  simp [yieldsTo, hkind] at h

/-- Of the operators between operands only the twins yield to a twin. -/
theorem yieldsTo_twin_iff {f o symbol : List Char} {entry waiting : Entry} (twins : Twins f o)
    (listed : Registry.builtin.find? o = some entry)
    (listed' : Registry.builtin.find? symbol = some waiting) (fixity : waiting.fixity = .between) :
    yieldsTo Registry.builtin entry (Token.operator symbol) = true ↔
      symbol = "nPr".toList ∨ symbol = "nCr".toList := by
  rw [← (outranks_twins twins listed).2 listed' fixity]
  simp [yieldsTo, Token.operator, listed']

theorem free_concat {init : List Token} {t : Token} :
    Free (init ++ [t]) ↔ t.kind ≠ .function ∧ t ≠ Token.operator "nPr".toList ∧
      t ≠ Token.operator "nCr".toList := by
  simp [Free]

/-- **What yields to the operator of a call** is a function without parentheses, or another operator
of its kind, right before it. -/
theorem takeWhile_eq_nil_iff {f o : List Char} {entry : Entry} (twins : Twins f o)
    (listed : Registry.builtin.find? o = some entry) {pre written stack : List Token}
    (hproper : ∀ t ∈ pre, Proper Registry.builtin t)
    (hexpects : Token.expectsOperand pre.getLast? = true)
    (hread : advance Registry.builtin [] pre = .ok (written, stack)) :
    stack.takeWhile (yieldsTo Registry.builtin entry) = [] ↔ Free pre := by
  -- only the last token before the call can be on top of the stack
  rcases List.eq_nil_or_concat pre with rfl | ⟨init, t, rfl⟩
  · obtain ⟨rfl, rfl⟩ := Prod.mk.inj (Except.ok.inj hread)
    exact ⟨fun _ => by simp [Free], fun _ => rfl⟩
  · rw [List.concat_eq_append] at hproper hexpects hread ⊢
    rw [List.getLast?_concat] at hexpects
    obtain ⟨before, middle, more, _, hstep, rfl⟩ := advance_concat_inv hread
    rw [free_concat]
    cases hproper t (by simp) with
    | atom atom =>
        rw [Token.expectsOperand_atom atom] at hexpects
        cases hexpects
    | rightParen => cases hexpects
    | leftParen =>
        obtain ⟨rfl, rfl⟩ := Prod.mk.inj (Except.ok.inj hstep)
        exact ⟨fun _ => by decide, fun _ => rfl⟩
    | separator =>
        cases move_of_step hstep with
        | separate _ open' _ _ =>
            refine ⟨fun _ => by decide, fun _ => ?_⟩
            exact List.takeWhile_cons_of_neg (by simp [yieldsTo, open'])
        | write kind | wait kind => rcases kind with kind | kind <;> cases kind
        | yield kind | close kind | closeCall kind => cases kind
    | @function symbol _ _ _ _ =>
        obtain ⟨rfl, rfl⟩ := Prod.mk.inj (Except.ok.inj hstep)
        have hfirst : yieldsTo Registry.builtin entry (Token.function symbol) = true := rfl
        rw [List.takeWhile_cons_of_pos hfirst]
        exact ⟨fun h => absurd h (List.cons_ne_nil _ _), fun h => absurd rfl h.1⟩
    | @between symbol waiting listed' fixity _ _ =>
        rw [step_between_eq listed' fixity] at hstep
        obtain ⟨rfl, rfl⟩ := Prod.mk.inj (Except.ok.inj hstep)
        have hfirst : List.takeWhile (yieldsTo Registry.builtin entry)
            (Token.operator symbol :: middle.dropWhile (yieldsTo Registry.builtin waiting)) = [] ↔
              ¬(symbol = "nPr".toList ∨ symbol = "nCr".toList) := by
          rw [← yieldsTo_twin_iff twins listed listed' fixity]
          simp [List.takeWhile_cons]
        rw [hfirst]
        refine ⟨fun h => ⟨by rintro ⟨⟩, ?_, ?_⟩, fun h => ?_⟩
        · exact fun heq => h (.inl (congrArg Token.text heq))
        · exact fun heq => h (.inr (congrArg Token.text heq))
        · rintro (rfl | rfl)
          · exact h.2.1 rfl
          · exact h.2.2 rfl
    | factorial => cases hexpects

/-- A row does not begin in two ways with the same number, whatever the tokens before it. -/
theorem eq_nil_of_map_eq {g : Token → Token} (hg : ∀ t, (g t).kind = .number ↔ t.kind = .number)
    {p a x y : List Token} (hp : ∀ t ∈ p, t.kind ≠ .number) (ha : ∃ t ∈ a, t.kind = .number)
    (h : (p ++ (a ++ x)).map g = (a ++ y).map g) : p = [] := by
  have hmap : ∀ l : List Token, ((l.map g).takeWhile (·.kind != .number)).length =
      (l.takeWhile (·.kind != .number)).length := by
    intro l
    induction l with
    | nil => rfl
    | cons t l ih =>
        by_cases ht : t.kind = .number
        · simp [ht, (hg t).mpr ht]
        · have hgt : (g t).kind ≠ .number := fun h => ht ((hg t).mp h)
          simp [ht, hgt, ih]
  have hfirst : ∀ z : List Token, ((a ++ z).takeWhile (·.kind != .number)).length =
      (a.takeWhile (·.kind != .number)).length := by
    clear h
    obtain ⟨t, ht, hkind⟩ := ha
    intro z
    induction a with
    | nil => cases ht
    | cons u a ih =>
        by_cases hu : u.kind = .number
        · simp [hu]
        · rcases List.mem_cons.mp ht with rfl | ht
          · exact absurd hkind hu
          · simpa [hu] using ih ht
  -- the first number of the left row comes `p.length` tokens later than that of the right one
  have hlength := congrArg (fun l => (l.takeWhile (·.kind != .number)).length) h
  simp only [hmap] at hlength
  rw [List.takeWhile_append_of_pos (by simpa using hp), List.length_append, hfirst, hfirst]
    at hlength
  exact List.eq_nil_of_length_eq_zero (by omega)

/-! ## The order of a call -/

section

variable {f o : List Char} {entry : Entry} {pre args post : List Token}

theorem exists_entry (twins : Twins f o) : ∃ entry, Registry.builtin.find? o = some entry ∧
    entry.fixity = .between := by
  rcases twins with ⟨_, rfl⟩ | ⟨_, rfl⟩ <;> exact ⟨_, rfl, rfl⟩

/-- The order of the two lines, where the tokens before the call can be read. -/
theorem reorder_callTokens (listed : registry.find? o = some entry)
    (fixity : entry.fixity = .between) (hargs : Derives registry (.arguments 2) args)
    (hnumbers : ∀ t ∈ args, t.isAtom = true → t.kind = .number) {written stack : List Token}
    (hread : advance registry [] pre = .ok (written, stack)) :
    ∃ out, (∃ t ∈ out, t.kind = .number) ∧ ∀ post,
      reorder registry (callTokens pre (Token.function f) args post) =
          (reorderFrom registry stack post).map
            (fun rest => written ++ (out ++ Token.function f :: rest)) ∧
        reorder registry (callTokens pre (Token.operator o) args post) =
          (reorderFrom registry
            (Token.operator o :: stack.dropWhile (yieldsTo registry entry)) post).map fun rest =>
              written ++ (stack.takeWhile (yieldsTo registry entry) ++ (out ++ rest)) := by
  obtain ⟨out, hnumber, hcall⟩ := advance_call (f := f) listed fixity hargs hnumbers
  obtain ⟨hfunction, hoperator⟩ := hcall stack
  -- the call is read in between, and nothing it does depends on what stands around it
  have hsplit : ∀ (name : Token) (post : List Token), callTokens pre name args post =
      pre ++ ((name :: Token.leftParen :: (args ++ [Token.rightParen])) ++ post) := by
    intro name post
    simp [callTokens]
  have hmap : ∀ (result : Except Fault (List Token)) (ts us : List Token),
      (result.map (us ++ ·)).map (ts ++ ·) = result.map fun rest => ts ++ (us ++ rest) := by
    intro result ts us
    cases result <;> rfl
  refine ⟨out, hnumber, fun post => ⟨?_, ?_⟩⟩
  · rw [reorder, hsplit, reorderFrom_append hread, reorderFrom_append hfunction, hmap]
    simp
  · rw [reorder, hsplit, reorderFrom_append hread, reorderFrom_append hoperator, hmap]
    simp

theorem reorder_append_of_error {fault : Fault} (h : advance registry [] pre = .error fault)
    (tokens : List Token) : reorder registry (pre ++ tokens) = .error fault := by
  rw [reorder, reorderFrom_eq, advance_append, h]
  rfl

/-- **An undisturbed call keeps the order of the line**, but for the name. -/
theorem reorder_undisturbed (twins : Twins f o)
    (hargs : Derives Registry.builtin (.arguments 2) args)
    (hnumbers : ∀ t ∈ args, t.isAtom = true → t.kind = .number)
    (hproper : ∀ t ∈ pre, Proper Registry.builtin t)
    (hexpects : Token.expectsOperand pre.getLast? = true)
    (hpost : ∀ t ∈ post.head?, t.kind ≠ .number ∧ t.startsOperand = false)
    (h : Undisturbed pre post) :
    (∃ fault,
        reorder Registry.builtin (callTokens pre (Token.function f) args post) = .error fault ∧
        reorder Registry.builtin (callTokens pre (Token.operator o) args post) = .error fault) ∨
      ∃ before after, reorder Registry.builtin (callTokens pre (Token.function f) args post) =
          .ok (before ++ Token.function f :: after) ∧
        reorder Registry.builtin (callTokens pre (Token.operator o) args post) =
          .ok (before ++ Token.operator o :: after) := by
  obtain ⟨hfree, hfactorial⟩ := h
  obtain ⟨entry, listed, fixity⟩ := exists_entry twins
  obtain ⟨hyield, _⟩ := outranks_twins twins listed
  cases hread : advance Registry.builtin [] pre with
  | error fault =>
      exact .inl ⟨fault, reorder_append_of_error hread _, reorder_append_of_error hread _⟩
  | ok result =>
      obtain ⟨written, stack⟩ := result
      obtain ⟨out, _, hcall⟩ :=
        reorder_callTokens (f := f) listed fixity hargs hnumbers hread
      obtain ⟨hfunction, hoperator⟩ := hcall post
      -- nothing yields to the operator, so that it waits where the function would
      have htake := (takeWhile_eq_nil_iff twins listed hproper hexpects hread).mpr hfree
      rw [htake, dropWhile_of_takeWhile htake,
        reorderFrom_operator_cons listed hyield builtin_grammatical hpost hfactorial] at hoperator
      rw [hfunction, hoperator]
      cases reorderFrom Registry.builtin stack post with
      | error fault => exact .inl ⟨fault, rfl, rfl⟩
      | ok rest =>
          refine .inr ⟨written ++ out, rest, ?_, ?_⟩
          · simp [Except.map]
          · simp [Except.map]

/-- **A disturbed call changes the order of the line**: the two orders differ in more than the name.
-/
theorem map_asFunction_ne (twins : Twins f o)
    (hargs : Derives Registry.builtin (.arguments 2) args)
    (hnumbers : ∀ t ∈ args, t.isAtom = true → t.kind = .number)
    (hproper : ∀ t ∈ pre, Proper Registry.builtin t)
    (hexpects : Token.expectsOperand pre.getLast? = true) (h : ¬Undisturbed pre post)
    {x y : List Token}
    (hx : reorder Registry.builtin (callTokens pre (Token.function f) args post) = .ok x)
    (hy : reorder Registry.builtin (callTokens pre (Token.operator o) args post) = .ok y) :
    y.map asFunction ≠ x.map asFunction := by
  intro heq
  obtain ⟨entry, listed, fixity⟩ := exists_entry twins
  cases hread : advance Registry.builtin [] pre with
  | error fault =>
      rw [callTokens, reorder_append_of_error hread] at hx
      cases hx
  | ok result =>
      obtain ⟨written, stack⟩ := result
      obtain ⟨out, hnumber, hcall⟩ :=
        reorder_callTokens (f := f) listed fixity hargs hnumbers hread
      obtain ⟨hfunction, hoperator⟩ := hcall post
      rw [hx] at hfunction
      rw [hy] at hoperator
      obtain ⟨rest, hrest, rfl⟩ := Except.map_eq_ok.mp hfunction.symm
      obtain ⟨rest', hrest', rfl⟩ := Except.map_eq_ok.mp hoperator.symm
      -- what the tokens before the call write out comes first in both rows
      have hcancel : (stack.takeWhile (yieldsTo Registry.builtin entry) ++ (out ++ rest')).map
          asFunction = (out ++ Token.function f :: rest).map asFunction := by
        simpa only [List.map_append, List.append_cancel_left_eq] using heq
      have htake : stack.takeWhile (yieldsTo Registry.builtin entry) = [] := by
        refine eq_nil_of_map_eq asFunction_kind (fun t ht => ?_) hnumber hcancel
        exact not_number_of_yieldsTo (List.mem_takeWhile_imp ht)
      have hfree := (takeWhile_eq_nil_iff twins listed hproper hexpects hread).mp htake
      -- nothing yields, so it is the factorial that comes before the operator
      have hfactorial : post.head? = some (Token.operator factorialSymbol) := by
        by_contra hne
        exact h ⟨hfree, hne⟩
      cases post with
      | nil => cases hfactorial
      | cons t post =>
          obtain rfl : t = Token.operator factorialSymbol := Option.some.inj hfactorial
          obtain ⟨after, listed', fixity'⟩ := builtin_grammatical.factorial
          rw [reorderFrom_cons, step_after listed' fixity'] at hrest'
          change (reorderFrom Registry.builtin _ post).map _ = _ at hrest'
          obtain ⟨more, _, rfl⟩ := Except.map_eq_ok.mp hrest'
          rw [htake, List.nil_append, List.singleton_append, List.map_append, List.map_append]
            at hcancel
          have hhead := (List.cons.inj (List.append_cancel_left hcancel)).1
          have hself : asFunction (Token.operator factorialSymbol) =
              Token.operator factorialSymbol := by decide
          rw [hself, (asFunction_twins twins).2] at hhead
          cases hhead

end

end ReversePolish

/-! ## Twins compute the same -/

namespace Machine

variable {f o : List Char} {s : Settings}

theorem step_twins (twins : Twins f o) (stack : List Value) :
    step Registry.builtin s stack (Token.operator o) =
      step Registry.builtin s stack (Token.function f) := by
  rcases twins with ⟨rfl, rfl⟩ | ⟨rfl, rfl⟩ <;> rfl

/-- The machine computes the same with either of two twins. -/
theorem evaluate_twins (twins : Twins f o) (before after : List Token) :
    evaluate Registry.builtin s (before ++ Token.operator o :: after) =
      evaluate Registry.builtin s (before ++ Token.function f :: after) := by
  rw [evaluate, evaluate, run_append, run_append]
  simp only [run_cons, step_twins twins]

end Machine

/-! ## Lines with a call -/

namespace Calculator

open ReversePolish

variable {c : Calculator} {valueOf : List Char → Drawing Failure Number}
  {pre args post : List Token}

/-- The tokens around a call are replaced, and the name and the parentheses stay. -/
theorem substitute_callTokens {name : Token} (hname : name.isAtom = false) :
    c.substitute valueOf (callTokens pre name args post) =
      (c.substitute valueOf pre).bind fun pre' => (c.substitute valueOf args).bind fun args' =>
        (c.substitute valueOf post).map fun post' => callTokens pre' name args' post' := by
  rw [callTokens, substitute_append, substitute_cons_of_not_atom hname,
    substitute_cons_of_not_atom rfl, substitute_append, substitute_cons_of_not_atom rfl]
  simp only [Drawing.map_bind, Drawing.map_map]
  rfl

theorem callLine_not_blank {f o name before body after : List Char} (twins : Twins f o)
    (hname : name = f ∨ name = o) : (callLine before name body after).all Text.isBlank = false := by
  obtain ⟨c, rest, rfl, hc⟩ := twins.exists_cons hname
  have hletter : Text.isBlank c = false := by rcases hc with rfl | rfl | rfl <;> decide
  simp [callLine, hletter]

/-- The operands around a call and in it are replaced before the line is ordered, in one way
whatever the name. -/
theorem reversePolish_callTokens (c : Calculator) (vars : Variables) (pre args post : List Token) :
    ∃ replaced : Drawing Failure (List Token × List Token × List Token),
      (∀ pre' args' post', replaced.Yields (pre', args', post') →
        (c.substitute (c.resolve vars) pre).Yields pre' ∧
          (c.substitute (c.resolve vars) args).Yields args' ∧
          (c.substitute (c.resolve vars) post).Yields post') ∧
      ∀ {name line}, Token.isAtom name = false →
        c.tokenize line = .ok (callTokens pre name args post) →
          c.reversePolishWith (c.resolve vars) line = replaced.bind fun parts =>
            .still ((reorder c.registry
              (callTokens parts.1 name parts.2.1 parts.2.2)).mapError .fault) := by
  refine ⟨(c.substitute (c.resolve vars) pre).bind fun pre' =>
    (c.substitute (c.resolve vars) args).bind fun args' =>
      (c.substitute (c.resolve vars) post).map fun post' => (pre', args', post'), ?_, ?_⟩
  · intro pre' args' post' h
    obtain ⟨_, hpre, h⟩ := h.of_bind
    obtain ⟨_, hargs, h⟩ := h.of_bind
    obtain ⟨_, hpost, hparts⟩ := Drawing.yields_map.mp h
    cases hparts
    exact ⟨hpre, hargs, hpost⟩
  · intro name line hname hline
    rw [reversePolishWith, hline]
    show (c.substitute (c.resolve vars) _).bind _ = _
    rw [substitute_callTokens hname]
    simp only [Drawing.bind_assoc, Drawing.bind_map]

/-- Once the operands are replaced, the call is as undisturbed as before: what stands right around
it is no operand. -/
theorem reorder_replaced {f o : List Char} (twins : Twins f o)
    (hproper : ∀ t ∈ pre, Proper Registry.builtin t)
    (hexpects : Token.expectsOperand pre.getLast? = true)
    (hargs : Derives Registry.builtin (.arguments 2) args)
    (hpost : ∀ t ∈ post.head?, t.kind ≠ .number ∧ t.startsOperand = false)
    {pre' args' post' : List Token} (hpre' : (c.substitute valueOf pre).Yields pre')
    (hargs' : (c.substitute valueOf args).Yields args')
    (hpost' : (c.substitute valueOf post).Yields post') :
    (Undisturbed pre post →
      (∃ fault,
        reorder Registry.builtin (callTokens pre' (Token.function f) args' post') = .error fault ∧
        reorder Registry.builtin (callTokens pre' (Token.operator o) args' post') = .error fault) ∨
      ∃ front after, reorder Registry.builtin (callTokens pre' (Token.function f) args' post') =
          .ok (front ++ Token.function f :: after) ∧
        reorder Registry.builtin (callTokens pre' (Token.operator o) args' post') =
          .ok (front ++ Token.operator o :: after)) ∧
    (¬Undisturbed pre post → ∀ {x y : List Token},
      reorder Registry.builtin (callTokens pre' (Token.function f) args' post') = .ok x →
      reorder Registry.builtin (callTokens pre' (Token.operator o) args' post') = .ok y →
        y.map asFunction ≠ x.map asFunction) := by
  have hlast := getLast?_substitute hexpects hpre'
  have hhead := head?_substitute hpost hpost'
  have hiff : Undisturbed pre' post' ↔ Undisturbed pre post := by
    rw [Undisturbed, Undisturbed, Free, Free, hlast, hhead]
  have hproper' := proper_substitute hproper hpre'
  have hderives := derives_substitute hargs hargs'
  have hnumbers := substitute_numbers hargs'
  rw [← hlast] at hexpects
  rw [← hhead] at hpost
  rw [← hiff]
  exact ⟨reorder_undisturbed twins hderives hnumbers hproper' hexpects hpost,
    fun h _ _ => map_asFunction_ne twins hderives hnumbers hproper' hexpects h⟩

/-- **The two lines of an undisturbed call have one value**, and those of a disturbed one are
ordered differently. Here their tokens are settled. -/
theorem evaluate_callTokens (c : Calculator) (hregistry : c.registry = .builtin) {f o : List Char}
    (twins : Twins f o) {lineF lineO : List Char} (hblankF : lineF.all Text.isBlank = false)
    (hblankO : lineO.all Text.isBlank = false)
    (hF : c.tokenize lineF = .ok (callTokens pre (Token.function f) args post))
    (hO : c.tokenize lineO = .ok (callTokens pre (Token.operator o) args post))
    (hproper : ∀ t ∈ pre, Proper Registry.builtin t)
    (hexpects : Token.expectsOperand pre.getLast? = true)
    (hargs : Derives Registry.builtin (.arguments 2) args)
    (hpost : ∀ t ∈ post.head?, t.kind ≠ .number ∧ t.startsOperand = false) (vars : Variables) :
    (Undisturbed pre post → c.evaluate lineO vars = c.evaluate lineF vars) ∧
      ∀ x y, c.reversePolish lineF vars = .ok x → c.reversePolish lineO vars = .ok y →
        (y.map asFunction = x.map asFunction ↔ Undisturbed pre post) := by
  obtain ⟨replaced, hparts, hread⟩ := reversePolish_callTokens c vars pre args post
  rw [hregistry] at hread
  have hreorder : ∀ {pre' args' post'}, replaced.Yields (pre', args', post') → _ :=
    fun h => reorder_replaced twins hproper hexpects hargs hpost (hparts _ _ _ h).1
      (hparts _ _ _ h).2.1 (hparts _ _ _ h).2.2
  constructor
  · intro h
    have hcompute : c.compute lineO vars = c.compute lineF vars := by
      rw [compute_eq c hblankO, compute_eq c hblankF, hread rfl hF, hread rfl hO, hregistry,
        Drawing.bind_assoc, Drawing.bind_assoc]
      refine Drawing.bind_congr fun ⟨pre', args', post'⟩ hyields => ?_
      rcases (hreorder hyields).1 h with ⟨fault, hf, ho⟩ | ⟨front, after, hf, ho⟩
      · rw [hf, ho]
      · rw [hf, ho]
        exact Machine.evaluate_twins twins front after
    rw [evaluate, evaluate, hcompute]
  · intro x y hx hy
    -- both lines draw the same for their operands
    rw [reversePolish, hread rfl hF, Drawing.outcome_bind] at hx
    rw [reversePolish, hread rfl hO, Drawing.outcome_bind] at hy
    cases hdrawn : replaced.outcome c.generator with
    | error failure =>
        rw [hdrawn] at hx
        cases hx
    | ok parts =>
        rw [hdrawn] at hx hy
        obtain ⟨hkept, hchanged⟩ := hreorder (Drawing.yields_of_outcome hdrawn)
        have hx' := Except.mapError_eq_ok.mp hx
        have hy' := Except.mapError_eq_ok.mp hy
        refine ⟨fun heq => ?_, fun h => ?_⟩
        · by_contra h
          exact hchanged h hx' hy' heq
        · rcases hkept h with ⟨fault, hf, _⟩ | ⟨front, after, hf, ho⟩
          · rw [hf] at hx'
            cases hx'
          · obtain rfl := Except.ok.inj (hf.symm.trans hx')
            obtain rfl := Except.ok.inj (ho.symm.trans hy')
            simp [asFunction_twins twins]

/-- **A call by an operator means the call of the function** that computes the same, whatever the
line goes on with, unless it is disturbed: if neither line has tokens, neither has a value, and else
the two lines have the same outcome. Where the call is disturbed, what is computed is not the call:
the two lines are ordered differently. -/
theorem evaluate_operator_call (c : Calculator) (hregistry : c.registry = .builtin)
    {f o : List Char} (twins : Twins f o) {before body : List Char} {pre args : List Token}
    (call : FunctionCall c.lexicon before f body pre args) (after : List Char) (vars : Variables) :
    ((∀ x, c.evaluate (callLine before f body after) vars ≠ .ok x) ∧
        ∀ x, c.evaluate (callLine before o body after) vars ≠ .ok x) ∨
      ∃ post, c.tokenize (callLine before f body after) =
          .ok (callTokens pre (Token.function f) args post) ∧
        c.tokenize (callLine before o body after) =
          .ok (callTokens pre (Token.operator o) args post) ∧
        (Undisturbed pre post → c.evaluate (callLine before o body after) vars =
          c.evaluate (callLine before f body after) vars) ∧
        ∀ x y, c.reversePolish (callLine before f body after) vars = .ok x →
          c.reversePolish (callLine before o body after) vars = .ok y →
            (y.map asFunction = x.map asFunction ↔ Undisturbed pre post) := by
  have hlexicon : c.lexicon = {} := by rw [lexicon, hregistry]
  rw [hlexicon] at call
  have hblank : ∀ name, name = f ∨ name = o →
      (callLine before name body after).all Text.isBlank = false :=
    fun name hname => callLine_not_blank twins hname
  have htokens : ∀ {line tokens}, (({} : Lexicon).tokenize line).toOption = some tokens →
      c.tokenize line = .ok tokens := by
    intro line tokens h
    rw [tokenize, hlexicon]
    exact Except.toOption_eq_some.mp h
  have hnone : ∀ {line}, line.all Text.isBlank = false →
      (({} : Lexicon).tokenize line).toOption = none → ∀ x, c.evaluate line vars ≠ .ok x := by
    intro line hline h x hx
    obtain ⟨tokens, _, _, hread, _⟩ := compute_inv hline (Drawing.yields_of_outcome hx)
    rw [tokenize, hlexicon] at hread
    rw [Except.toOption_eq_some.mpr hread] at h
    cases h
  rcases call.tokens_after twins after with ⟨hf, ho⟩ | ⟨post, hpost, hread⟩
  · exact .inl ⟨hnone (hblank f (.inl rfl)) hf, hnone (hblank o (.inr rfl)) ho⟩
  · have hf := htokens (hread f _ (.inl ⟨rfl, rfl⟩))
    have ho := htokens (hread o _ (.inr ⟨rfl, rfl⟩))
    have hobeys : Obeys Registry.builtin none (callTokens pre (Token.function f) args post) := by
      rw [tokenize, hlexicon] at hf
      exact tokenize_obeys builtin_grammatical hf
    have hproper : ∀ t ∈ pre, Proper Registry.builtin t :=
      fun t ht => hobeys.proper t (by simp [callTokens, ht])
    exact .inr ⟨post, hf, ho, evaluate_callTokens c hregistry twins (hblank f (.inl rfl))
      (hblank o (.inr rfl)) hf ho hproper call.expected call.arguments hpost vars⟩

/-- As a factor and before a sum a call is undisturbed: `2*nPr(5;2)+1` is `2*perm(5;2)+1`. -/
theorem evaluate_operator_call_factor :
    ({} : Calculator).evaluate "2*nPr(5;2)+1".toList =
      ({} : Calculator).evaluate "2*perm(5;2)+1".toList := by
  have hcall : FunctionCall ({} : Calculator).lexicon "2*".toList "perm".toList "(5;2".toList
      [Token.number ['2'], Token.operator ['*']]
      [Token.number ['5'], Token.separator, Token.number ['2']] := by
    refine ⟨⟨[⟨.number, ['2'], 0⟩, ⟨.symbol, ['*'], 1⟩, ⟨.symbol, "perm".toList, 2⟩,
      ⟨.leftParen, ['('], 6⟩, ⟨.number, ['5'], 7⟩, ⟨.separator, [';'], 8⟩, ⟨.number, ['2'], 9⟩,
      ⟨.rightParen, [')'], 10⟩], by decide +kernel, by decide⟩, by decide +kernel,
      by decide +kernel, by decide, ?_⟩
    exact .more (e := [_]) (.single (.atom rfl)) (.one (.single (.atom rfl)))
  have hvalue : ({} : Calculator).evaluate "2*perm(5;2)+1".toList =
      .ok ⟨.finite ⟨false, 41, 0⟩, none⟩ := by decide +kernel
  have htokens : ({} : Calculator).tokenize "2*perm(5;2)+1".toList =
      .ok (callTokens [Token.number ['2'], Token.operator ['*']] (Token.function "perm".toList)
        [Token.number ['5'], Token.separator, Token.number ['2']]
        [Token.operator ['+'], Token.number ['1']]) := by decide +kernel
  rcases evaluate_operator_call {} rfl (.inl ⟨rfl, rfl⟩) hcall "+1".toList {} with
    ⟨hnone, _⟩ | ⟨post, hf, _, hsame, _⟩
  · exact absurd hvalue (hnone _)
  · have hpost : post = [Token.operator ['+'], Token.number ['1']] := by
      have heq := Except.ok.inj (hf.symm.trans htokens)
      simpa [callTokens] using heq
    subst hpost
    refine hsame ⟨?_, by decide⟩
    rintro t ⟨⟩
    decide

/-- After a sign, after another such operator and before a factorial a call by an operator is not
the call of its function. -/
theorem evaluate_disturbed_calls :
    (({} : Calculator).evaluate "-perm(5;2)".toList = .ok ⟨.finite ⟨true, 20, 0⟩, none⟩ ∧
      ({} : Calculator).evaluate "-nPr(5;2)".toList = .error (.fault (.tooFewOperands 0 1))) ∧
    (({} : Calculator).evaluate "30nPr perm(2;1)".toList =
        .ok ⟨.finite ⟨false, 870, 0⟩, none⟩ ∧
      ({} : Calculator).evaluate "30nPr nPr(2;1)".toList =
        .error (.fault (.tooFewOperands 1 2))) ∧
    ({} : Calculator).evaluate "perm(3;2)!".toList = .ok ⟨.finite ⟨false, 720, 0⟩, none⟩ ∧
      ({} : Calculator).evaluate "nPr(3;2)!".toList = .ok ⟨.finite ⟨false, 6, 0⟩, none⟩ := by
  refine ⟨⟨?_, ?_⟩, ⟨?_, ?_⟩, ?_, ?_⟩ <;> decide +kernel

end Calculator

end DecimalCalc
