import DecimalCalc.Expression.Builtin
import DecimalCalc.Proofs.Reordering
import DecimalCalc.Proofs.Tree

/-!
# Precedence

How expression trees are written with operators between, after and before their operands
(`Written`), and that reordering finds the tree again: it turns each row of tokens that a tree is
written as into the tree's postorder (`reorder_written`). So operators after an operand bind
tightest, then functions, then operators between operands by precedence and associativity, whatever
parentheses are written in addition.
-/

set_option autoImplicit false

namespace DecimalCalc

/-- Operators between operands bind to the same side if they have one precedence. -/
def Registry.SharesAssociativity (registry : Registry) : Prop :=
  ∀ (x y : List Char) (a b : Entry), registry.find? x = some a → registry.find? y = some b →
    a.fixity = .between → b.fixity = .between → a.precedence = b.precedence →
    a.associativity = b.associativity

theorem Registry.builtin_sharesAssociativity : Registry.builtin.SharesAssociativity := by
  have hentries : ∀ a ∈ Builtin.entries, ∀ b ∈ Builtin.entries, a.fixity = .between →
      b.fixity = .between → a.precedence = b.precedence → a.associativity = b.associativity := by
    decide +kernel
  intro x y a b ha hb
  exact hentries a (List.mem_of_find?_eq_some ha) b (List.mem_of_find?_eq_some hb)

/-! ## Written trees -/

/-- What a written tree looks like from outside: an operand on its own, a function before its
operand without parentheses, or an operator between two operands. -/
inductive Shape
  | closed
  | bare
  | between (entry : Entry)

/-- A tree, and how it is written. -/
structure Writing where
  tree : Tree
  shape : Shape
  tokens : List Token

namespace Shape

/-- A tree of this shape may stand left of an operator without parentheses. -/
def FitsLeftOf (operator : Entry) : Shape → Prop
  | .between inner => operator.precedence < inner.precedence ∨
      (operator.precedence = inner.precedence ∧ operator.associativity = .left)
  | _ => True

/-- A tree of this shape may stand right of an operator without parentheses. -/
def FitsRightOf (operator : Entry) : Shape → Prop
  | .between inner => operator.precedence < inner.precedence ∨
      (operator.precedence = inner.precedence ∧ operator.associativity = .right)
  | _ => True

/-- A tree of this shape may stand after a function without parentheses. -/
def FitsAfterFunction : Shape → Prop
  | .between _ => False
  | _ => True

end Shape

/-- The ways to write a tree. Parentheses may stand around every part; they have to stand around an
operator between operands wherever it binds too weakly for its place, and around a function without
parentheses that an operator follows which stands after its operand. An operand that a function
stands before without parentheses does not start with one, as it would be read as the function's
argument list. -/
inductive Written (registry : Registry) : Tree → Shape → List Token → Prop
  | number (text : List Char) : Written registry (.number text) .closed [Token.number text]
  | parentheses {t : Tree} {shape : Shape} {tokens : List Token}
      (inner : Written registry t shape tokens) :
      Written registry t .closed (Token.leftParen :: (tokens ++ [Token.rightParen]))
  | call (symbol : List Char) (arguments : List Writing)
      (written : ∀ a ∈ arguments, Written registry a.tree a.shape a.tokens) :
      Written registry (.node (Token.function symbol) (arguments.map Writing.tree)) .closed
        (Token.function symbol :: Token.leftParen ::
          ([Token.separator].intercalate (arguments.map Writing.tokens) ++ [Token.rightParen]))
  | bare (symbol : List Char) {t : Tree} {shape : Shape} {tokens : List Token}
      (operand : Written registry t shape tokens) (fits : shape.FitsAfterFunction)
      (start : tokens.head? ≠ some Token.leftParen) :
      Written registry (.node (Token.function symbol) [t]) .bare (Token.function symbol :: tokens)
  | after {symbol : List Char} {entry : Entry} {t : Tree} {tokens : List Token}
      (listed : registry.find? symbol = some entry) (fixity : entry.fixity = .after)
      (operand : Written registry t .closed tokens) :
      Written registry (.node (Token.operator symbol) [t]) .closed
        (tokens ++ [Token.operator symbol])
  | between {symbol : List Char} {entry : Entry} {l r : Tree} {lshape rshape : Shape}
      {ltokens rtokens : List Token}
      (listed : registry.find? symbol = some entry) (fixity : entry.fixity = .between)
      (left : Written registry l lshape ltokens) (fitsLeft : lshape.FitsLeftOf entry)
      (right : Written registry r rshape rtokens) (fitsRight : rshape.FitsRightOf entry) :
      Written registry (.node (Token.operator symbol) [l, r]) (.between entry)
        (ltokens ++ Token.operator symbol :: rtokens)

namespace ReversePolish

variable {registry : Registry}

/-! ## What waits while a tree is read -/

/-- A token that binds at least as strongly as operators of a precedence: a function, or an operator
between operands of at least that precedence. -/
def BindsAtLeast (registry : Registry) (precedence : Int) (t : Token) : Prop :=
  t.kind = .function ∨ ∃ entry, t.kind = .operator ∧ registry.find? t.text = some entry ∧
    precedence ≤ entry.precedence

/-- What may still wait when a tree of this shape has been read, above what waited before. -/
def Leaves (registry : Registry) (tokens : List Token) : Shape → Prop
  | .closed => tokens = []
  | .bare => ∀ t ∈ tokens, t.kind = .function
  | .between entry => ∀ t ∈ tokens, BindsAtLeast registry entry.precedence t

/-- The token on top of the stack does not disturb a tree of this shape that is read next: it is no
function whose arguments the tree's first parenthesis would open, and no operator that the tree's
own operator would write out. -/
def Awaits (registry : Registry) (stack : List Token) (shape : Shape) (tokens : List Token) :
    Prop :=
  ∀ top ∈ stack.head?, (top.kind = .function → tokens.head? ≠ some Token.leftParen) ∧
    ∀ entry, shape = .between entry → yieldsTo registry entry top = false

theorem awaits_leftParen (stack : List Token) (shape : Shape) (tokens : List Token) :
    Awaits registry (Token.leftParen :: stack) shape tokens := by
  intro top htop
  obtain rfl : Token.leftParen = top := by simpa using htop
  exact ⟨fun h => absurd h (by decide), fun entry _ => rfl⟩

theorem unopened_of_leaves {waiting : List Token} {shape : Shape}
    (h : Leaves registry waiting shape) : Unopened waiting := by
  intro t ht hparen
  cases shape with
  | closed => rw [show waiting = [] from h] at ht; simp at ht
  | bare => rw [h t ht] at hparen; simp at hparen
  | between entry =>
      rcases h t ht with hkind | ⟨_, hkind, _⟩ <;> rw [hkind] at hparen <;> simp at hparen

/-- Nothing but functions waits after what a function may stand before without parentheses. -/
theorem function_of_leaves {waiting : List Token} {shape : Shape}
    (h : Leaves registry waiting shape) (hfits : shape.FitsAfterFunction) :
    ∀ t ∈ waiting, t.kind = .function := by
  intro t ht
  cases shape with
  | closed =>
      rw [show waiting = [] from h] at ht
      cases ht
  | bare => exact h t ht
  | between entry => exact hfits.elim

/-- All that waits after a right operand binds at least as strongly as its operator. -/
theorem bindsAtLeast_of_leaves {operator : Entry} {waiting : List Token} {shape : Shape}
    (h : Leaves registry waiting shape) (hfits : shape.FitsRightOf operator) :
    ∀ t ∈ waiting, BindsAtLeast registry operator.precedence t := by
  intro t ht
  cases shape with
  | closed =>
      rw [show waiting = [] from h] at ht
      cases ht
  | bare => exact Or.inl (h t ht)
  | between inner =>
      have hle : operator.precedence ≤ inner.precedence := by
        rcases hfits with hlt | ⟨heq, _⟩ <;> omega
      rcases h t ht with hkind | ⟨entry, hkind, listed, hprec⟩
      · exact Or.inl hkind
      · exact Or.inr ⟨entry, hkind, listed, Int.le_trans hle hprec⟩

/-- Which of two operators between operands is written out first. -/
theorem outranks_iff {waiting later : Entry} : outranks waiting later = true ↔
    later.precedence < waiting.precedence ∨
      (waiting.precedence = later.precedence ∧ later.associativity = .left) := by
  cases h : later.associativity <;> simp [outranks, Entry.isRightAssociative, h]

/-- An operator that is at least as strong as one a later operator yields to yields to it too. -/
theorem yieldsTo_of_bindsAtLeast {later : Entry} {precedence : Int} {t : Token}
    (h : BindsAtLeast registry precedence t)
    (hweak : later.precedence < precedence ∨
      (later.precedence = precedence ∧ later.associativity = .left)) :
    yieldsTo registry later t = true := by
  rcases h with hkind | ⟨entry, hkind, listed, hle⟩
  · simp [yieldsTo, hkind]
  · have houtranks : outranks entry later = true := by
      rw [outranks_iff]
      rcases hweak with hlt | ⟨heq, hleft⟩
      · exact Or.inl (by omega)
      · by_cases hsame : entry.precedence = later.precedence
        · exact Or.inr ⟨hsame, hleft⟩
        · exact Or.inl (by omega)
    simp [yieldsTo, hkind, listed, houtranks]

/-- All that waits after a left operand is written out before its operator may wait. -/
theorem yieldsTo_of_leaves {later : Entry} {waiting : List Token} {shape : Shape}
    (h : Leaves registry waiting shape) (hfits : shape.FitsLeftOf later) :
    ∀ t ∈ waiting, yieldsTo registry later t = true := by
  intro t ht
  cases shape with
  | closed => rw [show waiting = [] from h] at ht; simp at ht
  | bare => simp [yieldsTo, h t ht]
  | between entry => exact yieldsTo_of_bindsAtLeast (h t ht) hfits

/-- What does not yield to an operator does not yield to the operator of its left operand. -/
theorem awaits_left {entry : Entry} {stack tokens ltokens : List Token} {lshape : Shape}
    (h : Awaits registry stack (.between entry) tokens) (hfits : lshape.FitsLeftOf entry) :
    Awaits registry stack lshape ltokens := by
  intro top htop
  have hhold : yieldsTo registry entry top = false := (h top htop).2 entry rfl
  refine ⟨fun hkind => by simp [yieldsTo, hkind] at hhold, ?_⟩
  rintro inner rfl
  unfold yieldsTo at hhold ⊢
  split at hhold
  · exact hhold
  · rename_i hkind
    cases hfind : registry.find? top.text with
    | none => rfl
    | some waiting =>
        rw [hfind, Option.any_some, ← Bool.not_eq_true, outranks_iff] at hhold
        rw [Option.any_some, ← Bool.not_eq_true, outranks_iff]
        -- what outranks the operand's operator outranks `entry`, which binds no more strongly
        intro houtranks
        refine hhold ?_
        rcases hfits with hlt | ⟨heq, hleft⟩
        · exact Or.inl (by omega)
        · rcases houtranks with hlt | ⟨heq', _⟩
          · exact Or.inl (by omega)
          · exact Or.inr ⟨by omega, hleft⟩
  · rfl

/-- An operator does not yield to the operator of its right operand. -/
theorem awaits_right {symbol : List Char} {entry : Entry} {stack rtokens : List Token}
    {rshape : Shape} (hshare : registry.SharesAssociativity)
    (hlisted : ∀ inner, rshape = .between inner →
      ∃ x, registry.find? x = some inner ∧ inner.fixity = .between)
    (listed : registry.find? symbol = some entry) (fixity : entry.fixity = .between)
    (hfits : rshape.FitsRightOf entry) :
    Awaits registry (Token.operator symbol :: stack) rshape rtokens := by
  intro top htop
  obtain rfl : Token.operator symbol = top := by simpa using htop
  refine ⟨fun h => absurd h (by simp [Token.operator]), ?_⟩
  rintro inner rfl
  obtain ⟨x, hx, hinner⟩ := hlisted inner rfl
  rw [yieldsTo, Token.operator]
  simp only [listed, Option.any_some]
  rw [← Bool.not_eq_true, outranks_iff]
  -- of equal precedence both associate alike, so that neither yields to the left
  rcases hfits with hlt | ⟨heq, hright⟩
  · omega
  · have hsame := hshare symbol x entry inner listed hx fixity hinner heq
    rintro (hlt | ⟨_, hleft⟩)
    · omega
    · rw [hsame, hleft] at hright
      cases hright

/-- The operator that gives a written tree its shape is listed. -/
theorem exists_listed_of_written {t : Tree} {shape : Shape} {tokens : List Token}
    (h : Written registry t shape tokens) :
    ∀ inner, shape = .between inner →
      ∃ x, registry.find? x = some inner ∧ inner.fixity = .between := by
  rintro inner rfl
  cases h with
  | between listed fixity => exact ⟨_, listed, fixity⟩

/-! ## Reading a written tree -/

/-- A row of tokens reads a tree onto any stack that awaits it: what is written out and what is left
waiting make up the tree's postorder. -/
def ReadsTree (registry : Registry) (t : Tree) (shape : Shape) (tokens : List Token) : Prop :=
  ∀ stack, Awaits registry stack shape tokens → ∃ written waiting,
    advance registry stack tokens = .ok (written, waiting ++ stack) ∧
      Leaves registry waiting shape ∧ written ++ waiting = t.postorder

/-- The arguments of a function are read up to the parenthesis that closes them. -/
theorem reads_arguments {arguments : List Writing}
    (h : ∀ a ∈ arguments, ReadsTree registry a.tree a.shape a.tokens) (stack : List Token) :
    ∃ written waiting, advance registry (Token.leftParen :: stack)
        ([Token.separator].intercalate (arguments.map Writing.tokens)) =
          .ok (written, waiting ++ Token.leftParen :: stack) ∧ Unopened waiting ∧
      written ++ waiting = Tree.postorders (arguments.map Writing.tree) := by
  induction arguments with
  | nil => exact ⟨[], [], rfl, by simp [Unopened], rfl⟩
  | cons a rest ih =>
      obtain ⟨written, waiting, hread, hleaves, hpost⟩ :=
        h a (by simp) (Token.leftParen :: stack) (awaits_leftParen stack _ _)
      have hunopened := unopened_of_leaves hleaves
      cases rest with
      | nil =>
          refine ⟨written, waiting, by simpa [List.intercalate] using hread, hunopened, ?_⟩
          simpa [Tree.postorders] using hpost
      | cons b rest =>
          obtain ⟨written', waiting', hread', hunopened', hpost'⟩ :=
            ih fun c hc => h c (by simp [hc])
          -- the separator writes out what the argument before it left
          refine ⟨written ++ (waiting ++ written'), waiting', ?_, hunopened', ?_⟩
          · have hjoin : [Token.separator].intercalate ((a :: b :: rest).map Writing.tokens) =
                a.tokens ++ Token.separator ::
                  [Token.separator].intercalate ((b :: rest).map Writing.tokens) := by
              simp [List.intercalate]
            rw [hjoin]
            exact advance_append_of_ok hread
              (advance_cons_of_ok (step_separator hunopened stack) hread')
          · rw [List.map_cons, Tree.postorders, ← hpost, ← hpost']
            simp

section

variable {t l r : Tree} {shape lshape rshape : Shape} {tokens ltokens rtokens : List Token}
  {symbol : List Char} {entry : Entry}

theorem readsTree_number (text : List Char) :
    ReadsTree registry (.number text) .closed [Token.number text] := by
  intro stack _
  have hread : advance registry stack [Token.number text] = .ok ([Token.number text], stack) :=
    advance_cons_of_ok (step_number stack text) (advance_nil stack)
  exact ⟨[Token.number text], [], hread, rfl, rfl⟩

/-- Nothing yields to an operator across an open parenthesis. -/
theorem ReadsTree.parentheses (h : ReadsTree registry t shape tokens) :
    ReadsTree registry t .closed (Token.leftParen :: (tokens ++ [Token.rightParen])) := by
  intro stack hawaits
  obtain ⟨written, waiting, hread, hleaves, hpost⟩ :=
    h (Token.leftParen :: stack) (awaits_leftParen stack shape tokens)
  have hplain : ∀ top ∈ stack.head?, top.kind ≠ .function := fun top htop hkind =>
    (hawaits top htop).1 hkind rfl
  have hclose : step registry (waiting ++ Token.leftParen :: stack) Token.rightParen =
      .ok (waiting, stack) := step_rightParen (unopened_of_leaves hleaves) hplain
  refine ⟨written ++ waiting, [], ?_, rfl, by simpa using hpost⟩
  have hall := advance_cons_of_ok (step_leftParen stack)
    (advance_append_of_ok hread (advance_cons_of_ok hclose (advance_nil stack)))
  simpa using hall

/-- A function waits below the parenthesis of its arguments, and is written out with it. -/
theorem readsTree_call (symbol : List Char) {arguments : List Writing}
    (h : ∀ a ∈ arguments, ReadsTree registry a.tree a.shape a.tokens) :
    ReadsTree registry (.node (Token.function symbol) (arguments.map Writing.tree)) .closed
      (Token.function symbol :: Token.leftParen ::
        ([Token.separator].intercalate (arguments.map Writing.tokens) ++ [Token.rightParen])) := by
  intro stack _
  obtain ⟨written, waiting, hread, hunopened, hpost⟩ :=
    reads_arguments h (Token.function symbol :: stack)
  have hclose : step registry (waiting ++ Token.leftParen :: Token.function symbol :: stack)
      Token.rightParen = .ok (waiting ++ [Token.function symbol], stack) :=
    step_rightParen_function hunopened symbol stack
  refine ⟨written ++ (waiting ++ [Token.function symbol]), [], ?_, rfl, ?_⟩
  · have hall := advance_cons_of_ok (step_function stack symbol)
      (advance_cons_of_ok (step_leftParen _)
        (advance_append_of_ok hread (advance_cons_of_ok hclose (advance_nil stack))))
    simpa using hall
  · rw [Tree.postorder, ← hpost]
    simp

/-- A function without parentheses still waits when its operand has been read, below all that the
operand leaves. -/
theorem ReadsTree.bare (h : ReadsTree registry t shape tokens) (symbol : List Char)
    (fits : shape.FitsAfterFunction) (start : tokens.head? ≠ some Token.leftParen) :
    ReadsTree registry (.node (Token.function symbol) [t]) .bare
      (Token.function symbol :: tokens) := by
  intro stack _
  have hawaits : Awaits registry (Token.function symbol :: stack) shape tokens := by
    intro top htop
    refine ⟨fun _ => start, ?_⟩
    rintro entry rfl
    exact fits.elim
  obtain ⟨written, waiting, hread, hleaves, hpost⟩ := h _ hawaits
  refine ⟨written, waiting ++ [Token.function symbol], ?_, ?_, ?_⟩
  · have hall := advance_cons_of_ok (step_function stack symbol) hread
    simpa using hall
  · intro u hu
    rcases List.mem_append.mp hu with hu | hu
    · exact function_of_leaves hleaves fits u hu
    · rw [List.mem_singleton.mp hu]
      rfl
  · simp [Tree.postorder, Tree.postorders, ← hpost]

/-- An operand in parentheses leaves nothing waiting, so an operator after it comes right after it.
-/
theorem ReadsTree.after (h : ReadsTree registry t .closed tokens)
    (listed : registry.find? symbol = some entry) (fixity : entry.fixity = .after) :
    ReadsTree registry (.node (Token.operator symbol) [t]) .closed
      (tokens ++ [Token.operator symbol]) := by
  intro stack hawaits
  have hhead : Awaits registry stack .closed tokens := by
    intro top htop
    refine ⟨fun hkind hstart => (hawaits top htop).1 hkind ?_, by simp⟩
    rw [List.head?_append, hstart]
    rfl
  obtain ⟨written, waiting, hread, hleaves, hpost⟩ := h stack hhead
  obtain rfl : waiting = [] := hleaves
  refine ⟨written ++ [Token.operator symbol], [], ?_, rfl, ?_⟩
  · exact advance_append_of_ok hread
      (advance_cons_of_ok (step_after listed fixity stack) (advance_nil stack))
  · simpa [Tree.postorder, Tree.postorders] using hpost

/-- What a left operand leaves yields to the operator after it, and nothing below does. -/
theorem ReadsTree.between (hl : ReadsTree registry l lshape ltokens)
    (hr : ReadsTree registry r rshape rtokens) (hshare : registry.SharesAssociativity)
    (hlisted : ∀ inner, rshape = .between inner →
      ∃ x, registry.find? x = some inner ∧ inner.fixity = .between)
    (listed : registry.find? symbol = some entry) (fixity : entry.fixity = .between)
    (fitsLeft : lshape.FitsLeftOf entry) (fitsRight : rshape.FitsRightOf entry) :
    ReadsTree registry (.node (Token.operator symbol) [l, r]) (.between entry)
      (ltokens ++ Token.operator symbol :: rtokens) := by
  intro stack hawaits
  obtain ⟨lwritten, lwaiting, lread, lleaves, lpost⟩ := hl stack (awaits_left hawaits fitsLeft)
  obtain ⟨rwritten, rwaiting, rread, rleaves, rpost⟩ :=
    hr (Token.operator symbol :: stack) (awaits_right hshare hlisted listed fixity fitsRight)
  -- all that the left operand leaves is written out, and the operator waits instead
  have hstep := step_between listed fixity (yieldsTo_of_leaves lleaves fitsLeft)
    fun top htop => (hawaits top htop).2 entry rfl
  refine ⟨lwritten ++ (lwaiting ++ rwritten), rwaiting ++ [Token.operator symbol], ?_, ?_, ?_⟩
  · have hall := advance_append_of_ok lread (advance_cons_of_ok hstep rread)
    simpa using hall
  · intro u hu
    rcases List.mem_append.mp hu with hu | hu
    · exact bindsAtLeast_of_leaves rleaves fitsRight u hu
    · rw [List.mem_singleton.mp hu]
      exact Or.inr ⟨entry, rfl, listed, Int.le_refl _⟩
  · simp [Tree.postorder, Tree.postorders, ← lpost, ← rpost]

end

/-- **A written tree is read onto any stack that awaits it.** The induction is on the writing, for
all stacks at once: inside parentheses the stack is the outer one with a parenthesis on top, and
right of an operator it is the outer one with the operator on top. -/
theorem readsTree_of_written (hshare : registry.SharesAssociativity) {t : Tree} {shape : Shape}
    {tokens : List Token} (h : Written registry t shape tokens) :
    ReadsTree registry t shape tokens := by
  induction h with
  | number text => exact readsTree_number text
  | parentheses _ ih => exact ih.parentheses
  | call symbol arguments _ ih => exact readsTree_call symbol ih
  | bare symbol _ fits start ih => exact ih.bare symbol fits start
  | after listed fixity _ ih => exact ih.after listed fixity
  | between listed fixity _ fitsLeft hright fitsRight ihl ihr =>
      exact ihl.between ihr hshare (exists_listed_of_written hright) listed fixity fitsLeft fitsRight

/-- **Reordering a written tree gives its postorder**, in every registry in which operators of one
precedence share their associativity; the built-in one is such a registry. -/
theorem reorder_written :
    Registry.builtin.SharesAssociativity ∧
      ∀ (registry : Registry), registry.SharesAssociativity →
        ∀ (t : Tree) (shape : Shape) (tokens : List Token), Written registry t shape tokens →
          reorder registry tokens = .ok t.postorder := by
  refine ⟨Registry.builtin_sharesAssociativity, ?_⟩
  intro registry hshare t shape tokens hwritten
  obtain ⟨written, waiting, hread, hleaves, hpost⟩ :=
    readsTree_of_written hshare hwritten [] (by simp [Awaits])
  rw [List.append_nil] at hread
  rw [reorder, reorderFrom_eq, hread]
  show (finish waiting).map (written ++ ·) = _
  rw [finish_of_unopened (unopened_of_leaves hleaves), ← hpost]
  rfl

/-- Powers bind to the right, and more weakly than a function without parentheses and a factorial:
`2^sin 3^(4-5)!` is `2^((sin 3)^((4-5)!))`. -/
theorem reorder_written_power :
    reorder Registry.builtin
        [Token.number ['2'], Token.operator ['^'], Token.function ['s', 'i', 'n'],
          Token.number ['3'], Token.operator ['^'], Token.leftParen, Token.number ['4'],
          Token.operator ['-'], Token.number ['5'], Token.rightParen, Token.operator ['!']] =
      .ok [Token.number ['2'], Token.number ['3'], Token.function ['s', 'i', 'n'],
        Token.number ['4'], Token.number ['5'], Token.operator ['-'], Token.operator ['!'],
        Token.operator ['^'], Token.operator ['^']] := by
  have difference : Written Registry.builtin _ _
      ([Token.number ['4']] ++ Token.operator ['-'] :: [Token.number ['5']]) :=
    .between rfl rfl (.number _) trivial (.number _) trivial
  have sine : Written Registry.builtin _ _
      (Token.function ['s', 'i', 'n'] :: [Token.number ['3']]) :=
    .bare _ (.number _) trivial (by decide)
  have inner : Written Registry.builtin _ _
      (_ ++ Token.operator ['^'] :: (_ ++ [Token.operator ['!']])) :=
    .between rfl rfl sine trivial (.after rfl rfl difference.parentheses) trivial
  have outer : Written Registry.builtin _ _ ([Token.number ['2']] ++ Token.operator ['^'] :: _) :=
    .between rfl rfl (.number _) trivial inner (Or.inr ⟨rfl, rfl⟩)
  exact reorder_written.2 _ reorder_written.1 _ _ _ outer

end ReversePolish

end DecimalCalc
