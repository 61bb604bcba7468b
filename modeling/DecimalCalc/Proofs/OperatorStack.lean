import DecimalCalc.Proofs.Precedence
import DecimalCalc.Proofs.Verdict
import DecimalCalc.Proofs.WrittenOrder
import Mathlib.Logic.Relation

/-!
# The stack, moment by moment

A step of `ReversePolish.reorder` may move many tokens at once. Here it is taken apart into moves of
one token each (`Next`), so that one can speak of the stack at every moment, also in the middle of a
step. The moves compute what reordering does: a run of them ends with its result, or at a moment
where it fails (`reorder_eq_ok_iff_reaches`, `reorder_eq_error_iff_reaches`).

**The invariant of the stack** is `WellStacked`. Nothing waits but functions, opening parentheses and
operators between operands; an operator lies on no function, and on another operator only if it
binds more strongly, or as strongly and to the right; and the parentheses that wait are those left
open by what has been read. It holds at every moment of every run (`reaches_wellStacked`), because
each move takes the topmost token away, or lays one down that may lie there.
-/

set_option autoImplicit false

namespace DecimalCalc

namespace ReversePolish

open Relation

variable {registry : Registry}

/-! ## Moments and moves -/

/-- What is written out as soon as it is read: numbers, and operators after their operand. -/
theorem writtenAtOnce_iff {t : Token} : writtenAtOnce registry t = true ↔ t.kind = .number ∨
    t.kind = .operator ∧ ∃ entry, registry.find? t.text = some entry ∧ entry.isAfter = true := by
  obtain ⟨kind, text⟩ := t
  cases kind <;> simp [writtenAtOnce, Option.any_eq_true]

/-- An operator that stands between its operands, or is at least not written after them. -/
def Between (registry : Registry) (t : Token) (entry : Entry) : Prop :=
  t.kind = .operator ∧ registry.find? t.text = some entry ∧ entry.isAfter = false

/-- A moment of a run: the tokens that have been read, those that wait, the topmost first, those that
have been written out, and those still to be read. A token has been read when it is written out, laid
on the stack, or has closed or separated something. The last field is set between the end of an
argument list and the writing of its function. -/
structure Moment where
  read : List Token
  stack : List Token
  written : List Token
  unread : List Token
  ending : Bool

/-- The moves of one token. -/
inductive Next (registry : Registry) : Moment → Moment → Prop
  | write {read stack written unread : List Token} {t : Token} (h : writtenAtOnce registry t = true) :
      Next registry ⟨read, stack, written, t :: unread, false⟩
        ⟨read ++ [t], stack, written ++ [t], unread, false⟩
  | wait {read stack written unread : List Token} {t : Token}
      (kind : t.kind = .function ∨ t.kind = .leftParen) :
      Next registry ⟨read, stack, written, t :: unread, false⟩
        ⟨read ++ [t], t :: stack, written, unread, false⟩
  | yield {read stack written unread : List Token} {t top : Token} {entry : Entry}
      (between : Between registry t entry) (h : yieldsTo registry entry top = true) :
      Next registry ⟨read, top :: stack, written, t :: unread, false⟩
        ⟨read, stack, written ++ [top], t :: unread, false⟩
  | hold {read stack written unread : List Token} {t : Token} {entry : Entry}
      (between : Between registry t entry)
      (h : ∀ top ∈ stack.head?, yieldsTo registry entry top = false) :
      Next registry ⟨read, stack, written, t :: unread, false⟩
        ⟨read ++ [t], t :: stack, written, unread, false⟩
  | uncover {read stack written unread : List Token} {t top : Token}
      (kind : t.kind = .rightParen ∨ t.kind = .separator) (h : top.kind ≠ .leftParen) :
      Next registry ⟨read, top :: stack, written, t :: unread, false⟩
        ⟨read, stack, written ++ [top], t :: unread, false⟩
  | separate {read stack written unread : List Token} {t paren : Token}
      (kind : t.kind = .separator) (open' : paren.kind = .leftParen) :
      Next registry ⟨read, paren :: stack, written, t :: unread, false⟩
        ⟨read ++ [t], paren :: stack, written, unread, false⟩
  | close {read stack written unread : List Token} {t paren : Token}
      (kind : t.kind = .rightParen) (open' : paren.kind = .leftParen)
      (plain : ∀ top ∈ stack.head?, top.kind ≠ .function) :
      Next registry ⟨read, paren :: stack, written, t :: unread, false⟩
        ⟨read ++ [t], stack, written, unread, false⟩
  | closeCall {read stack written unread : List Token} {t paren function : Token}
      (kind : t.kind = .rightParen) (open' : paren.kind = .leftParen)
      (call : function.kind = .function) :
      Next registry ⟨read, paren :: function :: stack, written, t :: unread, false⟩
        ⟨read ++ [t], function :: stack, written, unread, true⟩
  | endCall {read stack written unread : List Token} {function : Token} :
      Next registry ⟨read, function :: stack, written, unread, true⟩
        ⟨read, stack, written ++ [function], unread, false⟩
  | flush {read stack written : List Token} {top : Token} (h : top.kind ≠ .leftParen) :
      Next registry ⟨read, top :: stack, written, [], false⟩
        ⟨read, stack, written ++ [top], [], false⟩

/-- The moments that a run over some tokens comes to. -/
def Reaches (registry : Registry) (tokens : List Token) (m : Moment) : Prop :=
  ReflTransGen (Next registry) ⟨[], [], [], tokens, false⟩ m

/-! ## The moves compute what reordering does -/

/-- What reordering makes of a moment. -/
def outcome (registry : Registry) : Moment → Except Fault (List Token)
  | ⟨_, function :: stack, written, unread, true⟩ =>
    (reorderFrom registry stack unread).map (written ++ [function] ++ ·)
  | ⟨_, stack, written, unread, _⟩ => (reorderFrom registry stack unread).map (written ++ ·)

theorem outcome_of_not_ending (read stack written unread : List Token) :
    outcome registry ⟨read, stack, written, unread, false⟩ =
      (reorderFrom registry stack unread).map (written ++ ·) := by
  cases stack <;> rfl

/-- A step that writes out some tokens and leaves a stack, in terms of what comes of it. -/
theorem outcome_of_step {stack stack' out : List Token} {t : Token}
    (h : step registry stack t = .ok (out, stack')) (read read' written unread : List Token) :
    outcome registry ⟨read, stack, written, t :: unread, false⟩ =
      outcome registry ⟨read', stack', written ++ out, unread, false⟩ := by
  rw [outcome_of_not_ending, outcome_of_not_ending, reorderFrom_cons, h]
  show ((reorderFrom registry stack' unread).map _).map _ = _
  simp only [Except.map_map, List.append_assoc]

/-- A token that goes from the top of the stack may go before the step that it is a part of. -/
theorem outcome_of_pop {stack : List Token} {t top : Token}
    (h : step registry (top :: stack) t =
      (step registry stack t).map fun (out, stack') => (top :: out, stack'))
    (read written unread : List Token) :
    outcome registry ⟨read, top :: stack, written, t :: unread, false⟩ =
      outcome registry ⟨read, stack, written ++ [top], t :: unread, false⟩ := by
  rw [outcome_of_not_ending, outcome_of_not_ending, reorderFrom_cons, reorderFrom_cons, h,
    Except.bind_map, Except.map_bind, Except.map_bind]
  simp only [Except.map_map, List.append_assoc, List.cons_append, List.nil_append]

theorem step_of_between {t : Token} {entry : Entry} (h : Between registry t entry)
    (stack : List Token) : step registry stack t =
      .ok (stack.takeWhile (yieldsTo registry entry),
        t :: stack.dropWhile (yieldsTo registry entry)) :=
  step_of_not_after h.1 h.2.1 h.2.2 stack

/-- An operator lets go what yields to it, one token after the other. -/
theorem step_of_yield {t top : Token} {entry : Entry} (between : Between registry t entry)
    (h : yieldsTo registry entry top = true) (stack : List Token) :
    step registry (top :: stack) t =
      (step registry stack t).map fun (out, stack') => (top :: out, stack') := by
  rw [step_of_between between, step_of_between between, List.takeWhile_cons_of_pos h,
    List.dropWhile_cons_of_pos h]
  rfl

theorem step_of_hold {t : Token} {entry : Entry} {stack : List Token}
    (between : Between registry t entry)
    (h : ∀ top ∈ stack.head?, yieldsTo registry entry top = false) :
    step registry stack t = .ok ([], t :: stack) := by
  have htake : stack.takeWhile (yieldsTo registry entry) = [] := by
    cases stack with
    | nil => rfl
    | cons top stack => rw [List.takeWhile_cons_of_neg (by simp [h top (by simp)])]
  rw [step_of_between between, htake, dropWhile_of_takeWhile htake]

/-- **No move changes what comes of a moment.** -/
theorem Next.outcome_eq {m m' : Moment} (h : Next registry m m') :
    outcome registry m = outcome registry m' := by
  cases h with
  | write h => exact outcome_of_step (step_of_writtenAtOnce h _) _ _ _ _
  | wait kind =>
      rw [outcome_of_step (step_of_waits kind _), List.append_nil]
  | yield between h => exact outcome_of_pop (step_of_yield between h _) _ _ _
  | hold between h =>
      rw [outcome_of_step (step_of_hold between h), List.append_nil]
  | uncover kind h => exact outcome_of_pop (step_of_uncover kind h _) _ _ _
  | @separate read stack written unread t paren kind open' =>
      have hstep : step registry (paren :: stack) t = .ok ([], paren :: stack) := by
        rw [step_of_separator kind (fromParen_cons_self open' stack), aboveParen_cons_self open']
      rw [outcome_of_step hstep, List.append_nil]
  | @close read stack written unread t paren kind open' plain =>
      have hstep : step registry (paren :: stack) t = .ok ([], stack) := by
        obtain ⟨hnone, hsame⟩ := called_of_plain plain
        rw [step_of_rightParen kind (fromParen_cons_self open' stack), aboveParen_cons_self open',
          hnone, hsame, List.append_nil]
      rw [outcome_of_step hstep, List.append_nil]
  | @closeCall read stack written unread t paren function kind open' call =>
      have hstep : step registry (paren :: function :: stack) t = .ok ([function], stack) := by
        obtain ⟨hcall, hbelow⟩ := called_of_function call stack
        rw [step_of_rightParen kind (fromParen_cons_self open' _), aboveParen_cons_self open',
          hcall, hbelow, List.nil_append]
      rw [outcome_of_step hstep read (read ++ [t]), outcome_of_not_ending]
      rfl
  | endCall =>
      rw [outcome_of_not_ending]
      rfl
  | @flush read stack written top h =>
      have hkind : (top.kind == TokenKind.leftParen) = false := by simpa using h
      rw [outcome_of_not_ending, outcome_of_not_ending]
      show (finish (top :: stack)).map _ = (finish stack).map _
      rw [finish, finish, List.find?_cons, hkind]
      cases stack.find? (·.kind == .leftParen) with
      | some paren => rfl
      | none => simp [Except.map]

theorem outcome_of_reaches {tokens : List Token} {m : Moment} (h : Reaches registry tokens m) :
    outcome registry m = reorder registry tokens := by
  have hstart : outcome registry ⟨[], [], [], tokens, false⟩ = reorder registry tokens := by
    rw [outcome_of_not_ending, reorder]
    cases reorderFrom registry [] tokens <;> rfl
  rw [← hstart]
  induction h with
  | refl => rfl
  | tail _ hnext ih => rw [← ih, hnext.outcome_eq]

/-- What a moment fails with, if the token that comes next cannot be read, or the end has come while
a parenthesis is open. -/
def FailsAt (registry : Registry) (m : Moment) (fault : Fault) : Prop :=
  m.ending = false ∧
    match m.unread with
    | [] => finish m.stack = .error fault
    | t :: _ => step registry m.stack t = .error fault

theorem outcome_of_failsAt {m : Moment} {fault : Fault} (h : FailsAt registry m fault) :
    outcome registry m = .error fault := by
  obtain ⟨read, stack, written, unread, ending⟩ := m
  obtain ⟨rfl, h⟩ := h
  rw [outcome_of_not_ending]
  cases unread with
  | nil =>
      rw [show reorderFrom registry stack [] = .error fault from h]
      rfl
  | cons t unread =>
      rw [reorderFrom_cons, show step registry stack t = .error fault from h]
      rfl

/-- A moment at which a run has ended well. -/
def Finished (m : Moment) : Prop := m.stack = [] ∧ m.unread = [] ∧ m.ending = false

section

variable (read stack written unread : List Token) {t : Token}

theorem exists_next_of_end : (∃ m', Next registry ⟨read, stack, written, [], false⟩ m') ∨
    Finished ⟨read, stack, written, [], false⟩ ∨
      ∃ fault, FailsAt registry ⟨read, stack, written, [], false⟩ fault := by
  cases stack with
  | nil => exact .inr (.inl ⟨rfl, rfl, rfl⟩)
  | cons top stack =>
      by_cases hkind : top.kind = .leftParen
      · exact .inr (.inr ⟨_, rfl, by simp [finish, hkind]; rfl⟩)
      · exact .inl ⟨_, .flush hkind⟩

theorem exists_next_of_operator (hkind : t.kind = .operator) :
    (∃ m', Next registry ⟨read, stack, written, t :: unread, false⟩ m') ∨
      ∃ fault, FailsAt registry ⟨read, stack, written, t :: unread, false⟩ fault := by
  cases hfind : registry.find? t.text with
  | none =>
      exact .inr ⟨.unknownSymbol t.text, rfl, step_of_unlisted hkind hfind stack⟩
  | some entry =>
      cases hafter : entry.isAfter with
      | true =>
          exact .inl ⟨_, .write (writtenAtOnce_iff.mpr (.inr ⟨hkind, entry, hfind, hafter⟩))⟩
      | false =>
          have between : Between registry t entry := ⟨hkind, hfind, hafter⟩
          cases stack with
          | nil => exact .inl ⟨_, .hold between (by simp)⟩
          | cons top stack =>
              cases hyield : yieldsTo registry entry top with
              | true => exact .inl ⟨_, .yield between hyield⟩
              | false => exact .inl ⟨_, .hold between (by simpa using hyield)⟩

theorem exists_next_of_rightParen (hkind : t.kind = .rightParen) :
    (∃ m', Next registry ⟨read, stack, written, t :: unread, false⟩ m') ∨
      ∃ fault, FailsAt registry ⟨read, stack, written, t :: unread, false⟩ fault := by
  cases stack with
  | nil =>
      exact .inr ⟨.mismatchedParentheses t, rfl, step_of_unmatched hkind rfl⟩
  | cons top stack =>
      by_cases hopen : top.kind = .leftParen
      · -- the token below the parenthesis decides whether a call ends here
        cases stack with
        | nil => exact .inl ⟨_, .close hkind hopen (by simp)⟩
        | cons below stack =>
            by_cases hcall : below.kind = .function
            · exact .inl ⟨_, .closeCall hkind hopen hcall⟩
            · exact .inl ⟨_, .close hkind hopen (by simpa using hcall)⟩
      · exact .inl ⟨_, .uncover (.inl hkind) hopen⟩

theorem exists_next_of_separator (hkind : t.kind = .separator) :
    (∃ m', Next registry ⟨read, stack, written, t :: unread, false⟩ m') ∨
      ∃ fault, FailsAt registry ⟨read, stack, written, t :: unread, false⟩ fault := by
  cases stack with
  | nil =>
      exact .inr ⟨.misplacedSeparator t, rfl, step_of_misplaced hkind rfl⟩
  | cons top stack =>
      by_cases hopen : top.kind = .leftParen
      · exact .inl ⟨_, .separate hkind hopen⟩
      · exact .inl ⟨_, .uncover (.inr hkind) hopen⟩

end

/-- **A run goes on** until it has ended well or fails. A moment that ends a call has the call's
function on top. -/
theorem exists_next (m : Moment) (hending : m.ending = true → m.stack ≠ []) :
    (∃ m', Next registry m m') ∨ Finished m ∨ ∃ fault, FailsAt registry m fault := by
  obtain ⟨read, stack, written, unread, ending⟩ := m
  cases ending with
  | true =>
      cases stack with
      | nil => exact absurd rfl (hending rfl)
      | cons function stack => exact .inl ⟨_, .endCall⟩
  | false =>
  cases unread with
  | nil => exact exists_next_of_end read stack written
  | cons t unread =>
  cases hkind : t.kind with
  | number => exact .inl ⟨_, .write (writtenAtOnce_iff.mpr (.inl hkind))⟩
  | function => exact .inl ⟨_, .wait (.inl hkind)⟩
  | leftParen => exact .inl ⟨_, .wait (.inr hkind)⟩
  | operator => exact (exists_next_of_operator read stack written unread hkind).imp_right .inr
  | rightParen => exact (exists_next_of_rightParen read stack written unread hkind).imp_right .inr
  | separator => exact (exists_next_of_separator read stack written unread hkind).imp_right .inr
  | reference | constant | string =>
      exact .inr (.inr ⟨.unexpectedToken t, rfl, step_of_unexpected (by simp [hkind]) stack⟩)

/-! ## Runs -/

/-- Each move reads a token or takes one off the stack. -/
theorem Next.work_lt {m m' : Moment} (h : Next registry m m') :
    2 * m'.unread.length + m'.stack.length < 2 * m.unread.length + m.stack.length := by
  cases h <;> simp only [List.length_cons] <;> omega

/-- A call is ended by writing its function, which is on top. -/
theorem Next.stack_ne_nil {m m' : Moment} (h : Next registry m m') :
    m'.ending = true → m'.stack ≠ [] := by
  cases h <;> simp

theorem Next.read_unread {m m' : Moment} (h : Next registry m m') :
    m'.read ++ m'.unread = m.read ++ m.unread := by
  cases h <;> simp

theorem reaches_read_unread {tokens : List Token} {m : Moment} (h : Reaches registry tokens m) :
    m.read ++ m.unread = tokens := by
  induction h with
  | refl => rfl
  | tail _ hnext ih => rw [hnext.read_unread, ih]

/-- **Every run comes to an end**, good or bad. The induction is on the work that is left. -/
theorem exists_end : ∀ (work : Nat) (m : Moment),
    2 * m.unread.length + m.stack.length ≤ work → (m.ending = true → m.stack ≠ []) →
      ∃ m', ReflTransGen (Next registry) m m' ∧ (Finished m' ∨ ∃ fault, FailsAt registry m' fault)
  | work, m, hwork, hending => by
      rcases @exists_next registry m hending with ⟨middle, hnext⟩ | hend
      · have hless := hnext.work_lt
        match work with
        | 0 => omega
        | work + 1 =>
            obtain ⟨last, hrun, hend⟩ := exists_end work middle (by omega) hnext.stack_ne_nil
            exact ⟨last, hrun.head hnext, hend⟩
      · exact ⟨m, .refl, hend⟩

/-- A moment at which a run has ended well. -/
theorem Finished.eq {tokens : List Token} {m : Moment} (h : Finished m)
    (hm : Reaches registry tokens m) : m = ⟨tokens, [], m.written, [], false⟩ := by
  have hread := reaches_read_unread hm
  obtain ⟨read, stack, written, unread, ending⟩ := m
  obtain ⟨rfl, rfl, rfl⟩ := h
  rw [List.append_nil] at hread
  rw [show read = tokens from hread]

theorem outcome_of_finished (tokens out : List Token) :
    outcome registry ⟨tokens, [], out, [], false⟩ = .ok out := by
  show (finish []).map (out ++ ·) = .ok out
  simp [finish, Except.map]

/-- **Reordering gives what a run of the moves ends with.** -/
theorem reorder_eq_ok_iff_reaches {tokens out : List Token} :
    reorder registry tokens = .ok out ↔ Reaches registry tokens ⟨tokens, [], out, [], false⟩ := by
  constructor
  · intro h
    obtain ⟨last, hrun, hend⟩ :=
      @exists_end registry _ ⟨[], [], [], tokens, false⟩ le_rfl (by simp)
    have houtcome : outcome registry last = .ok out := by rw [outcome_of_reaches hrun, h]
    rcases hend with hfinished | ⟨fault, hfails⟩
    · have hlast := hfinished.eq hrun
      rw [hlast, outcome_of_finished] at houtcome
      obtain rfl := Except.ok.inj houtcome
      rw [hlast] at hrun
      exact hrun
    · rw [outcome_of_failsAt hfails] at houtcome
      cases houtcome
  · intro h
    rw [← outcome_of_reaches h, outcome_of_finished]

/-- **Reordering fails as a run of the moves does.** -/
theorem reorder_eq_error_iff_reaches {tokens : List Token} {fault : Fault} :
    reorder registry tokens = .error fault ↔
      ∃ m, Reaches registry tokens m ∧ FailsAt registry m fault := by
  constructor
  · intro h
    obtain ⟨last, hrun, hend⟩ :=
      @exists_end registry _ ⟨[], [], [], tokens, false⟩ le_rfl (by simp)
    have houtcome : outcome registry last = .error fault := by rw [outcome_of_reaches hrun, h]
    rcases hend with hfinished | ⟨cause, hfails⟩
    · rw [hfinished.eq hrun, outcome_of_finished] at houtcome
      cases houtcome
    · rw [outcome_of_failsAt hfails] at houtcome
      obtain rfl := Except.error.inj houtcome
      exact ⟨last, hrun, hfails⟩
  · rintro ⟨m, hrun, hfails⟩
    rw [← outcome_of_reaches hrun, outcome_of_failsAt hfails]

/-! ## The invariant -/

/-- What waits for its operands: functions, and operators that do not follow their operand. -/
def Pending (registry : Registry) (t : Token) : Prop :=
  t.kind = .function ∨ ∃ entry, Between registry t entry

/-- What may be on the stack: opening parentheses, and what waits for its operands. -/
def MayWait (registry : Registry) (t : Token) : Prop := t.kind = .leftParen ∨ Pending registry t

/-- What may lie directly on what. Functions and parentheses may lie on anything, and operators on
parentheses. -/
def MayLieOn (registry : Registry) (upper lower : Token) : Prop :=
  upper.kind = .operator → lower.kind ≠ .function ∧
    (lower.kind = .operator → ∃ above below, registry.find? upper.text = some above ∧
      registry.find? lower.text = some below ∧ (below.precedence < above.precedence ∨
        below.precedence = above.precedence ∧ above.isRightAssociative = true))

/-- **The invariant of the stack** after some tokens. -/
structure WellStacked (registry : Registry) (read stack : List Token) : Prop where
  kinds : ∀ t ∈ stack, MayWait registry t
  order : stack.IsChain (MayLieOn registry)
  opened : LeavesOpen read (parens stack)

namespace WellStacked

variable {read stack : List Token} {t top : Token}

/-- What opens no parenthesis may be taken from the top. -/
theorem pop (h : WellStacked registry read (top :: stack)) (htop : top.kind ≠ .leftParen) :
    WellStacked registry read stack where
  kinds := fun u hu => h.kinds u (List.mem_cons_of_mem top hu)
  order := h.order.tail
  opened := by
    have hopened := h.opened
    rwa [parens_cons_of_ne htop] at hopened

/-- A token that is no parenthesis may be read. -/
theorem read_other (h : WellStacked registry read stack) (hopen : t.kind ≠ .leftParen)
    (hclose : t.kind ≠ .rightParen) : WellStacked registry (read ++ [t]) stack where
  kinds := h.kinds
  order := h.order
  opened := h.opened.append (balanced_singleton (Token.rise_of_other hopen hclose))

/-- A parenthesis is opened. -/
theorem open' (h : WellStacked registry read stack) (ht : t.kind = .leftParen) :
    WellStacked registry (read ++ [t]) (t :: stack) where
  kinds := by
    intro u hu
    rcases List.mem_cons.mp hu with rfl | hu
    · exact .inl ht
    · exact h.kinds u hu
  order := List.isChain_cons.mpr ⟨fun _ _ hkind => absurd hkind (by simp [ht]), h.order⟩
  opened := by
    rw [parens_cons_of_leftParen ht]
    exact .cons h.opened ht balanced_nil

/-- The innermost parenthesis is closed. -/
theorem close (h : WellStacked registry read (top :: stack)) (htop : top.kind = .leftParen)
    (ht : t.kind = .rightParen) : WellStacked registry (read ++ [t]) stack where
  kinds := fun u hu => h.kinds u (List.mem_cons_of_mem top hu)
  order := h.order.tail
  opened := by
    have hopened := h.opened
    rw [parens_cons_of_leftParen htop] at hopened
    exact hopened.close ht

/-- A function may wait on anything. -/
theorem call (h : WellStacked registry read stack) (ht : t.kind = .function) :
    WellStacked registry (read ++ [t]) (t :: stack) where
  kinds := by
    intro u hu
    rcases List.mem_cons.mp hu with rfl | hu
    · exact .inr (.inl ht)
    · exact h.kinds u hu
  order := List.isChain_cons.mpr ⟨fun _ _ hkind => absurd hkind (by simp [ht]), h.order⟩
  opened := by
    rw [parens_cons_of_ne (by simp [ht])]
    exact h.opened.append
      (balanced_singleton (Token.rise_of_other (by simp [ht]) (by simp [ht])))

end WellStacked

/-- **An operator may lie on what does not yield to it.** -/
theorem mayLieOn_of_not_yieldsTo {t top : Token} {entry : Entry} (ht : Between registry t entry)
    (htop : MayWait registry top) (h : yieldsTo registry entry top = false) :
    MayLieOn registry t top := by
  intro _
  constructor
  · intro hkind
    simp [yieldsTo, hkind] at h
  · intro hkind
    -- of what may wait only an operator between operands is of this kind
    rcases htop with hopen | hcall | ⟨below, _, hbelow, _⟩
    · rw [hkind] at hopen
      cases hopen
    · rw [hkind] at hcall
      cases hcall
    · refine ⟨entry, below, ht.2.1, hbelow, ?_⟩
      have hranks : ¬outranks below entry = true := by
        simpa [yieldsTo, hkind, hbelow] using h
      rw [outranks_iff] at hranks
      by_cases hlt : below.precedence < entry.precedence
      · exact .inl hlt
      · have heq : below.precedence = entry.precedence := by omega
        refine .inr ⟨heq, ?_⟩
        cases hassoc : entry.associativity with
        | left => exact absurd (.inr ⟨heq, hassoc⟩) hranks
        | right => simp [Entry.isRightAssociative, hassoc]

theorem WellStacked.hold {read stack : List Token} {t : Token} {entry : Entry}
    (h : WellStacked registry read stack) (between : Between registry t entry)
    (hold : ∀ top ∈ stack.head?, yieldsTo registry entry top = false) :
    WellStacked registry (read ++ [t]) (t :: stack) where
  kinds := by
    intro u hu
    rcases List.mem_cons.mp hu with rfl | hu
    · exact .inr (.inr ⟨entry, between⟩)
    · exact h.kinds u hu
  order := List.isChain_cons.mpr ⟨fun top htop =>
    mayLieOn_of_not_yieldsTo between (h.kinds top (List.mem_of_mem_head? htop)) (hold top htop),
    h.order⟩
  opened := by
    rw [parens_cons_of_ne (by simp [between.1])]
    exact h.opened.append
      (balanced_singleton (Token.rise_of_other (by simp [between.1]) (by simp [between.1])))

theorem wellStacked_nil : WellStacked registry [] [] := ⟨by simp, .nil, .nil balanced_nil⟩

/-- **Each move keeps the invariant.** -/
theorem Next.wellStacked {m m' : Moment} (h : Next registry m m')
    (hm : WellStacked registry m.read m.stack) (hending : m.ending = true →
      ∀ top ∈ m.stack.head?, top.kind = .function) :
    WellStacked registry m'.read m'.stack := by
  cases h with
  | write h =>
      rcases writtenAtOnce_iff.mp h with hkind | ⟨hkind, _⟩ <;>
        exact hm.read_other (by simp [hkind]) (by simp [hkind])
  | wait kind =>
      rcases kind with kind | kind
      · exact hm.call kind
      · exact hm.open' kind
  | yield between h => exact hm.pop (not_yieldsTo_leftParen h)
  | hold between h => exact hm.hold between h
  | uncover kind h => exact hm.pop h
  | separate kind open' => exact hm.read_other (by simp [kind]) (by simp [kind])
  | close kind open' plain => exact hm.close open' kind
  | closeCall kind open' call => exact hm.close open' kind
  | endCall =>
      have hcall := hending rfl _ rfl
      exact hm.pop (by simp [hcall])
  | flush h => exact hm.pop h

theorem Next.call {m m' : Moment} (h : Next registry m m') :
    m'.ending = true → ∀ top ∈ m'.stack.head?, top.kind = .function := by
  cases h <;> simp_all

theorem reaches_wellStacked {tokens : List Token} {m : Moment} (h : Reaches registry tokens m) :
    WellStacked registry m.read m.stack := by
  have hall : WellStacked registry m.read m.stack ∧
      (m.ending = true → ∀ top ∈ m.stack.head?, top.kind = .function) := by
    induction h with
    | refl => exact ⟨wellStacked_nil, by simp⟩
    | tail _ hnext ih => exact ⟨hnext.wellStacked ih.1 ih.2, hnext.call⟩
  exact hall.1

/-- **The stack at every moment of reordering.** The moves make up every run, whether it ends with a
result or fails; and whatever has been read, the stack holds only functions, opening parentheses and
operators that do not follow their operand, it is in order from top to bottom, and its parentheses
are those that are still open, the innermost first. -/
theorem stack_at_every_moment (registry : Registry) (tokens : List Token) :
    (∀ out, reorder registry tokens = .ok out ↔
      Reaches registry tokens ⟨tokens, [], out, [], false⟩) ∧
    (∀ fault, reorder registry tokens = .error fault ↔
      ∃ m, Reaches registry tokens m ∧ FailsAt registry m fault) ∧
    ∀ m, Reaches registry tokens m → m.read ++ m.unread = tokens ∧
      (∀ t ∈ m.stack, MayWait registry t) ∧ m.stack.IsChain (MayLieOn registry) ∧
      LeavesOpen m.read (parens m.stack) := by
  refine ⟨fun out => reorder_eq_ok_iff_reaches, fun fault => reorder_eq_error_iff_reaches,
    fun m hm => ?_⟩
  have hstack := reaches_wellStacked hm
  exact ⟨reaches_read_unread hm, hstack.kinds, hstack.order, hstack.opened⟩

/-- In the middle of `2^3^(…` a power waits on a power that it is not written out before, and the
parenthesis on both; the numbers have been written out. -/
theorem stack_at_every_moment_of_powers :
    Reaches .builtin
        [Token.number ['2'], Token.operator ['^'], Token.number ['3'], Token.operator ['^'],
          Token.leftParen]
        ⟨[Token.number ['2'], Token.operator ['^'], Token.number ['3'], Token.operator ['^'],
          Token.leftParen], [Token.leftParen, Token.operator ['^'], Token.operator ['^']],
          [Token.number ['2'], Token.number ['3']], [], false⟩ ∧
      [Token.leftParen, Token.operator ['^'], Token.operator ['^']].IsChain (MayLieOn .builtin) ∧
      LeavesOpen [Token.number ['2'], Token.operator ['^'], Token.number ['3'],
        Token.operator ['^'], Token.leftParen] [Token.leftParen] := by
  have power : Between .builtin (Token.operator ['^'])
      (.between ['^'] 4 (Operation.action .power) .right) := ⟨rfl, rfl, rfl⟩
  have hold : yieldsTo .builtin (.between ['^'] 4 (Operation.action .power) .right)
      (Token.operator ['^']) = false := rfl
  have hstart : Reaches .builtin [Token.number ['2'], Token.operator ['^'], Token.number ['3'],
      Token.operator ['^'], Token.leftParen] _ := .refl
  have hfirst := (hstart.tail (.write rfl)).tail (.hold power (by simp))
  have hsecond := (hfirst.tail (.write rfl)).tail (.hold power (by simpa using hold))
  have hreaches := hsecond.tail (.wait (.inr rfl))
  have hstack := (stack_at_every_moment .builtin _).2.2 _ hreaches
  exact ⟨hreaches, hstack.2.2.1, hstack.2.2.2⟩

end ReversePolish

end DecimalCalc
