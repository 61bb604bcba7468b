import DecimalCalc.Expression.ReversePolish
import DecimalCalc.Proofs.Outcome
import Mathlib.Algebra.BigOperators.Group.List.Basic
import Mathlib.Algebra.Ring.Int.Defs
import Mathlib.Data.List.TakeWhile

/-!
# How reordering proceeds

`ReversePolish.reorder` reads the tokens one at a time. `advance` is what some tokens write out and
the stack that they leave, so that a row of tokens can be cut anywhere (`advance_append`). One
equation for each kind of token says what a step does. They name the part of the stack above the
innermost open parenthesis, which is all that a step looks at. Whatever the token, a step only
moves tokens from the top of the stack to what is written out (`move_of_step`).
-/

set_option autoImplicit false

namespace DecimalCalc

variable {registry : Registry}

theorem Registry.lookup_eq_ok {symbol : List Char} {entry : Entry} :
    registry.lookup symbol = .ok entry ↔ registry.find? symbol = some entry := by
  rw [lookup]
  cases registry.find? symbol <;> simp

/-- What is looked up is listed under its symbol. -/
theorem Registry.mem_of_lookup {symbol : List Char} {entry : Entry}
    (h : registry.lookup symbol = .ok entry) :
    entry ∈ registry.entries ∧ entry.symbol = symbol := by
  have hfind := lookup_eq_ok.mp h
  exact ⟨List.mem_of_find?_eq_some hfind, by simpa using List.find?_some hfind⟩

namespace ReversePolish

/-- What some tokens write out, and the stack that they leave. -/
def advance (registry : Registry) (stack : List Token) :
    List Token → Except Fault (List Token × List Token)
  | [] => .ok ([], stack)
  | token :: rest =>
    (step registry stack token).bind fun (written, stack) =>
      (advance registry stack rest).map fun (more, stack) => (written ++ more, stack)

theorem advance_nil (stack : List Token) : advance registry stack [] = .ok ([], stack) := rfl

theorem advance_append (ts us : List Token) : ∀ stack : List Token,
    advance registry stack (ts ++ us) = (advance registry stack ts).bind fun (written, stack) =>
      (advance registry stack us).map fun (more, stack) => (written ++ more, stack) := by
  induction ts with
  | nil =>
      intro stack
      show advance registry stack us = (advance registry stack us).map _
      cases advance registry stack us <;> rfl
  | cons t ts ih =>
      intro stack
      rw [List.cons_append, advance, advance, Except.bind_assoc]
      refine congrArg _ (funext fun result => ?_)
      obtain ⟨written, next⟩ := result
      show (advance registry next (ts ++ us)).map _ = ((advance registry next ts).map _).bind _
      rw [ih, Except.map_bind, Except.bind_map]
      refine congrArg _ (funext fun result => ?_)
      obtain ⟨more, last⟩ := result
      show ((advance registry last us).map _).map _ = (advance registry last us).map _
      simp only [Except.map_map, List.append_assoc]

theorem advance_cons {stack stack' written : List Token} {token : Token}
    (h : step registry stack token = .ok (written, stack')) (rest : List Token) :
    advance registry stack (token :: rest) = (advance registry stack' rest).map
      fun (more, stack) => (written ++ more, stack) := by
  rw [advance, h]
  rfl

/-- A row of tokens is read by a step and the rest. -/
theorem advance_cons_inv {stack last out rest : List Token} {token : Token}
    (h : advance registry stack (token :: rest) = .ok (out, last)) :
    ∃ written middle more, step registry stack token = .ok (written, middle) ∧
      advance registry middle rest = .ok (more, last) ∧ out = written ++ more := by
  rw [advance] at h
  obtain ⟨⟨written, middle⟩, hstep, hmap⟩ := Except.bind_eq_ok.mp h
  obtain ⟨⟨more, last'⟩, hrest, heq⟩ := Except.map_eq_ok.mp hmap
  obtain ⟨rfl, rfl⟩ := Prod.mk.inj heq
  exact ⟨written, middle, more, hstep, hrest, rfl⟩

/-- A row of tokens is read by its last step and what comes before. -/
theorem advance_concat_inv {stack last out ts : List Token} {t : Token}
    (h : advance registry stack (ts ++ [t]) = .ok (out, last)) :
    ∃ before middle written, advance registry stack ts = .ok (before, middle) ∧
      step registry middle t = .ok (written, last) ∧ out = before ++ written := by
  rw [advance_append] at h
  obtain ⟨⟨before, middle⟩, hts, hmap⟩ := Except.bind_eq_ok.mp h
  obtain ⟨⟨out', last'⟩, ht, heq⟩ := Except.map_eq_ok.mp hmap
  obtain ⟨rfl, rfl⟩ := Prod.mk.inj heq
  obtain ⟨written, middle', more, hstep, hnil, rfl⟩ := advance_cons_inv ht
  obtain ⟨rfl, rfl⟩ := Prod.mk.inj (Except.ok.inj hnil)
  exact ⟨before, middle, written, hts, hstep, by rw [List.append_nil]⟩

/-- Two rows of tokens that are read in turn. -/
theorem advance_append_of_ok {stack middle last before after ts us : List Token}
    (hts : advance registry stack ts = .ok (before, middle))
    (hus : advance registry middle us = .ok (after, last)) :
    advance registry stack (ts ++ us) = .ok (before ++ after, last) := by
  rw [advance_append, hts]
  show (advance registry middle us).map _ = _
  rw [hus]
  rfl

theorem advance_cons_of_ok {stack middle last before after us : List Token} {token : Token}
    (htoken : step registry stack token = .ok (before, middle))
    (hus : advance registry middle us = .ok (after, last)) :
    advance registry stack (token :: us) = .ok (before ++ after, last) := by
  rw [advance_cons htoken, hus]
  rfl

theorem reorderFrom_cons (stack : List Token) (token : Token) (rest : List Token) :
    reorderFrom registry stack (token :: rest) = (step registry stack token).bind
      fun (written, stack) => (reorderFrom registry stack rest).map (written ++ ·) := by
  rw [reorderFrom]
  cases step registry stack token with
  | error fault => rfl
  | ok result =>
      obtain ⟨written, next⟩ := result
      show (reorderFrom registry next rest).bind _ = (reorderFrom registry next rest).map _
      cases reorderFrom registry next rest <;> rfl

/-- Reordering writes out what the tokens do, then what still waits. -/
theorem reorderFrom_eq (tokens : List Token) : ∀ stack : List Token,
    reorderFrom registry stack tokens = (advance registry stack tokens).bind
      fun (written, stack) => (finish stack).map (written ++ ·) := by
  induction tokens with
  | nil =>
      intro stack
      show finish stack = (finish stack).map _
      cases finish stack <;> rfl
  | cons token tokens ih =>
      intro stack
      rw [reorderFrom_cons, advance, Except.bind_assoc]
      refine congrArg _ (funext fun result => ?_)
      obtain ⟨written, next⟩ := result
      show (reorderFrom registry next tokens).map _ = ((advance registry next tokens).map _).bind _
      rw [ih, Except.map_bind, Except.bind_map]
      simp only [Except.map_map, List.append_assoc]

/-! ## The innermost open parenthesis -/

/-- No token of a row opens a parenthesis. -/
def Unopened (tokens : List Token) : Prop := ∀ t ∈ tokens, t.kind ≠ .leftParen

theorem aboveParen_append {above : List Token} (h : Unopened above) (stack : List Token) :
    aboveParen (above ++ Token.leftParen :: stack) = above := by
  rw [aboveParen, List.takeWhile_append_of_pos fun t ht => by simpa using h t ht]
  simp [Token.leftParen]

theorem fromParen_append {above : List Token} (h : Unopened above) (stack : List Token) :
    fromParen (above ++ Token.leftParen :: stack) = Token.leftParen :: stack := by
  rw [fromParen, List.dropWhile_append_of_pos fun t ht => by simpa using h t ht]
  simp [Token.leftParen]

theorem aboveParen_cons_self {paren : Token} (h : paren.kind = .leftParen) (stack : List Token) :
    aboveParen (paren :: stack) = [] :=
  List.takeWhile_cons_of_neg (by simp [h])

theorem fromParen_cons_self {paren : Token} (h : paren.kind = .leftParen) (stack : List Token) :
    fromParen (paren :: stack) = paren :: stack :=
  List.dropWhile_cons_of_neg (by simp [h])

/-- At the end all that waits is written out, if it opens no parenthesis. -/
theorem finish_eq_ok {stack out : List Token} :
    finish stack = .ok out ↔ Unopened stack ∧ stack = out := by
  have hnone : stack.find? (·.kind == .leftParen) = none ↔ Unopened stack := by
    simp [Unopened, List.find?_eq_none]
  rw [← hnone, finish]
  cases stack.find? (·.kind == .leftParen) <;> simp

theorem finish_of_unopened {stack : List Token} (h : Unopened stack) : finish stack = .ok stack :=
  finish_eq_ok.mpr ⟨h, rfl⟩

/-- A row that has been read ends with what still waits. -/
theorem reorder_of_advance {tokens written waiting : List Token}
    (h : advance registry [] tokens = .ok (written, waiting)) :
    reorder registry tokens = (finish waiting).map (written ++ ·) := by
  rw [reorder, reorderFrom_eq, h]
  rfl

/-- Reordering cut in two. -/
theorem reorderFrom_append {stack middle written ts : List Token}
    (h : advance registry stack ts = .ok (written, middle)) (us : List Token) :
    reorderFrom registry stack (ts ++ us) =
      (reorderFrom registry middle us).map (written ++ ·) := by
  rw [reorderFrom_eq, reorderFrom_eq, advance_append, h]
  show ((advance registry middle us).map _).bind _ = ((advance registry middle us).bind _).map _
  rw [Except.bind_map, Except.map_bind]
  simp only [Except.map_map, List.append_assoc]

theorem reorder_inv {tokens out : List Token} (h : reorder registry tokens = .ok out) :
    ∃ written waiting, advance registry [] tokens = .ok (written, waiting) ∧ Unopened waiting ∧
      out = written ++ waiting := by
  rw [reorder, reorderFrom_eq] at h
  obtain ⟨⟨written, waiting⟩, hread, hmap⟩ := Except.bind_eq_ok.mp h
  obtain ⟨rest, hfinish, rfl⟩ := Except.map_eq_ok.mp hmap
  obtain ⟨hunopened, rfl⟩ := finish_eq_ok.mp hfinish
  exact ⟨written, waiting, hread, hunopened, rfl⟩

/-! ## One step

A step looks its token up by its kind: these equations are all that is used of it. -/

/-- The function whose arguments a group is, if one waits on top of the stack. -/
def called : List Token → List Token
  | [] => []
  | t :: _ => if t.kind = .function then [t] else []

/-- What waits below that function. -/
def belowCall : List Token → List Token
  | [] => []
  | t :: stack => if t.kind = .function then stack else t :: stack

theorem called_of_plain {stack : List Token} (h : ∀ t ∈ stack.head?, t.kind ≠ .function) :
    called stack = [] ∧ belowCall stack = stack := by
  cases stack with
  | nil => exact ⟨rfl, rfl⟩
  | cons t stack => exact ⟨if_neg (h t rfl), if_neg (h t rfl)⟩

theorem called_of_function {t : Token} (h : t.kind = .function) (stack : List Token) :
    called (t :: stack) = [t] ∧ belowCall (t :: stack) = stack :=
  ⟨if_pos h, if_pos h⟩

theorem called_cases (stack : List Token) : (called stack = [] ∧ belowCall stack = stack) ∨
    ∃ t rest, t.kind = .function ∧ stack = t :: rest := by
  cases stack with
  | nil => exact .inl ⟨rfl, rfl⟩
  | cons t rest =>
      by_cases hcall : t.kind = .function
      · exact .inr ⟨t, rest, hcall, rfl⟩
      · exact .inl (called_of_plain (by simpa using hcall))

section Kinds

variable {t paren : Token} {entry : Entry} {below : List Token}

theorem step_of_number (hkind : t.kind = .number) (stack : List Token) :
    step registry stack t = .ok ([t], stack) := by
  rw [step, hkind]

theorem step_of_waits (hkind : t.kind = .function ∨ t.kind = .leftParen) (stack : List Token) :
    step registry stack t = .ok ([], t :: stack) := by
  rcases hkind with hkind | hkind <;> rw [step, hkind]

/-- **An operator is looked up.** After its operand it is written out at once; else it waits, and
what yields to it is written out. -/
theorem step_of_operator (hkind : t.kind = .operator) (stack : List Token) :
    step registry stack t = (registry.lookup t.text).map fun entry =>
      if entry.isAfter then ([t], stack)
      else (stack.takeWhile (yieldsTo registry entry),
        t :: stack.dropWhile (yieldsTo registry entry)) := by
  rw [step, hkind]
  cases registry.lookup t.text with
  | error fault => rfl
  | ok entry =>
      show (if entry.isAfter then pure _ else pure _) = Except.ok (if entry.isAfter then _ else _)
      split <;> rfl

theorem step_of_unlisted (hkind : t.kind = .operator) (unlisted : registry.find? t.text = none)
    (stack : List Token) : step registry stack t = .error (.unknownSymbol t.text) := by
  rw [step_of_operator hkind, Registry.lookup, unlisted]
  rfl

theorem step_of_after (hkind : t.kind = .operator) (listed : registry.find? t.text = some entry)
    (hafter : entry.isAfter = true) (stack : List Token) :
    step registry stack t = .ok ([t], stack) := by
  rw [step_of_operator hkind, Registry.lookup_eq_ok.mpr listed]
  exact congrArg Except.ok (if_pos hafter)

theorem step_of_not_after (hkind : t.kind = .operator)
    (listed : registry.find? t.text = some entry) (hafter : entry.isAfter = false)
    (stack : List Token) :
    step registry stack t = .ok (stack.takeWhile (yieldsTo registry entry),
      t :: stack.dropWhile (yieldsTo registry entry)) := by
  rw [step_of_operator hkind, Registry.lookup_eq_ok.mpr listed]
  exact congrArg Except.ok (if_neg (by simp [hafter]))

theorem step_of_unmatched {stack : List Token} (hkind : t.kind = .rightParen)
    (h : fromParen stack = []) : step registry stack t = .error (.mismatchedParentheses t) := by
  rw [step, hkind]
  simp only [h]

/-- **A closing parenthesis** writes out what waits above its partner, and the function in front. -/
theorem step_of_rightParen {stack : List Token} (hkind : t.kind = .rightParen)
    (h : fromParen stack = paren :: below) :
    step registry stack t = .ok (aboveParen stack ++ called below, belowCall below) := by
  rw [step, hkind]
  simp only [h]
  cases below with
  | nil => rw [called, belowCall, List.append_nil]
  | cons next rest =>
      show (if next.kind = .function then _ else _) = _
      split
      · next hcall => rw [(called_of_function hcall rest).1, (called_of_function hcall rest).2]
      · next hcall =>
          have hplain : ∀ u ∈ (next :: rest).head?, u.kind ≠ .function := by simpa using hcall
          obtain ⟨hnone, hsame⟩ := called_of_plain hplain
          rw [hnone, hsame, List.append_nil]

theorem step_of_misplaced {stack : List Token} (hkind : t.kind = .separator)
    (h : fromParen stack = []) : step registry stack t = .error (.misplacedSeparator t) := by
  rw [step, hkind]
  simp only [h]

/-- **A separator** writes out what waits above the open parenthesis. -/
theorem step_of_separator {stack : List Token} (hkind : t.kind = .separator)
    (h : fromParen stack = paren :: below) :
    step registry stack t = .ok (aboveParen stack, paren :: below) := by
  rw [step, hkind]
  simp only [h]

theorem step_of_unexpected
    (hkind : t.kind = .reference ∨ t.kind = .constant ∨ t.kind = .string) (stack : List Token) :
    step registry stack t = .error (.unexpectedToken t) := by
  rcases hkind with hkind | hkind | hkind <;> rw [step, hkind]

/-- Closing parentheses and separators write out what waits, one token after the other. -/
theorem step_of_uncover {top : Token} (kind : t.kind = .rightParen ∨ t.kind = .separator)
    (h : top.kind ≠ .leftParen) (stack : List Token) :
    step registry (top :: stack) t =
      (step registry stack t).map fun (out, stack') => (top :: out, stack') := by
  have hstop : (top.kind != .leftParen) = true := by simpa using h
  have hfrom : fromParen (top :: stack) = fromParen stack := List.dropWhile_cons_of_pos hstop
  have habove : aboveParen (top :: stack) = top :: aboveParen stack :=
    List.takeWhile_cons_of_pos hstop
  cases hstack : fromParen stack with
  | nil =>
      rcases kind with kind | kind
      · rw [step_of_unmatched kind (hfrom.trans hstack), step_of_unmatched kind hstack]
        rfl
      · rw [step_of_misplaced kind (hfrom.trans hstack), step_of_misplaced kind hstack]
        rfl
  | cons paren below =>
      rcases kind with kind | kind
      · rw [step_of_rightParen kind (hfrom.trans hstack), step_of_rightParen kind hstack, habove]
        rfl
      · rw [step_of_separator kind (hfrom.trans hstack), step_of_separator kind hstack, habove]
        rfl

end Kinds

theorem step_number (stack : List Token) (text : List Char) :
    step registry stack (Token.number text) = .ok ([Token.number text], stack) := rfl

theorem step_function (stack : List Token) (symbol : List Char) :
    step registry stack (Token.function symbol) = .ok ([], Token.function symbol :: stack) := rfl

theorem step_leftParen (stack : List Token) :
    step registry stack Token.leftParen = .ok ([], Token.leftParen :: stack) := rfl

/-- An operator after its operand is written out at once. -/
theorem step_after {symbol : List Char} {entry : Entry}
    (listed : registry.find? symbol = some entry) (fixity : entry.fixity = .after)
    (stack : List Token) :
    step registry stack (Token.operator symbol) = .ok ([Token.operator symbol], stack) :=
  step_of_after rfl listed (by simp [Entry.isAfter, fixity]) stack

/-- An operator between operands writes out what yields to it. -/
theorem step_between_eq {symbol : List Char} {entry : Entry}
    (listed : registry.find? symbol = some entry) (fixity : entry.fixity = .between)
    (stack : List Token) :
    step registry stack (Token.operator symbol) = .ok (stack.takeWhile (yieldsTo registry entry),
      Token.operator symbol :: stack.dropWhile (yieldsTo registry entry)) :=
  step_of_not_after rfl listed (by simp [Entry.isAfter, fixity]) stack

theorem dropWhile_of_takeWhile {P : Token → Bool} {stack : List Token}
    (h : stack.takeWhile P = []) : stack.dropWhile P = stack := by
  have hsplit : stack.takeWhile P ++ stack.dropWhile P = stack := List.takeWhile_append_dropWhile
  rwa [h] at hsplit

/-- An operator between operands. What yields to it is `above`. -/
theorem step_between {symbol : List Char} {entry : Entry} {above stack : List Token}
    (listed : registry.find? symbol = some entry) (fixity : entry.fixity = .between)
    (yield : ∀ t ∈ above, yieldsTo registry entry t = true)
    (hold : ∀ t ∈ stack.head?, yieldsTo registry entry t = false) :
    step registry (above ++ stack) (Token.operator symbol) =
      .ok (above, Token.operator symbol :: stack) := by
  have htake : stack.takeWhile (yieldsTo registry entry) = [] := by
    cases stack with
    | nil => rfl
    | cons t stack => rw [List.takeWhile_cons_of_neg (by simp [hold t (by simp)])]
  rw [step_between_eq listed fixity, List.takeWhile_append_of_pos yield,
    List.dropWhile_append_of_pos yield, htake, dropWhile_of_takeWhile htake, List.append_nil]

/-- A separator writes out what waits above the open parenthesis. -/
theorem step_separator {above : List Token} (h : Unopened above) (stack : List Token) :
    step registry (above ++ Token.leftParen :: stack) Token.separator =
      .ok (above, Token.leftParen :: stack) := by
  rw [step_of_separator rfl (fromParen_append h stack), aboveParen_append h]

/-- A closing parenthesis writes out what waits above its partner, and the function in front. -/
theorem step_rightParen_group {above : List Token} (h : Unopened above) (stack : List Token) :
    step registry (above ++ Token.leftParen :: stack) Token.rightParen =
      .ok (above ++ called stack, belowCall stack) := by
  rw [step_of_rightParen rfl (fromParen_append h stack), aboveParen_append h]

/-- A closing parenthesis that opened no arguments of a function. -/
theorem step_rightParen {above stack : List Token} (h : Unopened above)
    (hplain : ∀ t ∈ stack.head?, t.kind ≠ .function) :
    step registry (above ++ Token.leftParen :: stack) Token.rightParen = .ok (above, stack) := by
  obtain ⟨hnone, hsame⟩ := called_of_plain hplain
  rw [step_rightParen_group h, hnone, hsame, List.append_nil]

/-- A closing parenthesis that ends the arguments of a function. -/
theorem step_rightParen_function {above : List Token} (h : Unopened above) (symbol : List Char)
    (stack : List Token) :
    step registry (above ++ Token.leftParen :: Token.function symbol :: stack) Token.rightParen =
      .ok (above ++ [Token.function symbol], stack) :=
  step_rightParen_group h (Token.function symbol :: stack)

/-! ## All that a step can do -/

/-- What waits is cut at the innermost open parenthesis. -/
theorem fromParen_eq {stack below : List Token} {paren : Token}
    (h : fromParen stack = paren :: below) :
    paren.kind = .leftParen ∧ stack = aboveParen stack ++ paren :: below := by
  have hhead := List.head?_dropWhile_not (fun t : Token => t.kind != .leftParen) stack
  rw [show stack.dropWhile (fun t => t.kind != .leftParen) = paren :: below from h] at hhead
  refine ⟨by simpa using hhead, ?_⟩
  rw [← h]
  exact List.takeWhile_append_dropWhile.symm

theorem unopened_aboveParen (stack : List Token) : Unopened (aboveParen stack) := by
  intro t ht
  simpa using List.mem_takeWhile_imp ht

/-- The moves between what waits and what is written out. The token that opened a parenthesis is the
only one that is ever dropped, with the one that closes it. -/
inductive Move (stack : List Token) (token : Token) : List Token → List Token → Prop
  | write (kind : token.kind = .number ∨ token.kind = .operator) : Move stack token [token] stack
  | wait (kind : token.kind = .function ∨ token.kind = .leftParen) :
      Move stack token [] (token :: stack)
  | yield {above below : List Token} (kind : token.kind = .operator) (eq : stack = above ++ below)
      (unopened : Unopened above) : Move stack token above (token :: below)
  | close {above below : List Token} {paren : Token} (kind : token.kind = .rightParen)
      (open' : paren.kind = .leftParen) (eq : stack = above ++ paren :: below)
      (unopened : Unopened above) : Move stack token above below
  | closeCall {above below : List Token} {paren function : Token} (kind : token.kind = .rightParen)
      (open' : paren.kind = .leftParen) (call : function.kind = .function)
      (eq : stack = above ++ paren :: function :: below) (unopened : Unopened above) :
      Move stack token (above ++ [function]) below
  | separate {above below : List Token} {paren : Token} (kind : token.kind = .separator)
      (open' : paren.kind = .leftParen) (eq : stack = above ++ paren :: below)
      (unopened : Unopened above) : Move stack token above (paren :: below)

theorem not_yieldsTo_leftParen {entry : Entry} {t : Token}
    (h : yieldsTo registry entry t = true) : t.kind ≠ .leftParen := by
  intro hkind
  simp [yieldsTo, hkind] at h

section

variable {stack written stack' : List Token} {token : Token}

theorem move_of_operator (hkind : token.kind = .operator)
    (h : step registry stack token = .ok (written, stack')) : Move stack token written stack' := by
  rw [step_of_operator hkind] at h
  obtain ⟨entry, _, h⟩ := Except.map_eq_ok.mp h
  split at h
  · obtain ⟨rfl, rfl⟩ := Prod.mk.inj h
    exact .write (.inr hkind)
  · obtain ⟨rfl, rfl⟩ := Prod.mk.inj h
    exact .yield hkind List.takeWhile_append_dropWhile.symm fun t ht =>
      not_yieldsTo_leftParen (List.mem_takeWhile_imp ht)

theorem move_of_rightParen (hkind : token.kind = .rightParen)
    (h : step registry stack token = .ok (written, stack')) : Move stack token written stack' := by
  cases hfrom : fromParen stack with
  | nil =>
      rw [step_of_unmatched hkind hfrom] at h
      cases h
  | cons paren below =>
      rw [step_of_rightParen hkind hfrom] at h
      obtain ⟨rfl, rfl⟩ := Prod.mk.inj (Except.ok.inj h)
      obtain ⟨hopen, heq⟩ := fromParen_eq hfrom
      have habove := unopened_aboveParen stack
      -- the token below the parenthesis decides whether a call ends here
      rcases called_cases below with ⟨hnone, hsame⟩ | ⟨function, rest, hcall, rfl⟩
      · rw [hnone, hsame, List.append_nil]
        exact .close hkind hopen heq habove
      · rw [(called_of_function hcall rest).1, (called_of_function hcall rest).2]
        exact .closeCall hkind hopen hcall heq habove

theorem move_of_separator (hkind : token.kind = .separator)
    (h : step registry stack token = .ok (written, stack')) : Move stack token written stack' := by
  cases hfrom : fromParen stack with
  | nil =>
      rw [step_of_misplaced hkind hfrom] at h
      cases h
  | cons paren below =>
      rw [step_of_separator hkind hfrom] at h
      obtain ⟨rfl, rfl⟩ := Prod.mk.inj (Except.ok.inj h)
      obtain ⟨hopen, heq⟩ := fromParen_eq hfrom
      exact .separate hkind hopen heq (unopened_aboveParen stack)

/-- **A step makes one of the moves.** -/
theorem move_of_step (h : step registry stack token = .ok (written, stack')) :
    Move stack token written stack' := by
  cases hkind : token.kind with
  | number =>
      rw [step_of_number hkind] at h
      obtain ⟨rfl, rfl⟩ := Prod.mk.inj (Except.ok.inj h)
      exact .write (.inl hkind)
  | function | leftParen =>
      have hwaits : token.kind = .function ∨ token.kind = .leftParen := by simp [hkind]
      rw [step_of_waits hwaits] at h
      obtain ⟨rfl, rfl⟩ := Prod.mk.inj (Except.ok.inj h)
      exact .wait hwaits
  | operator => exact move_of_operator hkind h
  | rightParen => exact move_of_rightParen hkind h
  | separator => exact move_of_separator hkind h
  | reference | constant | string =>
      rw [step_of_unexpected (by simp [hkind])] at h
      cases h

end

/-! ## What reordering keeps -/

/-- **What a step writes out and leaves adds up to what it found**, in any measure in which
parentheses and separators count for nothing. -/
theorem Move.sum_eq {m : Token → Int}
    (hm : ∀ t : Token, t.kind = .leftParen ∨ t.kind = .rightParen ∨ t.kind = .separator → m t = 0)
    {stack written stack' : List Token} {t : Token} (h : Move stack t written stack') :
    (written.map m).sum + (stack'.map m).sum = (stack.map m).sum + m t := by
  cases h with
  | write _ =>
      simp only [List.map_cons, List.map_nil, List.sum_cons, List.sum_nil]
      omega
  | wait _ =>
      simp only [List.map_cons, List.map_nil, List.sum_cons, List.sum_nil]
      omega
  | yield _ heq _ =>
      simp only [heq, List.map_append, List.sum_append, List.map_cons, List.sum_cons]
      omega
  | close kind open' heq _ =>
      simp only [heq, List.map_append, List.sum_append, List.map_cons, List.sum_cons,
        hm _ (.inl open'), hm _ (.inr (.inl kind))]
      omega
  | closeCall kind open' _ heq _ =>
      simp only [heq, List.map_append, List.sum_append, List.map_cons, List.sum_cons, List.map_nil,
        List.sum_nil, hm _ (.inl open'), hm _ (.inr (.inl kind))]
      omega
  | separate kind open' heq _ =>
      simp only [heq, List.map_append, List.sum_append, hm _ (.inr (.inr kind))]
      omega

theorem advance_sum {m : Token → Int}
    (hm : ∀ t : Token, t.kind = .leftParen ∨ t.kind = .rightParen ∨ t.kind = .separator → m t = 0)
    (tokens : List Token) : ∀ {stack written stack' : List Token},
      advance registry stack tokens = .ok (written, stack') →
        (written.map m).sum + (stack'.map m).sum = (stack.map m).sum + (tokens.map m).sum := by
  induction tokens with
  | nil =>
      intro stack written stack' h
      obtain ⟨rfl, rfl⟩ := Prod.mk.inj (Except.ok.inj h)
      simp
  | cons t tokens ih =>
      intro stack written stack' h
      obtain ⟨out, middle, more, hstep, hrest, rfl⟩ := advance_cons_inv h
      have hmove := (move_of_step hstep).sum_eq hm
      have hmore := ih hrest
      rw [List.map_append, List.sum_append, List.map_cons, List.sum_cons]
      omega

/-- A number is never dropped. -/
theorem mem_of_advance (tokens : List Token) {u : Token} (hkind : u.kind = .number)
    {stack written stack' : List Token}
    (h : advance registry stack tokens = .ok (written, stack')) (hu : u ∈ tokens ++ stack) :
    u ∈ written ++ stack' := by
  -- how often the number stands in a row is a measure that parentheses and separators leave alone
  have hcount : ∀ l : List Token, (l.map fun t => if t = u then (1 : Int) else 0).sum =
      l.count u := by
    intro l
    induction l with
    | nil => rfl
    | cons t l ih =>
        rw [List.map_cons, List.sum_cons, ih, List.count_cons]
        by_cases ht : t = u <;> simp [ht, add_comm]
  have hsum := advance_sum (m := fun t => if t = u then 1 else 0) (fun t ht => if_neg fun heq => by
    rw [heq, hkind] at ht
    simp at ht) tokens h
  simp only [hcount] at hsum
  have hpos : 0 < (tokens ++ stack).count u := List.count_pos_iff.mpr hu
  rw [List.count_append] at hpos
  refine List.count_pos_iff.mp ?_
  rw [List.count_append]
  omega

theorem Move.subset {stack written stack' : List Token} {token : Token}
    (h : Move stack token written stack') : ∀ t ∈ written ++ stack', t ∈ token :: stack := by
  intro t ht
  cases h with
  | write => simpa using ht
  | wait => simpa using ht
  | yield _ eq => subst eq; simp only [List.mem_append, List.mem_cons] at ht ⊢; tauto
  | close _ _ eq => subst eq; simp only [List.mem_append, List.mem_cons] at ht ⊢; tauto
  | closeCall _ _ _ eq =>
      subst eq
      simp only [List.mem_append, List.mem_cons, List.not_mem_nil, or_false] at ht ⊢
      tauto
  | separate _ _ eq => subst eq; simp only [List.mem_append, List.mem_cons] at ht ⊢; tauto

theorem advance_subset (tokens : List Token) : ∀ {stack written stack' : List Token},
    advance registry stack tokens = .ok (written, stack') →
      ∀ t ∈ written ++ stack', t ∈ tokens ++ stack := by
  induction tokens with
  | nil =>
      intro stack written stack' h
      obtain ⟨rfl, rfl⟩ := Prod.mk.inj (Except.ok.inj h)
      exact fun t ht => ht
  | cons token rest ih =>
      intro stack written stack' h t ht
      obtain ⟨first, middle, more, hstep, hrest, rfl⟩ := advance_cons_inv h
      have hfirst := (move_of_step hstep).subset
      have hmore := ih hrest
      simp only [List.mem_append, List.mem_cons] at ht hfirst hmore ⊢
      rcases ht with (ht | ht) | ht
      · rcases hfirst t (.inl ht) with h | h
        · exact .inl (.inl h)
        · exact .inr h
      -- the rest writes out, or leaves, what it read or what the step left to it
      all_goals
        rcases hmore t (by tauto) with h | h
        · exact .inl (.inr h)
        · rcases hfirst t (.inr h) with h | h
          · exact .inl (.inl h)
          · exact .inr h

theorem reorder_subset {tokens out : List Token} (h : reorder registry tokens = .ok out) :
    ∀ t ∈ out, t ∈ tokens := by
  obtain ⟨written, waiting, hadvance, -, rfl⟩ := reorder_inv h
  intro t ht
  simpa using advance_subset tokens hadvance t ht

end ReversePolish

end DecimalCalc
