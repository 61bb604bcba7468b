import DecimalCalc.Expression.TokenList
import Mathlib.Algebra.BigOperators.Group.List.Basic
import Mathlib.Algebra.Ring.Int.Defs

/-!
# The infix grammar

Which rows of tokens are well-formed expressions (`Derives`). Reordering and the stack machine never
look at this grammar; all that the machine sees is how many operands there are. The weight of a row
is that number: an operand weighs one, and a symbol one less its arity. `NoSurplus` reads a row from
left to right and refuses an operand that starts directly after another one, and an argument more
than its parenthesis may hold.
-/

set_option autoImplicit false

namespace DecimalCalc

namespace Token

/-- An operand that is a token of its own. -/
def isAtom (t : Token) : Bool :=
  match t.kind with
  | .number | .constant | .reference => true
  | _ => false

theorem isAtom_of_number {t : Token} (h : t.kind = .number) : t.isAtom = true := by
  simp [isAtom, h]

theorem kind_ne_of_isAtom {t : Token} (atom : t.isAtom = true) : t.kind ≠ .operator := by
  intro hkind
  simp [isAtom, hkind] at atom

theorem expectsOperand_atom {t : Token} (atom : t.isAtom = true) :
    expectsOperand (some t) = false := by
  cases hkind : t.kind <;> simp [isAtom, hkind] at atom <;> simp [expectsOperand, hkind]

theorem expectsOperand_operator {symbol : List Char} (h : symbol ≠ factorialSymbol) :
    expectsOperand (some (operator symbol)) = true := by
  simp [expectsOperand, operator, h]

/-- Where an operand has just ended, none is expected. -/
theorem expectsOperand_of_any {last : Option Token} (h : last.any endsOperand = true) :
    expectsOperand last = false := by
  cases last with
  | none => cases h
  | some t => cases hkind : t.kind <;> simp_all [endsOperand, expectsOperand]

end Token

namespace Grammar

variable {registry : Registry}

/-! ## Well-formed expressions -/

/-- What a row of tokens may be. -/
inductive Phrase
  | operand
  | expression
  /-- So many expressions with separators between them. -/
  | arguments (count : Nat)

/-- **The infix grammar.** An operator between operands stands between two of them or is called like
a function, an operator after its operand follows one, separators stand between the arguments of a
call, and a function has either as many arguments as its arity, in parentheses of its own, or just
the operand that follows, if its arity is one. -/
inductive Derives (registry : Registry) : Phrase → List Token → Prop
  | atom {t : Token} (atom : t.isAtom = true) : Derives registry .operand [t]
  | group {e : List Token} (inner : Derives registry .expression e) :
      Derives registry .operand (Token.leftParen :: (e ++ [Token.rightParen]))
  | call {symbol : List Char} {entry : Entry} {args : List Token}
      (listed : registry.find? symbol = some entry) (fixity : entry.fixity = .before)
      (arguments : Derives registry (.arguments entry.arity) args) :
      Derives registry .operand
        (Token.function symbol :: Token.leftParen :: (args ++ [Token.rightParen]))
  | operatorCall {symbol : List Char} {entry : Entry} {args : List Token}
      (listed : registry.find? symbol = some entry) (fixity : entry.fixity = .between)
      (arguments : Derives registry (.arguments entry.arity) args) :
      Derives registry .operand
        (Token.operator symbol :: Token.leftParen :: (args ++ [Token.rightParen]))
  | apply {symbol : List Char} {entry : Entry} {o : List Token}
      (listed : registry.find? symbol = some entry) (fixity : entry.fixity = .before)
      (arity : entry.arity = 1) (operand : Derives registry .operand o) :
      Derives registry .operand (Token.function symbol :: o)
  | after {symbol : List Char} {entry : Entry} {o : List Token}
      (operand : Derives registry .operand o) (listed : registry.find? symbol = some entry)
      (fixity : entry.fixity = .after) : Derives registry .operand (o ++ [Token.operator symbol])
  | single {o : List Token} (operand : Derives registry .operand o) :
      Derives registry .expression o
  | between {symbol : List Char} {entry : Entry} {l r : List Token}
      (left : Derives registry .operand l) (listed : registry.find? symbol = some entry)
      (fixity : entry.fixity = .between) (right : Derives registry .expression r) :
      Derives registry .expression (l ++ Token.operator symbol :: r)
  | one {e : List Token} (argument : Derives registry .expression e) :
      Derives registry (.arguments 1) e
  | more {n : Nat} {e args : List Token} (argument : Derives registry .expression e)
      (rest : Derives registry (.arguments (n + 1)) args) :
      Derives registry (.arguments (n + 2)) (e ++ Token.separator :: args)

/-! ### Adding to an expression at its ends -/

theorem Derives.append_after {symbol : List Char} {entry : Entry} {e : List Token}
    (listed : registry.find? symbol = some entry) (fixity : entry.fixity = .after)
    (he : Derives registry .expression e) :
    Derives registry .expression (e ++ [Token.operator symbol]) := by
  generalize hphrase : Phrase.expression = phrase at he
  -- the operator belongs to the last operand of the expression
  induction he with
  | single operand => exact .single (.after operand listed fixity)
  | between left listed' fixity' right _ ih =>
      rw [List.append_assoc, List.cons_append]
      exact .between left listed' fixity' (ih rfl)
  | _ => cases hphrase

theorem Derives.append_between {symbol : List Char} {entry : Entry} {e r : List Token}
    (he : Derives registry .expression e) (listed : registry.find? symbol = some entry)
    (fixity : entry.fixity = .between) (hr : Derives registry .expression r) :
    Derives registry .expression (e ++ Token.operator symbol :: r) := by
  generalize hphrase : Phrase.expression = phrase at he
  induction he with
  | single operand => exact .between operand listed fixity hr
  | between left listed' fixity' right _ ih =>
      rw [List.append_assoc, List.cons_append]
      exact .between left listed' fixity' (ih rfl)
  | _ => cases hphrase

theorem Derives.cons_function {symbol : List Char} {entry : Entry} {e : List Token}
    (listed : registry.find? symbol = some entry) (fixity : entry.fixity = .before)
    (arity : entry.arity = 1) (he : Derives registry .expression e) :
    Derives registry .expression (Token.function symbol :: e) := by
  cases he with
  | single operand => exact .single (.apply listed fixity arity operand)
  | between left listed' fixity' right =>
      exact .between (.apply listed fixity arity left) listed' fixity' right

/-- What keeps the first argument an expression keeps a row of arguments. -/
theorem Derives.map_first {n : Nat} {g : List Token} (before : List Token)
    (h : ∀ e, Derives registry .expression e → Derives registry .expression (before ++ e))
    (hg : Derives registry (.arguments n) g) : Derives registry (.arguments n) (before ++ g) := by
  cases hg with
  | one argument => exact .one (h _ argument)
  | more argument rest =>
      rw [← List.append_assoc]
      exact .more (h _ argument) rest

/-! ## Proper tokens and their weights -/

/-- A token that a registry has an entry for, if it is a symbol. -/
inductive Proper (registry : Registry) : Token → Prop
  | atom {t : Token} (atom : t.isAtom = true) : Proper registry t
  | leftParen : Proper registry Token.leftParen
  | rightParen : Proper registry Token.rightParen
  | separator : Proper registry Token.separator
  | function {symbol : List Char} {entry : Entry} (listed : registry.find? symbol = some entry)
      (fixity : entry.fixity = .before) (arity : 0 < entry.arity) :
      Proper registry (Token.function symbol)
  | between {symbol : List Char} {entry : Entry} (listed : registry.find? symbol = some entry)
      (fixity : entry.fixity = .between) (arity : entry.arity = 2)
      (other : symbol ≠ factorialSymbol) : Proper registry (Token.operator symbol)
  | factorial {entry : Entry} (listed : registry.find? factorialSymbol = some entry)
      (fixity : entry.fixity = .after) (arity : entry.arity = 1) :
      Proper registry (Token.operator factorialSymbol)

/-- A registry whose symbols fit the grammar: operators between operands take two, and `!` is the
one operator after its operand. The symbols that tokenizing puts in by itself are what they stand
for. -/
structure Grammatical (registry : Registry) : Prop where
  before : ∀ {symbol entry}, registry.find? symbol = some entry → entry.fixity = .before →
    0 < entry.arity
  between : ∀ {symbol entry}, registry.find? symbol = some entry → entry.fixity = .between →
    entry.arity = 2 ∧ symbol ≠ factorialSymbol
  after : ∀ {symbol entry}, registry.find? symbol = some entry → entry.fixity = .after →
    entry.arity = 1 ∧ symbol = factorialSymbol
  factorial : ∃ entry, registry.find? factorialSymbol = some entry ∧ entry.fixity = .after
  absolute : ∃ entry, registry.find? absoluteSymbol = some entry ∧ entry.fixity = .before
  negate : ∃ entry, registry.find? negateSymbol = some entry ∧ entry.fixity = .before
  product : ∃ entry, registry.find? productSymbol = some entry ∧ entry.fixity = .between

theorem builtin_grammatical : Grammatical Registry.builtin := by
  have hentries : ∀ e ∈ Builtin.entries, (e.fixity = .before → 0 < e.arity) ∧
      (e.fixity = .between → e.arity = 2 ∧ e.symbol ≠ factorialSymbol) ∧
      (e.fixity = .after → e.arity = 1 ∧ e.symbol = factorialSymbol) := by
    decide +kernel
  have hlisted : ∀ {symbol entry}, Registry.builtin.find? symbol = some entry →
      entry ∈ Builtin.entries ∧ entry.symbol = symbol := by
    intro symbol entry h
    exact ⟨List.mem_of_find?_eq_some h, by simpa using List.find?_some h⟩
  refine ⟨?_, ?_, ?_, ⟨_, rfl, rfl⟩, ⟨_, rfl, rfl⟩, ⟨_, rfl, rfl⟩, ⟨_, rfl, rfl⟩⟩
  · intro symbol entry h
    obtain ⟨hmem, rfl⟩ := hlisted h
    exact (hentries entry hmem).1
  · intro symbol entry h
    obtain ⟨hmem, rfl⟩ := hlisted h
    exact (hentries entry hmem).2.1
  · intro symbol entry h
    obtain ⟨hmem, rfl⟩ := hlisted h
    exact (hentries entry hmem).2.2

/-- How many operands a token adds: an operand is one, and a symbol leaves one in the place of as
many as its entry takes. -/
def tokenWeight (registry : Registry) (t : Token) : Int :=
  match t.kind with
  | .number | .constant | .reference => 1
  | .operator | .function => 1 - ((registry.find? t.text).map Entry.arity).getD 1
  | _ => 0

theorem tokenWeight_atom {t : Token} (atom : t.isAtom = true) : tokenWeight registry t = 1 := by
  cases hkind : t.kind <;> simp [Token.isAtom, hkind] at atom <;> simp [tokenWeight, hkind]

/-- Parentheses and separators add no operand. -/
theorem tokenWeight_of_kind {t : Token}
    (h : t.kind = .leftParen ∨ t.kind = .rightParen ∨ t.kind = .separator) :
    tokenWeight registry t = 0 := by
  rcases h with h | h | h <;> simp [tokenWeight, h]

@[simp] theorem tokenWeight_leftParen : tokenWeight registry Token.leftParen = 0 := rfl

@[simp] theorem tokenWeight_rightParen : tokenWeight registry Token.rightParen = 0 := rfl

@[simp] theorem tokenWeight_separator : tokenWeight registry Token.separator = 0 := rfl

theorem tokenWeight_function {symbol : List Char} {entry : Entry}
    (listed : registry.find? symbol = some entry) :
    tokenWeight registry (Token.function symbol) = 1 - (entry.arity : Int) := by
  simp [tokenWeight, Token.function, listed]

theorem tokenWeight_operator {symbol : List Char} {entry : Entry}
    (listed : registry.find? symbol = some entry) :
    tokenWeight registry (Token.operator symbol) = 1 - (entry.arity : Int) := by
  simp [tokenWeight, Token.operator, listed]

/-- How many operands some tokens add. -/
def weight (registry : Registry) (tokens : List Token) : Int :=
  (tokens.map (tokenWeight registry)).sum

@[simp] theorem weight_nil : weight registry [] = 0 := rfl

@[simp] theorem weight_cons (t : Token) (ts : List Token) :
    weight registry (t :: ts) = tokenWeight registry t + weight registry ts := by
  simp [weight]

@[simp] theorem weight_append (ts us : List Token) :
    weight registry (ts ++ us) = weight registry ts + weight registry us := by
  simp [weight]

/-- Each `!` directly follows a token that ends an operand. -/
def FactorialsFollow : Option Token → List Token → Prop
  | _, [] => True
  | last, t :: rest =>
    (t = Token.operator factorialSymbol → last.any Token.endsOperand = true) ∧
      FactorialsFollow (some t) rest

/-! ## Parentheses -/

/-- How many parentheses are open after a token, unless it closes one and none is open, or it is a
separator outside of any. -/
def open? (depth : Nat) (t : Token) : Option Nat :=
  match t.kind with
  | .leftParen => some (depth + 1)
  | .rightParen => if depth = 0 then none else some (depth - 1)
  | .separator => if depth = 0 then none else some depth
  | _ => some depth

/-- How many parentheses are open after some tokens. -/
def openAfter? (depth : Nat) (tokens : List Token) : Option Nat := tokens.foldlM open? depth

theorem openAfter?_cons (depth : Nat) (t : Token) (ts : List Token) :
    openAfter? depth (t :: ts) = (open? depth t).bind (openAfter? · ts) := rfl

theorem open?_atom {t : Token} (atom : t.isAtom = true) (depth : Nat) :
    open? depth t = some depth := by
  cases hkind : t.kind <;> simp [Token.isAtom, hkind] at atom <;> simp [open?, hkind]

/-- Parentheses open and close in pairs, and separators stand between them. -/
def WellNested (tokens : List Token) : Prop := openAfter? 0 tokens = some 0

/-! ## Operands too many -/

/-- A place in a row of tokens: the two tokens before it, and how many arguments each open
parenthesis may still hold, the innermost first. -/
structure Place where
  before : Option Token
  last : Option Token
  rooms : List Nat

namespace Place

/-- The place at the start of a row. -/
def start : Place := ⟨none, none, []⟩

/-- How many arguments a parenthesis that opens here may hold: those of the function before it, or
of the operator before it that is called like one as it stands where an operand is expected; else
one. -/
def room (registry : Registry) (p : Place) : Nat :=
  match p.last with
  | none => 1
  | some t =>
    match t.kind with
    | .function => ((registry.find? t.text).map Entry.arity).getD 1
    | .operator =>
      if Token.expectsOperand p.before then ((registry.find? t.text).map Entry.arity).getD 1 else 1
    | _ => 1

/-- The place after a token, unless it is the start of an operand where none is expected, or the
separator before an argument that its parenthesis may not hold, or closes no parenthesis. -/
def next? (registry : Registry) (p : Place) (t : Token) : Option Place :=
  match t.kind with
  | .number | .constant | .reference | .function =>
    if Token.expectsOperand p.last then some ⟨p.last, some t, p.rooms⟩ else none
  | .leftParen =>
    if Token.expectsOperand p.last then some ⟨p.last, some t, p.room registry :: p.rooms⟩ else none
  | .rightParen =>
    match p.rooms with
    | _ :: rooms => some ⟨p.last, some t, rooms⟩
    | [] => none
  | .separator =>
    match p.rooms with
    | (n + 2) :: rooms => some ⟨p.last, some t, (n + 1) :: rooms⟩
    | _ => none
  | _ => some ⟨p.last, some t, p.rooms⟩

/-- The place after some tokens. -/
def after? (registry : Registry) (p : Place) (tokens : List Token) : Option Place :=
  tokens.foldlM (next? registry) p

end Place

/-- No operand and no argument is too many. -/
def NoSurplus (registry : Registry) (tokens : List Token) : Prop :=
  (Place.start.after? registry tokens).isSome = true

instance (tokens : List Token) : Decidable (NoSurplus registry tokens) :=
  inferInstanceAs (Decidable (_ = true))

namespace Place

theorem after?_nil (p : Place) : p.after? registry [] = some p := rfl

theorem after?_cons (p : Place) (t : Token) (ts : List Token) :
    p.after? registry (t :: ts) = (p.next? registry t).bind (after? registry · ts) := rfl

theorem after?_append (p : Place) (ts us : List Token) :
    p.after? registry (ts ++ us) = (p.after? registry ts).bind (after? registry · us) := by
  simp [after?, List.foldlM_append, bind]

/-- The kinds of tokens that start an operand. -/
theorem next?_atom {p : Place} {t : Token} (atom : t.isAtom = true) : p.next? registry t =
    if Token.expectsOperand p.last then some ⟨p.last, some t, p.rooms⟩ else none := by
  cases hkind : t.kind <;> simp [Token.isAtom, hkind] at atom <;> simp [next?, hkind]

theorem next?_function (p : Place) (symbol : List Char) :
    p.next? registry (Token.function symbol) = if Token.expectsOperand p.last then
      some ⟨p.last, some (Token.function symbol), p.rooms⟩ else none := rfl

theorem next?_operator (p : Place) (symbol : List Char) :
    p.next? registry (Token.operator symbol) =
      some ⟨p.last, some (Token.operator symbol), p.rooms⟩ := rfl

theorem next?_leftParen (p : Place) :
    p.next? registry Token.leftParen = if Token.expectsOperand p.last then
      some ⟨p.last, some Token.leftParen, p.room registry :: p.rooms⟩ else none := rfl

theorem next?_rightParen {p p' : Place} (h : p.next? registry Token.rightParen = some p') :
    ∃ n rooms, p.rooms = n :: rooms ∧ p' = ⟨p.last, some Token.rightParen, rooms⟩ := by
  obtain ⟨before, last, rooms⟩ := p
  cases rooms with
  | nil => cases h
  | cons n rooms =>
      cases h
      exact ⟨n, rooms, rfl, rfl⟩

theorem next?_separator {p p' : Place} (h : p.next? registry Token.separator = some p') :
    ∃ n rooms, p.rooms = (n + 2) :: rooms ∧
      p' = ⟨p.last, some Token.separator, (n + 1) :: rooms⟩ := by
  obtain ⟨before, last, rooms⟩ := p
  match rooms with
  -- a parenthesis that may hold one more argument only takes no separator
  | [] => cases h
  | 0 :: rooms => cases h
  | 1 :: rooms => cases h
  | (n + 2) :: rooms =>
      cases h
      exact ⟨n, rooms, rfl, rfl⟩

/-- The open parentheses of a place are those that are open. -/
theorem next?_open {p p' : Place} {t : Token} (h : p.next? registry t = some p') :
    open? p.rooms.length t = some p'.rooms.length := by
  obtain ⟨before, last, rooms⟩ := p
  cases hkind : t.kind with
  | rightParen =>
      cases rooms with
      | nil => simp [next?, hkind] at h
      | cons n rooms =>
          obtain rfl : ⟨last, some t, rooms⟩ = p' := by simpa [next?, hkind] using h
          simp [open?, hkind]
  | separator =>
      match rooms with
      | [] => simp [next?, hkind] at h
      | 0 :: rooms => simp [next?, hkind] at h
      | 1 :: rooms => simp [next?, hkind] at h
      | (n + 2) :: rooms =>
          obtain rfl : ⟨last, some t, (n + 1) :: rooms⟩ = p' := by simpa [next?, hkind] using h
          simp [open?, hkind]
  | _ =>
      cases hexpects : Token.expectsOperand last <;> simp [next?, hkind, hexpects] at h
      all_goals
        subst h
        simp [open?, hkind]

theorem after?_open (ts : List Token) : ∀ {p p' : Place}, p.after? registry ts = some p' →
    openAfter? p.rooms.length ts = some p'.rooms.length := by
  induction ts with
  | nil =>
      intro p p' h
      cases h
      rfl
  | cons t ts ih =>
      intro p p' h
      rw [after?_cons] at h
      cases hnext : p.next? registry t with
      | none =>
          rw [hnext] at h
          cases h
      | some q =>
          rw [hnext] at h
          rw [openAfter?_cons, next?_open hnext]
          exact ih h

end Place

/-- Where parentheses are balanced, none is open after a row without a surplus. -/
theorem NoSurplus.closes {tokens : List Token} (h : NoSurplus registry tokens)
    (hnested : WellNested tokens) :
    ∃ p, Place.start.after? registry tokens = some p ∧ p.rooms = [] := by
  obtain ⟨p, hp⟩ := Option.isSome_iff_exists.mp h
  have hopen : openAfter? 0 tokens = some p.rooms.length := Place.after?_open tokens hp
  rw [hnested] at hopen
  exact ⟨p, hp, List.eq_nil_of_length_eq_zero (Option.some.inj hopen).symm⟩

end Grammar

end DecimalCalc
