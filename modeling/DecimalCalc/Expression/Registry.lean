import DecimalCalc.Fault
import DecimalCalc.Functions.Catalogue

/-!
# Registries

A registry says how each symbol is written and what it does. Its entries stand in the order in which
their symbols were first registered; registering a symbol again replaces its entry in place. Once
frozen, a registry never changes.
-/

set_option autoImplicit false

namespace DecimalCalc

/-- To which side operators of one precedence bind. -/
inductive Associativity
  | left
  | right
  deriving DecidableEq, Inhabited

/-- Where a symbol stands: before its operands, between them, or after its operand. -/
inductive Fixity
  | before
  | between
  | after
  deriving DecidableEq, Inhabited

/-- How a symbol is written, and what it does. -/
structure Entry where
  symbol : List Char
  arity : Nat
  precedence : Int
  associativity : Associativity
  fixity : Fixity
  action : Action

namespace Entry

/-- An operator between two operands. -/
def between (symbol : List Char) (precedence : Int) (action : Action)
    (associativity : Associativity) : Entry :=
  ⟨symbol, 2, precedence, associativity, .between, action⟩

/-- An operator after its operand. -/
def after (symbol : List Char) (precedence : Int) (action : Action) : Entry :=
  ⟨symbol, 1, precedence, .left, .after, action⟩

/-- A function before its operands. -/
def before (symbol : List Char) (arity : Nat) (precedence : Int) (action : Action) : Entry :=
  ⟨symbol, arity, precedence, .left, .before, action⟩

/-- Whether the symbol is a function. -/
def isFunction (e : Entry) : Bool := e.fixity == .before

/-- Whether the symbol stands after its operand. -/
def isAfter (e : Entry) : Bool := e.fixity == .after

/-- Whether operators of this precedence bind to the right. -/
def isRightAssociative (e : Entry) : Bool := e.associativity == .right

end Entry

/-- A list of entries with different symbols, and whether it may still change. -/
structure Registry where
  entries : List Entry := []
  frozen : Bool := false

namespace Registry

instance : Inhabited Registry := ⟨{}⟩

/-- The entry of a symbol. -/
def find? (r : Registry) (symbol : List Char) : Option Entry :=
  r.entries.find? fun e => e.symbol = symbol

/-- The entry of a symbol; there has to be one. -/
def lookup (r : Registry) (symbol : List Char) : Except Fault Entry :=
  match r.find? symbol with
  | some e => .ok e
  | none => .error (.unknownSymbol symbol)

/-- The symbols, in the order of the entries. -/
def symbols (r : Registry) : List (List Char) := r.entries.map Entry.symbol

/-- Whether a symbol has an entry. -/
def contains (r : Registry) (symbol : List Char) : Bool := r.symbols.contains symbol

def size (r : Registry) : Nat := r.entries.length

/-- Puts an entry in the place of the one with its symbol, or at the end. -/
def put (e : Entry) : List Entry → List Entry
  | [] => [e]
  | old :: rest => if old.symbol = e.symbol then e :: rest else old :: put e rest

/-- Registers an entry, which a frozen registry refuses. -/
def register (r : Registry) (e : Entry) : Except Fault Registry :=
  if r.frozen then .error (.frozenRegistry e.symbol)
  else .ok { r with entries := put e r.entries }

/-- Registers some entries, one after the other. -/
def registerAll (r : Registry) (entries : List Entry) : Except Fault Registry :=
  entries.foldlM register r

def freeze (r : Registry) : Registry := { r with frozen := true }

end Registry

end DecimalCalc
