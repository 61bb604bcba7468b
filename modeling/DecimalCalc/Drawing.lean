/-!
# Drawing random numbers

A generator is all the numbers that it will give, one after the other, and nothing is assumed of
them. A computation that may draw is handed a generator and hands on what is left of it, so that no
number is ever drawn twice. What has been drawn is gone even if the computation fails later on.
-/

set_option autoImplicit false

namespace DecimalCalc

/-- The numbers that a generator will give. -/
structure Generator where
  number : Nat → Nat

namespace Generator

/-- The generator after its first number. -/
def rest (g : Generator) : Generator := ⟨fun n => g.number (n + 1)⟩

/-- An integer between two bounds, the lower one first: the first number, brought between them. -/
def between (g : Generator) (low high : Int) : Int := low + (g.number 0 : Int) % (high - low + 1)

/-- A step of a congruential generator modulo `2 ^ 64`. -/
def scramble (state : Nat) : Nat :=
  (state * 6364136223846793005 + 1442695040888963407) % 18446744073709551616

/-- The states of a congruential generator after a seed, less their lowest bits. -/
def ofSeed (seed : Nat) : Generator := ⟨fun n => (n + 1).repeat scramble seed / 65536⟩

instance : Inhabited Generator := ⟨ofSeed 0⟩

end Generator

/-- A computation that may draw: what it comes to, and the generator that it leaves. -/
def Drawing (ε α : Type) : Type := Generator → Except ε α × Generator

namespace Drawing

variable {ε ε' α β : Type}

/-- What a computation comes to. -/
def outcome (x : Drawing ε α) (g : Generator) : Except ε α := (x g).1

/-- A computation that draws nothing. -/
def still (x : Except ε α) : Drawing ε α := fun g => (x, g)

def ok (a : α) : Drawing ε α := still (.ok a)

def error (e : ε) : Drawing ε α := still (.error e)

/-- Two computations, of which the second draws from what the first has left. -/
def bind (x : Drawing ε α) (f : α → Drawing ε β) : Drawing ε β := fun g =>
  match x g with
  | (.ok a, g) => f a g
  | (.error e, g) => (.error e, g)

def map (f : α → β) (x : Drawing ε α) : Drawing ε β := fun g => ((x g).1.map f, (x g).2)

def mapError (f : ε → ε') (x : Drawing ε α) : Drawing ε' α := fun g =>
  ((x g).1.mapError f, (x g).2)

/-- A computation whose result or failure is looked at. -/
def handle (f : Except ε α → Except ε' β) (x : Drawing ε α) : Drawing ε' β := fun g =>
  (f (x g).1, (x g).2)

instance : Monad (Drawing ε) where
  pure := ok
  bind := bind

/-- The integer that a generator gives between two bounds. -/
def between (low high : Int) : Drawing ε Int := fun g => (.ok (g.between low high), g.rest)

end Drawing

end DecimalCalc
