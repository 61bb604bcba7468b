import DecimalCalc.Number.Basic

/-!
# Variables

A variable is bound to a number, or to an expression that may refer to other variables. Variables are
kept in the order in which they were first bound; binding one again keeps its place.
-/

set_option autoImplicit false

namespace DecimalCalc

/-- Names are compared letter by letter. -/
instance lawfulBEq_name : LawfulBEq (List Char) := inferInstance

/-- What a variable stands for. -/
inductive Binding
  | number (number : Number)
  | expression (text : List Char)
  deriving DecidableEq, Inhabited

/-- Bindings of different names. -/
structure Variables where
  bindings : List (List Char × Binding) := []

namespace Variables

instance : Inhabited Variables := ⟨{}⟩

/-- What a name is bound to. -/
def find? (v : Variables) (name : List Char) : Option Binding := v.bindings.lookup name

def names (v : Variables) : List (List Char) := v.bindings.map Prod.fst

/-- The variables that are bound to expressions. -/
def expressions (v : Variables) : List (List Char × List Char) :=
  v.bindings.filterMap fun
    | (name, .expression text) => some (name, text)
    | (_, .number _) => none

/-- Puts a binding in the place of the one with its name, or at the end. -/
def put (name : List Char) (binding : Binding) :
    List (List Char × Binding) → List (List Char × Binding)
  | [] => [(name, binding)]
  | (old, kept) :: rest =>
    if old = name then (name, binding) :: rest else (old, kept) :: put name binding rest

/-- Binds a name. -/
def bind (v : Variables) (name : List Char) (binding : Binding) : Variables :=
  ⟨put name binding v.bindings⟩

/-- Unbinds a name, if it is bound. -/
def unbind (v : Variables) (name : List Char) : Variables :=
  ⟨v.bindings.filter fun (old, _) => old ≠ name⟩

/-- Binds some names, one after the other. -/
def ofList (bindings : List (List Char × Binding)) : Variables :=
  bindings.foldl (fun v (name, binding) => v.bind name binding) {}

end Variables

end DecimalCalc
