import DecimalCalc.Calculator

/-!
# Cyclic references

Variables that are bound to expressions refer to one another. A depth-first search through these
references, which visits each name once, finds out whether an expression refers back to itself.
-/

set_option autoImplicit false

namespace DecimalCalc

/-- The names that some expressions refer to, by the names that they are bound to. -/
abbrev References := List (List Char × List (List Char))

namespace References

/-- The different names that tokens refer to, in order. -/
def ofTokens (tokens : List Token) : List (List Char) :=
  ((tokens.filter (·.kind == .reference)).map Token.text).eraseDups

/-- The names that a name refers to. -/
def targets (references : References) (name : List Char) : List (List Char) :=
  (references.lookup name).getD []

/-- Visits a name that the names of `chain` lead to, and adds to `done` all names that lead to no
cycle. A chain holds different names of expressions, so that `depth`, their number less the length of
the chain and one more, never runs out. -/
def visit (references : References) :
    Nat → List (List Char) → List (List Char) → List Char → Except Fault (List (List Char))
  | depth, chain, done, name =>
    if name ∈ chain then
      .error (.cyclicReference (chain.dropWhile (· ≠ name) ++ [name]))
    else if name ∈ done then .ok done
    else
      match depth with
      | 0 => .ok done
      | depth + 1 => do
        let done ← (references.targets name).foldlM
          (fun done target => visit references depth (chain ++ [name]) done target) done
        return name :: done

/-- Visits all names of expressions; a cycle is a fault. -/
def check (references : References) : Except Fault Unit := do
  let _ ← (references.map Prod.fst).foldlM
    (fun done name => visit references (references.length + 1) [] done name) []
  return ()

end References

namespace Calculator

/-- The references of all variables that are bound to expressions. -/
def references (c : Calculator) (vars : Variables) : Except Failure References :=
  vars.expressions.mapM fun (name, text) =>
    (c.tokenize text).map fun tokens => (name, References.ofTokens tokens)

/-- Looks for variables that refer back to themselves. References to undefined variables do not
matter here. -/
def checkVariables (c : Calculator) (vars : Variables) : Except Failure Unit := do
  ((← c.references vars).check).mapError .fault

end Calculator

end DecimalCalc
