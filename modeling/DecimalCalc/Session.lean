import DecimalCalc.References

/-!
# Sessions

A session keeps settings, variables and a generator from one expression to the next. A step that
fails leaves the settings and variables as they were; what it has drawn is gone.
-/

set_option autoImplicit false

namespace DecimalCalc

/-- Settings, variables and a generator. -/
structure Session where
  settings : Settings := .initial
  vars : Variables := {}
  generator : Generator := default

namespace Session

instance : Inhabited Session := ⟨{}⟩

/-- The calculator of the session's settings. -/
def calculator (session : Session) : Calculator :=
  { settings := session.settings, generator := session.generator }

/-- What a computation comes to that draws from the session's generator. -/
def draw {α : Type} (session : Session) (x : Drawing Failure α) : Except Failure α × Session :=
  let (result, generator) := x session.generator
  (result, { session with generator })

/-- The value of an expression. -/
def evaluate (session : Session) (text : List Char) : Except Failure Scalar × Session :=
  session.draw (session.calculator.compute text session.vars)

/-- The tokens of an expression in reverse Polish order. -/
def reversePolish (session : Session) (text : List Char) : Except Failure (List Token) × Session :=
  let c := session.calculator
  session.draw (c.reversePolishWith (c.resolve session.vars) text)

/-- Looks for variables that refer back to themselves. -/
def check (session : Session) : Except Failure Unit :=
  session.calculator.checkVariables session.vars

/-- Binds a name. -/
def define (session : Session) (name : List Char) (binding : Binding) : Session :=
  { session with vars := session.vars.bind name binding }

/-- Binds a name to the value of an expression. -/
def assign (session : Session) (name text : List Char) : Except Failure Scalar × Session :=
  match session.evaluate text with
  | (.ok value, session) => (.ok value, session.define name (.number value.number))
  | (.error failure, session) => (.error failure, session)

/-- Unbinds a name. -/
def forget (session : Session) (name : List Char) : Session :=
  { session with vars := session.vars.unbind name }

end Session

end DecimalCalc
