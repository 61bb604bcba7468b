import DecimalCalc.Expression.Registry

/-!
# The built-in symbols
-/

set_option autoImplicit false

namespace DecimalCalc

/-- The symbol of the unary minus, which also stands for a minus sign before an operand. -/
def negateSymbol : List Char := "neg".toList

/-- The symbol of the factorial. -/
def factorialSymbol : List Char := "!".toList

/-- The function that a pair of bars stands for. -/
def absoluteSymbol : List Char := "abs".toList

/-- The symbol of the product, which is also implied between neighbouring operands. -/
def productSymbol : List Char := "*".toList

namespace Builtin

/-- A built-in operator between two operands. -/
def between (symbol : String) (precedence : Int) (operation : Operation) : Entry :=
  Entry.between symbol.toList precedence operation.action .left

/-- A built-in function; its precedence matters to nothing but its entry. -/
def function (symbol : String) (arity : Nat) (operation : Operation) : Entry :=
  Entry.before symbol.toList arity 6 operation.action

/-- A built-in root. -/
def root (symbol : String) (arity : Nat) (operation : Operation) : Entry :=
  Entry.before symbol.toList arity 4 operation.action

/-- A trigonometric function with its inverse, which has two spellings, and its hyperbolic relatives
with theirs. -/
def trigonometric (name : String) (circular inverse hyperbolic area : Operation) : List Entry :=
  [function name 1 circular, function ("a" ++ name) 1 inverse, function (name ++ "⁻¹") 1 inverse,
    function (name ++ "h") 1 hyperbolic, function ("a" ++ name ++ "h") 1 area,
    function (name ++ "h⁻¹") 1 area]

/-- All built-in symbols. -/
def entries : List Entry :=
  [between "+" 2 .add, between "-" 2 .subtract, between "*" 3 .multiply, between "×" 3 .multiply,
    between "/" 3 .divide, between "÷" 3 .divide, between "%" 3 .modulo,
    Entry.between "^".toList 4 Operation.power.action .right,
    between "nPr" 6 .permutation, between "nCr" 6 .combination,
    Entry.after factorialSymbol 5 Operation.factorial.action,
    function "neg" 1 .negate, function "abs" 1 .absolute,
    root "sqrt" 1 .squareRoot, root "√" 1 .squareRoot,
    root "cbrt" 1 .cubeRoot, root "³√" 1 .cubeRoot, root "rootn" 2 .root] ++
  trigonometric "sin" .sin .arcsin .sinh .arsinh ++
  trigonometric "cos" .cos .arccos .cosh .arcosh ++
  trigonometric "tan" .tan .arctan .tanh .artanh ++
  trigonometric "cot" .cot .arccot .coth .arcoth ++
  [function "atan2" 2 .direction, function "tan2⁻¹" 2 .direction,
    function "log2" 1 .binaryLog, function "log10" 1 .commonLog, function "ln" 1 .naturalLog,
    function "logbase" 2 .logarithm,
    function "perm" 2 .permutation, function "comb" 2 .combination,
    function "gcd" 2 .gcd, function "GCD" 2 .gcd, function "lcm" 2 .lcm, function "LCM" 2 .lcm,
    function "RandInt" 2 .randomInteger,
    function "gamma" 1 .gamma, function "Γ" 1 .gamma, function "beta" 2 .beta,
    function "B" 2 .beta,
    function "Rec" 2 .toCartesian, function "Pol" 2 .toPolar]

end Builtin

namespace Registry

/-- The registry of the built-in symbols, which is frozen. -/
def builtin : Registry := ⟨Builtin.entries, true⟩

end Registry

end DecimalCalc
