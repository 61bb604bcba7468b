import DecimalCalc.Decimal.Rounding
import DecimalCalc.Text.Quoted

/-!
# Settings

What an evaluation depends on besides its input: how precise results are and how they are rounded,
in which unit angles are measured, and for which locale numbers are shown.
-/

set_option autoImplicit false

namespace DecimalCalc

/-- The unit of angles. -/
inductive AngleUnit
  | degrees
  | radians
  deriving DecidableEq, Inhabited

namespace AngleUnit

def name : AngleUnit → List Char
  | .degrees => "deg".toList
  | .radians => "rad".toList

def ofName? (name : List Char) : Option AngleUnit :=
  if name = "deg".toList then some .degrees
  else if name = "rad".toList then some .radians
  else none

end AngleUnit

/-- Why a setting is refused. -/
inductive SettingFault
  | precisionNotPositive (precision : Int)
  | unknownAngleUnit (name : List Char)
  | unknownCoordinateKind (name : List Char)
  deriving DecidableEq

namespace SettingFault

def message : SettingFault → List Char
  | .precisionNotPositive precision =>
    "Precision must be positive, not ".toList ++ signedNumeral precision
  | .unknownAngleUnit name => Text.quoted name ++ " is not a valid AngleUnit".toList
  | .unknownCoordinateKind name => Text.quoted name ++ " is not a valid CoordinateKind".toList

end SettingFault

/-- The settings of an evaluation. -/
structure Settings where
  precision : Nat
  rounding : Rounding
  angleUnit : AngleUnit
  locale : List Char
  precision_pos : 0 < precision
  deriving DecidableEq

/-- What becomes of one setting: it stays, goes back to its default, or gets a value. -/
inductive Change (α : Type)
  | keep
  | reset
  | set (value : α)

/-- The value of a setting after a change. -/
def Change.apply {α : Type} (current default : α) : Change α → α
  | .keep => current
  | .reset => default
  | .set value => value

namespace Settings

/-- The settings where nothing else is asked for. -/
def initial : Settings where
  precision := 50
  rounding := .halfUp
  angleUnit := .degrees
  locale := "en_US".toList
  precision_pos := by decide

instance : Inhabited Settings := ⟨initial⟩

/-- The format that results are rounded to. -/
def format (s : Settings) : Format := ⟨s.precision, s.rounding⟩

/-- The format with `extra` digits more than results have. -/
def widened (s : Settings) (extra : Nat) : Format := ⟨s.precision + extra, s.rounding⟩

/-- The settings after some changes. A precision has to be positive, and is looked at before the
unit of angles. -/
def change (s : Settings) (precision : Change Int) (rounding : Change Rounding)
    (angleUnit : Change (List Char)) (locale : Change (List Char)) :
    Except SettingFault Settings :=
  let precision := precision.apply (s.precision : Int) initial.precision
  let unit := angleUnit.apply s.angleUnit.name initial.angleUnit.name
  if positive : 0 < precision then
    match AngleUnit.ofName? unit with
    | some angleUnit =>
      .ok {
        precision := precision.toNat
        rounding := rounding.apply s.rounding initial.rounding
        angleUnit
        locale := locale.apply s.locale initial.locale
        precision_pos := by omega }
    | none => .error (.unknownAngleUnit unit)
  else .error (.precisionNotPositive precision)

end Settings

end DecimalCalc
