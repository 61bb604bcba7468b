import DecimalCalc.Number.Arithmetic

/-!
# Showing numbers

A number is shown in plain notation, without zeros at the end of its fraction, with the decimal point
of a locale and, on demand, with its integral digits in groups of three.
-/

set_option autoImplicit false

namespace DecimalCalc

/-! ## Locales -/

/-- The decimal point and the mark between groups of digits. -/
structure Separators where
  point : Char
  group : Char
  deriving DecidableEq, Inhabited

namespace Separators

/-- What languages, and the few countries that differ from their language, use. -/
def known : List (List Char × Separators) :=
  [("en".toList, ⟨'.', ','⟩), ("de".toList, ⟨',', '.'⟩), ("de_CH".toList, ⟨'.', '\u2019'⟩),
    ("fr".toList, ⟨',', '\u202f'⟩), ("it".toList, ⟨',', '.'⟩), ("es".toList, ⟨',', '.'⟩),
    ("nl".toList, ⟨',', '.'⟩), ("pt".toList, ⟨',', '.'⟩), ("ru".toList, ⟨',', '\u00a0'⟩),
    ("ja".toList, ⟨'.', ','⟩), ("zh".toList, ⟨'.', ','⟩)]

/-- The separators of English, which stand in for those of an unknown locale. -/
def english : Separators := ⟨'.', ','⟩

/-- The separators of a locale: those of its whole name, or else those of its language. -/
def ofLocale (locale : List Char) : Separators :=
  let name := locale.map fun c => if c = '-' then '_' else c
  match known.lookup name with
  | some separators => separators
  | none => (known.lookup (name.takeWhile (· ≠ '_'))).getD english

end Separators

/-! ## Trimming -/

namespace Number

/-- The number of digits that are written for a number, at least those before its point. -/
def writtenDigits : Number → Nat
  | .finite x => max (max x.digits (x.adjusted + 1).toNat) 1
  | .infinite _ => 1
  | .nan _ _ payload => if payload = 0 then 1 else digitCount payload

/-- The number without zeros at the end of its fraction and without a positive exponent. The format
of this step has room for all digits, but its exponents are limited like those of any other. -/
def trim (x : Number) : Except Signal Number := do
  let f : Format := ⟨x.writtenDigits, .halfEven⟩
  if ← x.isInteger then x.quantize f 0 else x.normalize f

end Number

/-! ## Layout -/

/-- Splits a row of digits, given from its end, into groups of three, and puts a mark between
them. -/
def groupReversed (mark : Char) : List Char → List Char
  | a :: b :: c :: d :: rest => a :: b :: c :: mark :: groupReversed mark (d :: rest)
  | short => short

/-- A row of digits in groups of three, the first of them one to three digits long. -/
def groupDigits (mark : Char) (row : List Char) : List Char :=
  (groupReversed mark row.reverse).reverse

/-- A plain text with the separators of a locale. -/
def localized (separators : Separators) (grouping : Bool) (text : List Char) : List Char :=
  let (sign, text) :=
    match text with
    | '-' :: rest => (['-'], rest)
    | text => ([], text)
  let integral := text.takeWhile (· ≠ '.')
  let fraction := (text.dropWhile (· ≠ '.')).drop 1
  let integral := if grouping then groupDigits separators.group integral else integral
  sign ++ integral ++ if fraction.isEmpty then [] else separators.point :: fraction

namespace Number

/-- The text that a number is shown as. -/
def display (locale : List Char) (grouping : Bool) (x : Number) : Except Signal (List Char) := do
  return localized (Separators.ofLocale locale) grouping (← x.trim).plain

end Number

end DecimalCalc
