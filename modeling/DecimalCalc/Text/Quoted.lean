import DecimalCalc.Text.Printable

/-!
# Quoted text

How a piece of input is quoted in a message. Single quotes enclose it, or double quotes when it holds
single ones and no double ones. Backslashes, the enclosing quote and line ends are escaped, and
characters that cannot be shown are written by their code points.
-/

set_option autoImplicit false

namespace DecimalCalc

namespace Text

/-- The last `width` hexadecimal digits of a number. -/
def hexadecimal : Nat → Nat → List Char
  | 0, _ => []
  | width + 1, n => hexadecimal width (n / 16) ++ [Nat.digitChar (n % 16)]

/-- A code point in the shortest of the three forms `\xhh`, `\uhhhh` and `\Uhhhhhhhh`. -/
def escapedPoint (point : Nat) : List Char :=
  if point < 0x100 then '\\' :: 'x' :: hexadecimal 2 point
  else if point < 0x10000 then '\\' :: 'u' :: hexadecimal 4 point
  else '\\' :: 'U' :: hexadecimal 8 point

/-- A character as it stands between quotes. -/
def quotedChar (quote c : Char) : List Char :=
  if c = quote || c = '\\' then ['\\', c]
  else if c = '\n' then ['\\', 'n']
  else if c = '\r' then ['\\', 'r']
  else if c = '\t' then ['\\', 't']
  else if isPrintable c then [c]
  else escapedPoint c.toNat

/-- The quote that encloses a text. -/
def quoteFor (text : List Char) : Char :=
  if text.contains '\'' && !text.contains '"' then '"' else '\''

/-- The text in quotes. -/
def quoted (text : List Char) : List Char :=
  let quote := quoteFor text
  quote :: text.flatMap (quotedChar quote) ++ [quote]

end Text

end DecimalCalc
