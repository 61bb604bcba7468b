import DecimalCalc.Text.Ranges

/-!
# Blank characters

Two classes that differ in four characters. The *white space* of Unicode separates lexemes. What may
be cut off at both ends of a line is white space and the four separators `U+001C` to `U+001F`.
-/

set_option autoImplicit false

namespace DecimalCalc

namespace Text

/-- The characters with the property White_Space. -/
def whiteSpaceRanges : List (Nat × Nat) :=
  [(0x9, 0xD), (0x20, 0x20), (0x85, 0x85), (0xA0, 0xA0), (0x1680, 0x1680), (0x2000, 0x200A),
    (0x2028, 0x2029), (0x202F, 0x202F), (0x205F, 0x205F), (0x3000, 0x3000)]

/-- Whether a character separates lexemes. -/
def isWhiteSpace (c : Char) : Bool := inRanges c.toNat whiteSpaceRanges

/-- Whether a character may be cut off at the end of a line. -/
def isBlank (c : Char) : Bool := isWhiteSpace c || inRanges c.toNat [(0x1C, 0x1F)]

/-- The text without blanks at both ends. -/
def strip (text : List Char) : List Char :=
  ((text.dropWhile isBlank).reverse.dropWhile isBlank).reverse

end Text

end DecimalCalc
