import ThriftTypings.Text.Basic

/-
  This file defines the blank characters of running text
  and what it means to strip them.

  These are the characters that Unicode counts as white
  space, together with the four information separators. The
  scanner of IDL sources has a narrower notion of its own.
-/

namespace ThriftTypings

namespace Text

-- Blank Characters

/- Is the code point between the two bounds, inclusive? -/
def within
    (code : Nat)
    (range : Nat × Nat) : Bool :=
  range.1 ≤ code && code ≤ range.2

/- The ranges of blank characters, in ascending order. -/
def blankRanges : List (Nat × Nat) :=
  [(0x09, 0x0D), (0x1C, 0x20), (0x85, 0x85),
   (0xA0, 0xA0), (0x1680, 0x1680), (0x2000, 0x200A),
   (0x2028, 0x2029), (0x202F, 0x202F), (0x205F, 0x205F),
   (0x3000, 0x3000)]

/- Is the character blank? -/
def isBlank
    (c : Char) : Bool :=
  blankRanges.any (within c.toNat)

-- Stripping

/- The text without the blanks at its end. -/
def stripEnd
    (text : Text) : Text :=
  (text.reverse.dropWhile isBlank).reverse

/- The text without the blanks at both ends. -/
def strip
    (text : Text) : Text :=
  stripEnd (text.dropWhile isBlank)

end Text

end ThriftTypings
