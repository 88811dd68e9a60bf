import ThriftTypings.Text.HiddenTable

/-
  This file defines how a text is shown inside a message:
  between quotes, with the characters that have no visible
  form written as escapes.
-/

namespace ThriftTypings

namespace Text

-- Visible Characters

/- Does the character have a visible form? -/
def isVisible
    (c : Char) : Bool :=
  if c.toNat < 128 then
    0x20 ≤ c.toNat && c.toNat < 0x7F
  else
    !hiddenRanges.any (within c.toNat)

-- Escapes

/-
  A number in lower-case hexadecimal, padded with zeros on
  the left to at least `width` digits.
-/
def hex
    (width n : Nat) : Text :=
  let digits := Nat.toDigits 16 n
  List.replicate (width - digits.length) '0' ++ digits

/-
  One character of a shown text. The backslash and the
  enclosing quote are escaped, three controls have letters
  of their own, and any other hidden character is written
  by its code in two, four or eight digits.
-/
def shownChar
    (quote c : Char) : Text :=
  if c = '\\' ∨ c = quote then ['\\', c]
  else if c = '\n' then ['\\', 'n']
  else if c = '\r' then ['\\', 'r']
  else if c = '\t' then ['\\', 't']
  else if isVisible c then [c]
  else if c.toNat < 0x100 then
    ['\\', 'x'] ++ hex 2 c.toNat
  else if c.toNat < 0x10000 then
    ['\\', 'u'] ++ hex 4 c.toNat
  else
    ['\\', 'U'] ++ hex 8 c.toNat

/-
  The quote around a shown text: a single one, unless the
  text has single quotes and no double ones.
-/
def quoteFor
    (text : Text) : Char :=
  if '\'' ∈ text ∧ '"' ∉ text then '"' else '\''

/- A text as a message shows it. -/
def shown
    (text : Text) : Text :=
  let quote := quoteFor text
  [quote] ++ text.flatMap (shownChar quote) ++ [quote]

end Text

end ThriftTypings
