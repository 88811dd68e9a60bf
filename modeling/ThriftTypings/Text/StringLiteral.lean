import ThriftTypings.Text.Shown

/-
  This file defines string literals in double quotes, as
  they stand in emitted code and in data.
-/

namespace ThriftTypings

namespace Text

-- String Literals

/-
  One character of a string literal. The quote and the
  backslash are escaped, five controls have letters of
  their own, the other controls below the space are written
  by their code in four digits, and everything else stands
  for itself.
-/
def literalChar
    (c : Char) : Text :=
  if c = '"' then ['\\', '"']
  else if c = '\\' then ['\\', '\\']
  else if c = '\n' then ['\\', 'n']
  else if c = '\r' then ['\\', 'r']
  else if c = '\t' then ['\\', 't']
  else if c.toNat = 0x08 then ['\\', 'b']
  else if c.toNat = 0x0C then ['\\', 'f']
  else if c.toNat < 0x20 then
    ['\\', 'u'] ++ hex 4 c.toNat
  else [c]

/- The string literal of a text. -/
def literal
    (text : Text) : Text :=
  ['"'] ++ text.flatMap literalChar ++ ['"']

end Text

end ThriftTypings
