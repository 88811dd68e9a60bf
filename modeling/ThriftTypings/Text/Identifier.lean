import ThriftTypings.Text.IdentifierTable

/-
  This file defines identifiers: a first character that may
  begin one, and further characters that may continue one.
-/

namespace ThriftTypings

namespace Text

-- Characters of Identifiers

/- May the character begin an identifier? -/
def beginsWord
    (c : Char) : Bool :=
  if c.toNat < 128 then
    c.isAlpha || c == '_'
  else
    wordStartRanges.any (within c.toNat)

/- May the character continue an identifier? -/
def continuesWord
    (c : Char) : Bool :=
  beginsWord c ||
    if c.toNat < 128 then
      c.isDigit
    else
      wordExtraRanges.any (within c.toNat)

/- What begins an identifier may also continue one. -/
theorem continuesWord_of_beginsWord
    {c : Char}
    (h : beginsWord c = true) :
    continuesWord c = true := by
  simp [continuesWord, h]

-- Identifiers

/- Is the text an identifier? The empty text is none. -/
def isWord : Text → Bool
  | [] => false
  | c :: rest => beginsWord c && rest.all continuesWord

end Text

end ThriftTypings
