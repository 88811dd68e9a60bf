import ThriftTypings.Text.Integer

/-
  This file defines how a count is written: decimal digits
  with single underscores between them, perhaps after a plus
  sign and zeros, perhaps followed by a point and zeros.
-/

namespace ThriftTypings

namespace Text

-- Margins

/- White space in the narrow sense: no separators. -/
def isMargin
    (c : Char) : Bool :=
  isBlank c && !within c.toNat (0x1C, 0x1F)

/- The text between its margins. -/
def betweenMargins
    (text : Text) : Text :=
  ((text.dropWhile isMargin).reverse.dropWhile
    isMargin).reverse

-- Counts

/- The text after a plus sign, if there is one. -/
def afterPlus : Text → Text
  | '+' :: rest => rest
  | text => text

/-
  The text after zeros at its front. Underscores among the
  zeros do not matter.
-/
def afterZeros : Text → Text
  | '0' :: rest =>
      rest.dropWhile fun c => c == '0' || c == '_'
  | text => text

/- The text without a point and zeros at its end. -/
def beforePoint
    (text : Text) : Text :=
  match text.dropWhile (· != '.') with
  | '.' :: '0' :: zeros =>
      if zeros.all (· == '0') then text.takeWhile (· != '.')
      else text
  | _ => text

/- The digits of groups with an underscore between them. -/
def ungrouped
    (text : Text) : Option Text :=
  let groups := pieces '_' text
  if groups.all fun group =>
      !group.isEmpty && group.all Char.isDigit then
    some groups.flatten
  else
    none

/-
  The positive count that a text denotes, if it denotes
  one. It may not have too many digits.
-/
def toCount
    (text : Text) : Option Int :=
  let body :=
    beforePoint (afterZeros (afterPlus (betweenMargins text)))
  match ungrouped body with
  | none => none
  | some digits =>
      if digitLimit < digits.length then none
      else
        match toInteger digits with
        | .error _ => none
        | .ok count => if count < 1 then none else some count

end Text

end ThriftTypings
