import ThriftTypings.Console.Emoji

/-
  This file defines how a console shows a text that is meant
  as it stands. A word in square brackets is a mark of style
  to a console, so such words are guarded; they come out as
  they are. What the guard does not reach is still read: a
  backslash in front of another bracket is dropped, and one
  alone at the end is doubled.
-/

namespace ThriftTypings

namespace Console

-- Marks

/- May the character begin the word of a mark? -/
def beginsMark
    (c : Char) : Bool :=
  Text.within c.toNat (0x61, 0x7A) || c == '#' || c == '/' ||
    c == '@'

/- May the character stand inside a mark? -/
def insideMark
    (c : Char) : Bool :=
  c != '[' && c != ']'

/- The mark at the front of a text, and what follows it. -/
def mark? : Text → Option (Text × Text)
  | '[' :: c :: rest =>
      if beginsMark c then
        match rest.dropWhile insideMark with
        | ']' :: after =>
            some
              ('[' :: c :: rest.takeWhile insideMark ++ [']'],
                after)
        | _ => none
      else
        none
  | _ => none

theorem length_mark?
    {text mark rest : Text}
    (h : mark? text = some (mark, rest)) :
    rest.length < text.length := by
  unfold mark? at h
  split at h
  · next c more =>
      have hLength :=
        (List.dropWhile_suffix (l := more)
          insideMark).length_le
      split at h
      · split at h
        · next hRest =>
            cases h
            rw [hRest] at hLength
            simp only [List.length_cons] at hLength ⊢
            omega
        · cases h
      · cases h
  · cases h

/-
  The marks of a text and the pieces between them, in turn.
  `before` is the piece that was begun.
-/
def cutAtMarks
    (before : Text) : Text → List Text
  | [] => [before]
  | c :: rest =>
      match _h : mark? (c :: rest) with
      | some (mark, after) =>
          before :: mark :: cutAtMarks [] after
      | none => cutAtMarks (before ++ [c]) rest
termination_by text => text.length
decreasing_by
  · exact length_mark? _h
  · simp

-- Texts as They Stand

/- A text without the backslashes in front of brackets. -/
def openBrackets : Text → Text
  | '\\' :: '[' :: rest => '[' :: openBrackets rest
  | c :: rest => c :: openBrackets rest
  | [] => []

/- A text whose lone backslash at the end is doubled. -/
def guardEnd
    (text : Text) : Text :=
  if Text.endsWith text ['\\'] &&
      !Text.endsWith text ['\\', '\\'] then
    text ++ ['\\']
  else
    text

/- How a console shows a text that is meant as it stands. -/
def asItStands
    (text : Text) : Text :=
  (cutAtMarks [] (guardEnd text)).flatMap fun piece =>
    withEmoji (openBrackets piece)

end Console

end ThriftTypings
