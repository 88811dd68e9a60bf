import ThriftTypings.Console.EmojiTable
import ThriftTypings.Text.Blank

/-
  This file defines how a console shows emoji that are
  written by name. A code is a name between colons. It may
  end by asking for the form as text or as emoji.
-/

namespace ThriftTypings

namespace Console

-- Names

/-
  The small letter of a capital, among the letters that
  occur in names. Two signs count as capitals too.
-/
def smallLetter
    (c : Char) : Char :=
  if c = Char.ofNat 0x212A then 'k'
  else if c = Char.ofNat 0x212B then 'å'
  else if Text.within c.toNat (0x41, 0x5A) ||
      Text.within c.toNat (0xC0, 0xD6) ||
      Text.within c.toNat (0xD8, 0xDE) then
    Char.ofNat (c.toNat + 0x20)
  else c

/- The emoji with a name, in any letters. -/
def named?
    (name : Text) : Option Text :=
  emojis.lookup (name.map smallLetter)

/- The endings that ask for a form, and what they add. -/
def forms : List (Text × Text) :=
  [("-emoji".toList, [Char.ofNat 0xFE0F]),
   ("-text".toList, [Char.ofNat 0xFE0E])]

/- The emoji that the inside of a code stands for. -/
def emoji?
    (inside : Text) : Option Text :=
  match
    forms.find? fun form => Text.endsWith inside form.1
  with
  | some form =>
      let name :=
        inside.take (inside.length - form.1.length)
      (named? name).map fun found => found ++ form.2
  | none => named? inside

-- Codes

/- May the character stand inside a code? -/
def insideCode
    (c : Char) : Bool :=
  c != ':' && !Text.isBlank c

/-
  The inside of a code whose first colon has been read, and
  what follows the code.
-/
def code?
    (text : Text) : Option (Text × Text) :=
  match text.dropWhile insideCode with
  | ':' :: rest => some (text.takeWhile insideCode, rest)
  | _ => none

theorem length_code?
    {text inside rest : Text}
    (h : code? text = some (inside, rest)) :
    rest.length < text.length := by
  have hLength :=
    (List.dropWhile_suffix (l := text) insideCode).length_le
  simp only [code?] at h
  split at h
  · next hRest =>
      cases h
      rw [hRest] at hLength
      exact hLength
  · cases h

/-
  A text with its codes replaced by emoji. A code without
  an emoji stays, and its last colon begins no other code.
-/
def withEmoji : Text → Text
  | [] => []
  | c :: rest =>
      if c = ':' then
        match _h : code? rest with
        | some (inside, after) =>
            (emoji? inside).getD (c :: inside ++ [c]) ++
              withEmoji after
        | none => c :: withEmoji rest
      else
        c :: withEmoji rest
termination_by text => text.length
decreasing_by
  · have := length_code? _h
    simp only [List.length_cons]
    omega
  · simp only [List.length_cons]
    omega
  · simp only [List.length_cons]
    omega

end Console

end ThriftTypings
