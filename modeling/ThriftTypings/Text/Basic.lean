/-
  This file defines texts and the few operations on them
  that the rest of the library shares.

  A text is a list of code points, so that lengths, columns
  and cuts count code points.
-/

namespace ThriftTypings

-- Texts

/- A text is the list of its code points. -/
abbrev Text := List Char

namespace Text

/- Does the text begin with `word`? -/
def startsWith
    (text word : Text) : Bool :=
  word.isPrefixOf text

/- Does the text end with `word`? -/
def endsWith
    (text word : Text) : Bool :=
  word.isSuffixOf text

/-
  The pieces of a text between the occurrences of a
  separator. There is one piece more than there are
  separators, so the empty text has one empty piece.
-/
def pieces
    (separator : Char) : Text → List Text
  | [] => [[]]
  | c :: rest =>
      if c = separator then
        [] :: pieces separator rest
      else
        match pieces separator rest with
        | [] => [[c]]
        | piece :: more => (c :: piece) :: more

/- The parts one after the other, with `between` between. -/
def joined
    (between : Text)
    (parts : List Text) : Text :=
  List.intercalate between parts

/- What follows the last occurrence of a character. -/
def afterLast
    (mark : Char)
    (text : Text) : Text :=
  (text.reverse.takeWhile (· != mark)).reverse

/-
  What precedes the last occurrence of a character,
  that occurrence included.
-/
def throughLast
    (mark : Char)
    (text : Text) : Text :=
  (text.reverse.dropWhile (· != mark)).reverse

/- The order of texts: by code point, first difference. -/
def le : Text → Text → Bool
  | [], _ => true
  | _ :: _, [] => false
  | a :: as, b :: bs =>
      if a = b then le as bs else a.toNat < b.toNat

/- The order of lists of texts: by part, first difference. -/
def listLe : List Text → List Text → Bool
  | [], _ => true
  | _ :: _, [] => false
  | a :: as, b :: bs =>
      if a = b then listLe as bs else le a b

/- The decimal digits of a number. -/
def ofNat
    (n : Nat) : Text :=
  Nat.toDigits 10 n

/- The decimal digits of an integer, a sign only below 0. -/
def ofInt : Int → Text
  | .ofNat n => ofNat n
  | .negSucc n => '-' :: ofNat (n + 1)

end Text

end ThriftTypings
