import ThriftTypings.Text.Blank
import ThriftTypings.Text.Shown

/-
  This file defines how an integer is read from a text.

  A sign is optional, single underscores may stand between
  digits, and blanks around the whole are ignored. Beyond
  ASCII, every blank and every decimal digit of any script
  counts. Numbers of more than `digitLimit` digits are
  refused.
-/

namespace ThriftTypings

namespace Text

-- Decimal Digits

/-
  The zeros of the decimal digits beyond ASCII. In each
  script the nine other digits follow its zero.
-/
def zeros : List Nat :=
  [0x660, 0x6F0, 0x7C0, 0x966, 0x9E6, 0xA66, 0xAE6, 0xB66,
   0xBE6, 0xC66, 0xCE6, 0xD66, 0xDE6, 0xE50, 0xED0, 0xF20,
   0x1040, 0x1090, 0x17E0, 0x1810, 0x1946, 0x19D0, 0x1A80,
   0x1A90, 0x1B50, 0x1BB0, 0x1C40, 0x1C50, 0xA620, 0xA8D0,
   0xA900, 0xA9D0, 0xA9F0, 0xAA50, 0xABF0, 0xFF10, 0x104A0,
   0x10D30, 0x11066, 0x110F0, 0x11136, 0x111D0, 0x112F0,
   0x11450, 0x114D0, 0x11650, 0x116C0, 0x11730, 0x118E0,
   0x11950, 0x11C50, 0x11D50, 0x11DA0, 0x16A60, 0x16AC0,
   0x16B50, 0x1D7CE, 0x1D7D8, 0x1D7E2, 0x1D7EC, 0x1D7F6,
   0x1E140, 0x1E2F0, 0x1E950, 0x1FBF0]

/- The value of an ASCII digit. -/
def digit?
    (c : Char) : Option Nat :=
  if c.isDigit then some (c.toNat - '0'.toNat) else none

/-
  The ASCII character that a character stands for inside a
  number: a blank beyond ASCII is a space, and a digit of
  any script is the digit of its value.
-/
def plainChar
    (c : Char) : Char :=
  if c.toNat < 127 then c
  else if isBlank c then ' '
  else
    match
      zeros.find? fun first => within c.toNat (first, first + 9)
    with
    | some first =>
        Char.ofNat ('0'.toNat + (c.toNat - first))
    | none => c

-- Reading

/- The blanks that may stand around a number. -/
def isNumberBlank
    (c : Char) : Bool :=
  within c.toNat (0x09, 0x0D) || c == ' '

/-
  Reads digits with single underscores between them. Gives
  the digits and the rest, or nothing if an underscore does
  not stand between two digits. `allowed` says whether an
  underscore may come next.
-/
def digitRun : Bool → Text → Option (List Nat × Text)
  | allowed, [] => if allowed then some ([], []) else none
  | allowed, c :: rest =>
      match digit? c with
      | some d =>
          match digitRun true rest with
          | some (digits, more) => some (d :: digits, more)
          | none => none
      | none =>
          if c = '_' then
            if allowed then digitRun false rest else none
          else if allowed then some ([], c :: rest)
          else none

/- The number that a list of digits denotes. -/
def digitsValue
    (digits : List Nat) : Nat :=
  digits.foldl (fun value digit => value * 10 + digit) 0

/- The greatest number of digits that is read. -/
def digitLimit : Nat := 4300

end Text

/- Why a text does not give an integer. -/
inductive IntegerFault where
  | malformed (text : Text)
  | tooLong (digits : Nat)
  deriving DecidableEq, Repr

namespace Text

/- The sign in front of the digits, and the rest. -/
def signed : Text → Bool × Text
  | '-' :: rest => (true, rest)
  | '+' :: rest => (false, rest)
  | rest => (false, rest)

/-
  The integer that a text denotes. Too many digits are
  reported before anything that may follow them.
-/
def toInteger
    (text : Text) : Except IntegerFault Int :=
  let plain := (text.map plainChar).dropWhile isNumberBlank
  let (negative, body) := signed plain
  match digitRun false body with
  | none => .error (.malformed text)
  | some (digits, rest) =>
      if digitLimit < digits.length then
        .error (.tooLong digits.length)
      else if rest.all isNumberBlank then
        let value := Int.ofNat (digitsValue digits)
        .ok (if negative then -value else value)
      else
        .error (.malformed text)

end Text

-- Wording

/- The message of a fault. A shown text is cut short. -/
def IntegerFault.message : IntegerFault → Text
  | .malformed text =>
      "invalid literal for int() with base 10: ".toList ++
        (Text.shown text).take 200
  | .tooLong digits =>
      "Exceeds the limit (".toList ++
        Text.ofNat Text.digitLimit ++
        " digits) for integer string conversion: value has ".toList ++
        Text.ofNat digits ++
        " digits; use sys.set_int_max_str_digits() to increase the limit".toList

end ThriftTypings
