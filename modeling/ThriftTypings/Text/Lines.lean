import ThriftTypings.Text.Basic

/-
  This file defines how running text falls into lines, and
  how the line ends of a file are made uniform.
-/

namespace ThriftTypings

namespace Text

-- Line Breaks

/-
  The characters that end a line: line feed, carriage
  return, the vertical tab and form feed, three of the
  information separators, next line, and the two Unicode
  separators.
-/
def isLineBreak
    (c : Char) : Bool :=
  c.toNat ∈
    [0x0A, 0x0B, 0x0C, 0x0D, 0x1C, 0x1D, 0x1E, 0x85,
     0x2028, 0x2029]

/-
  The lines of a text. A carriage return and a line feed
  together are one break. A break at the very end opens no
  further line, so the empty text has no lines.
-/
def lines : Text → List Text
  | [] => []
  | '\r' :: '\n' :: rest => [] :: lines rest
  | c :: rest =>
      if isLineBreak c then
        [] :: lines rest
      else
        match lines rest with
        | [] => [[c]]
        | line :: more => (c :: line) :: more

/-
  The lines of an entry of a comment. An entry always
  takes up at least one line.
-/
def entryLines
    (text : Text) : List Text :=
  match lines text with
  | [] => [[]]
  | line :: more => line :: more

-- Line Ends of Files

/-
  The text with every line end written as a line feed:
  a carriage return becomes one, and swallows the line feed
  that follows it.
-/
def uniformNewlines : Text → Text
  | [] => []
  | '\r' :: '\n' :: rest => '\n' :: uniformNewlines rest
  | '\r' :: rest => '\n' :: uniformNewlines rest
  | c :: rest => c :: uniformNewlines rest

end Text

end ThriftTypings
