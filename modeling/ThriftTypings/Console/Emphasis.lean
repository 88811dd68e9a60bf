import ThriftTypings.Console.Pattern

/-
  This file defines which stretches of a text a console
  emphasises: tags, assignments, brackets, addresses, calls,
  constants, numbers, paths, quotations and links. Each kind
  has a pattern.
-/

namespace ThriftTypings

namespace Console

open Pattern

-- Tags, Assignments and Brackets

/- A character of a word, and one of some more. -/
def wordChar : Pattern :=
  .char inWord

def wordCharOr
    (more : String) : Pattern :=
  .char fun c => inWord c || more.toList.contains c

/- A tag, from its opening to the last closing bracket. -/
def tag : Pattern :=
  inTurn
    [.mark (exactly '<'),
     .mark (.many true (wordCharOr "-.:|")),
     .mark (.many true (.char fun _ => true)),
     .mark (exactly '>')]

/- A name, an equals sign, and perhaps a value. -/
def assignment : Pattern :=
  inTurn
    [.mark (between 1 50 wordChar),
     exactly '=',
     optional
       (.mark
         (inTurn
           [optional (exactly '"'),
            oneOrMore wordChar,
            optional (exactly '"')]))]

/- A bracket of any kind but the angular one. -/
def bracket : Pattern :=
  .mark (oneOf "[]\x7b\x7d()")

-- Addresses

/- A decimal and a hexadecimal digit of ASCII. -/
def digit : Pattern :=
  .char Char.isDigit

def hexDigit : Pattern :=
  oneOf "0123456789abcdefABCDEF"

/- Four decimal numbers with dots between them. -/
def dottedAddress : Pattern :=
  let number := between 1 3 digit
  inTurn
    [times 3 (.seq number (exactly '.')), number]

/- Up to eight hexadecimal numbers with colons between. -/
def colonAddress : Pattern :=
  let number := between 1 4 hexDigit
  .seq
    (between 1 7
      (inTurn
        [number, exactly ':', optional (exactly ':')]))
    number

/-
  The address of a device: so many bytes with dashes or
  colons between them, or groups of two with dots.
-/
def deviceAddress
    (bytes groups : Nat) : Pattern :=
  let byte := between 1 2 hexDigit
  let group := times 4 hexDigit
  firstOf
    [.seq (times (bytes - 1) (.seq byte (exactly '-'))) byte,
     .seq (times (bytes - 1) (.seq byte (exactly ':'))) byte,
     .seq (times (groups - 1) (.seq group (exactly '.')))
       group]

/- A unique identifier: digits in five groups. -/
def uniqueId : Pattern :=
  let group := times 4 hexDigit
  inTurn
    [times 2 group,
     times 3 (.seq (exactly '-') group),
     exactly '-',
     times 3 group]

-- Numbers

/- Digits, with a point among them or without one. -/
def decimal : Pattern :=
  inTurn
    [oneOrMore digit,
     optional (exactly '.'),
     .many true digit]

/- A power of ten, if there is one. -/
def power
    (eager : Bool) : Pattern :=
  let value := .char Text.isDecimal
  optional
    (inTurn
      [exactly 'e',
       optional (oneOf "-+"),
       value,
       .many eager value])

/- The front of a number, which no word may touch. -/
def numberFront : Pattern :=
  inTurn
    [.notAfter inWord,
     optional (exactly '-'),
     decimal,
     power false]

/- A number with an imaginary part, or with that alone. -/
def complexNumber : Pattern :=
  inTurn
    [numberFront,
     optional
       (inTurn [oneOf "-+", decimal, power true]),
     exactly 'j']

/- A decimal number up to the end of a word, or any other. -/
def number : Pattern :=
  .either
    (.seq numberFront (.edge true))
    (.seq (literal "0x") (.many true hexDigit))

-- Words, Paths and Quotations

/- The name of a call, in front of its bracket. -/
def call : Pattern :=
  .seq (.mark (.many false (wordCharOr "."))) (exactly '(')

/- A constant that stands as a word of its own. -/
def constant
    (name : String) : Pattern :=
  inTurn [.edge true, .mark (literal name), .edge true]

/- A path up to its last slash, and the name after it. -/
def path : Pattern :=
  let letter := wordCharOr "-._+"
  .seq
    (.mark
      (inTurn
        [.edge false,
         .many true (.seq (exactly '/') (oneOrMore letter)),
         exactly '/']))
    (.mark (.many true letter))

/- The shortest quotation with a quote, within a line. -/
def quotation
    (quote : String) : Pattern :=
  inTurn
    [optional (exactly 'b'),
     literal quote,
     .many false (.char (· != '\n')),
     .notAfter (· == '\\'),
     literal quote]

/- A quotation, which neither word nor backslash touches. -/
def quoted : Pattern :=
  .seq
    (.notAfter fun c => c == '\\' || inWord c)
    (.mark
      (firstOf
        [quotation "'''", quotation "'",
         quotation "\"\"\"", quotation "\""]))

/- A link to a page or a file. -/
def link : Pattern :=
  inTurn
    [firstOf
       [literal "file", literal "https", literal "http",
        literal "ws", literal "wss"],
     literal "://",
     .many true
       (.char fun c =>
         c.isAlphanum ||
           "-$_+!`(),.?/;:&=%#~".toList.contains c)]

-- Emphasis

/- Whatever else is emphasised; the first kind counts. -/
def item : Pattern :=
  firstOf
    [.mark dottedAddress,
     .mark colonAddress,
     .mark (deviceAddress 8 4),
     .mark (deviceAddress 6 3),
     .mark uniqueId,
     call,
     constant "True",
     constant "False",
     constant "None",
     .mark (literal "..."),
     .mark complexNumber,
     .mark number,
     path,
     quoted,
     .mark link]

/- The stretches of a text that are emphasised. -/
def emphasised
    (text : Text) : List Stretch :=
  [tag, assignment, bracket, item].flatMap fun pattern =>
    pattern.stretches text

end Console

end ThriftTypings
