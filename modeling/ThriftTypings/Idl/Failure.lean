import ThriftTypings.Idl.Syntax

/-
  This file defines how reading a document fails: the cause,
  the chain of productions that were being read, and the
  place. It also defines the report of a failure and its
  wording.
-/

namespace ThriftTypings

namespace Idl

-- Productions

/- The productions that a failure may have happened in. -/
inductive Label where
  | document
  | definition (kind : Kind)
  | field
  | enumMember
  | function
  | type
  | annotations
  | comment
  deriving DecidableEq, Repr

/- The name of a production in a message. -/
def Label.text : Label → Text
  | .document => "document".toList
  | .definition kind => kind.word
  | .field => "field".toList
  | .enumMember => "enum member".toList
  | .function => "function".toList
  | .type => "type".toList
  | .annotations => "annotations".toList
  | .comment => "comment".toList

-- Causes

/- What is wrong at the place of a failure. -/
inductive Cause where
  | noSymbol (symbol : Char)
  | noKeyword (word : Text)
  | noIdentifier
  | noInteger
  | openString
  | openComment
  | noDefinition
  | afterType
  deriving DecidableEq, Repr

/- The message of a cause. -/
def Cause.text : Cause → Text
  | .noSymbol symbol =>
      "expected '".toList ++ [symbol] ++ "'".toList
  | .noKeyword word =>
      "expected keyword '".toList ++ word ++ "'".toList
  | .noIdentifier => "expected identifier".toList
  | .noInteger => "expected integer".toList
  | .openString => "unterminated string literal".toList
  | .openComment => "unterminated block comment".toList
  | .noDefinition =>
      "expected namespace, include, struct, enum or service".toList
  | .afterType => "unexpected input after type".toList

-- Failures

/-
  A failure: its cause, the productions around it with the
  outermost first, and the text from its place on.
-/
structure Failure where
  cause : Cause
  context : List Label
  rest : Text
  deriving DecidableEq, Repr

namespace Failure

/- The failure seen from inside one more production. -/
def inside
    (failure : Failure)
    (label : Label) : Failure :=
  { failure with context := label :: failure.context }

/-
  The failure that got furthest. Of two at the same place
  the later one counts, since it is the more general.
-/
def further
    (earlier : Option Failure)
    (later : Failure) : Failure :=
  match earlier with
  | none => later
  | some failure =>
      if later.rest.length ≤ failure.rest.length then
        later
      else
        failure

end Failure

-- Reports

/-
  A failure as it is reported: with the place as line and
  column, and the names of the productions.
-/
structure ParseError where
  message : Text
  file : Option Text := none
  context : List Text := []
  line : Int := 1
  column : Int := 1
  remaining : Text := []
  deriving DecidableEq, Repr

namespace ParseError

/- How much of the remaining text a message quotes. -/
def snippetLength : Nat := 40

/- Line ends in a quoted text are made visible. -/
def visibleBreak : Char → Text
  | '\r' => ['\\', 'r']
  | '\n' => ['\\', 'n']
  | c => [c]

/- The wording of a report. -/
def text
    (error : ParseError) : Text :=
  let place :=
    error.message ++ " at line ".toList ++
      Text.ofInt error.line ++ " column ".toList ++
      Text.ofInt error.column
  let within :=
    if error.context.isEmpty then []
    else
      " in ".toList ++
        Text.joined " > ".toList error.context
  let near :=
    if error.remaining.isEmpty then []
    else
      " near \"".toList ++
        (error.remaining.take snippetLength).flatMap
          visibleBreak ++
        "\"".toList
  place ++ within ++ near

end ParseError

namespace Failure

/- The part of the source in front of the failure. -/
def consumed
    (failure : Failure)
    (source : Text) : Text :=
  source.take (source.length - failure.rest.length)

/-
  The report of a failure: lines are counted by line feeds,
  columns from the last of them.
-/
def report
    (failure : Failure)
    (source : Text)
    (file : Option Text) : ParseError :=
  let before := failure.consumed source
  { message := failure.cause.text
    file := file
    context := failure.context.map Label.text
    line := Int.ofNat (before.count '\n' + 1)
    column :=
      Int.ofNat ((Text.afterLast '\n' before).length + 1)
    remaining := failure.rest }

end Failure

end Idl

end ThriftTypings
