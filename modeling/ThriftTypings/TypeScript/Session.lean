import ThriftTypings.Idl.Parser
import ThriftTypings.TypeScript.Generator

/-
  This file defines sessions with one generator, whose
  document is edited and built in turn.
-/

namespace ThriftTypings

namespace TypeScript

namespace Session

open Idl

-- Requests and Replies

/- What may be asked in a session. -/
inductive Request where
  | build
  | append (source : Text)
  | pop
  | reverse
  deriving DecidableEq, Repr

/-
  What is answered: a text, the number of definitions after
  an edit, or why there is neither.
-/
inductive Reply where
  | built (text : Text)
  | definitions (count : Nat)
  | unreadable (error : ParseError)
  | unbuildable (fault : IntegerFault)
  | nothingToPop
  deriving DecidableEq, Repr

/- The reply to a build. -/
def Reply.ofBuild : Except IntegerFault Text → Reply
  | .error fault => .unbuildable fault
  | .ok text => .built text

-- Steps

/- The generator after an edit, and the reply to that. -/
def edited
    (generator : Generator)
    (body : List Definition) : Reply × Generator :=
  (.definitions body.length,
    { generator with
      document := { generator.document with body := body } })

/-
  One request. An appended source adds its definitions and
  not its trailing comments.
-/
def step
    (generator : Generator) : Request → Reply × Generator
  | .build =>
      let (outcome, after) := generator.build {}
      (.ofBuild outcome, after)
  | .append source =>
      match Document.parse source with
      | .error error => (.unreadable error, generator)
      | .ok more =>
          edited generator
            (generator.document.body ++ more.body)
  | .pop =>
      if generator.document.body.isEmpty then
        (.nothingToPop, generator)
      else
        edited generator generator.document.body.dropLast
  | .reverse =>
      edited generator generator.document.body.reverse

/- Several requests in turn, to one generator. -/
def runFrom :
    Generator → List Request → List Reply
  | _, [] => []
  | generator, request :: more =>
      let (reply, after) := step generator request
      reply :: runFrom after more

/- A session on a document, with a generator of its own. -/
def run
    (document : Document)
    (requests : List Request) : List Reply :=
  runFrom (.new document) requests

end Session

end TypeScript

end ThriftTypings
