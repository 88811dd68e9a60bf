import ThriftTypings.Idl.Productions

/-
  This file defines the calls of a parser. A parser may be
  called again and again. Every call starts over at the
  front of the source, with no failure recorded.

  A type is read by calls inside each other. Where only so
  many of these may be open at once, a call may be broken
  off, with no answer at all.
-/

namespace ThriftTypings

namespace Idl

namespace Parser

variable {α : Type}

/- The parser at the start of a call. -/
def started
    (parser : Parser) : Parser :=
  { parser with
    rest := parser.source
    furthest := none }

/-
  What a call answers. Of all failures the furthest one is
  reported.
-/
def answer :
    Except Failure α × Parser →
      Except ParseError α × Parser
  | (.ok value, after) => (.ok value, after)
  | (.error failure, after) =>
      let reported := after.furthest.getD failure
      (.error (reported.report after.source after.file),
        after)

/- One call, of a production with its label. -/
def call
    (label : Label)
    (production : Act α)
    (parser : Parser) :
    Except ParseError α × Parser :=
  answer (Act.labelled label production parser.started)

/- Reads the source as a document. -/
def document
    (parser : Parser) :
    Except ParseError Document × Parser :=
  parser.call .document (Act.document Order.usual)

/- Reads the source as a type. -/
def type
    (parser : Parser) :
    Except ParseError IdlType × Parser :=
  parser.call .type (Act.completeType Order.usual)

end Parser

-- Calls Inside Each Other

/- An act that may be broken off. -/
def Limited (α : Type) : Type :=
  Parser → Option (Except Failure α × Parser)

namespace Limited

variable {α β : Type}

/- An act that is not broken off. -/
def ofAct
    (act : Act α) : Limited α :=
  fun parser => some (act parser)

/- The end of everything. -/
def brokenOff : Limited α :=
  fun _ => none

/- One act after the other. -/
def andThen
    (first : Limited α)
    (next : α → Limited β) : Limited β :=
  fun parser =>
    match first parser with
    | none => none
    | some (.error failure, after) =>
        some (.error failure, after)
    | some (.ok value, after) => next value after

instance : Monad Limited where
  pure value := ofAct (pure value)
  bind := andThen

/- The act inside a production, which is closed after it. -/
def labelled
    (label : Label)
    (act : Limited α) : Limited α :=
  fun parser =>
    let opened :=
      { parser with labels := parser.labels ++ [label] }
    (act opened).map fun (outcome, after) =>
      (outcome,
        { after with labels := after.labels.dropLast })

/- Reads the rest of a composed type after its opening. -/
def composed
    (nested : Limited IdlType) : Generic → Limited IdlType
  | .list => do
      let element ← nested
      ofAct (Act.symbol '>')
      pure (.list element)
  | .map => do
      let key ← nested
      ofAct (Act.symbol ',')
      let value ← nested
      ofAct (Act.symbol '>')
      pure (.map key value)

/- Reads a type, given how to read the types inside it. -/
def typeAround
    (order : Order)
    (nested : Limited IdlType) : Limited IdlType :=
  labelled .type do
    match ←
      ofAct (Act.accepting?
        (fun found => keyword? found.word) order.primitives)
    with
    | some primitive => pure (.primitive primitive)
    | none =>
        match ←
          ofAct (Act.accepting? generic? order.generics)
        with
        | some generic => composed nested generic
        | none => ofAct Act.namedType

/- Reads a type with at most so many calls open at once. -/
def type
    (order : Order) : Nat → Limited IdlType
  | 0 => brokenOff
  | calls + 1 => typeAround order (type order calls)

/- The same with nothing after it but white space. -/
def completeType
    (order : Order)
    (calls : Nat) : Limited IdlType := do
  let found ← type order calls
  ofAct do
    Act.passing skipSpace
    if ← Act.ended then pure found else Act.fail .afterType

end Limited

/- An interpreter allows so many open calls in all. -/
def callLimit : Nat := 1000

/-
  Reads the source as a type, with at most so many calls for
  types open at once.
-/
def Parser.typeWithin
    (calls : Nat)
    (parser : Parser) :
    Option (Except ParseError IdlType × Parser) :=
  (Limited.labelled .type
    (Limited.completeType Order.usual calls)
    parser.started).map answer

end Idl

end ThriftTypings
