import ThriftTypings.Idl.Syntax

/-
  This file defines visitors. A visitor walks a document and
  has a hook for each kind of node. The usual hook of a node
  goes on to the nodes below it, in order. A visitor may
  have hooks of its own, which change their node in place
  and then use the usual hook or leave it out.
-/

namespace ThriftTypings

namespace Idl

-- Visitors

/- The kinds of nodes that have a hook. -/
inductive Hook where
  | definition (kind : Kind)
  | structField
  | enumMember
  | function
  | functionField
  deriving DecidableEq, Repr

/- What is done at a node. It may change the node. -/
abbrev Visiting (σ α : Type) :=
  α → StateM σ α

/- A hook in place of the usual one, which it may use. -/
abbrev Override (σ α : Type) :=
  Visiting σ α → Visiting σ α

/- A visitor with a state. By default its hooks are usual. -/
structure Visitor (σ : Type) where
  nameSpace : Override σ NamespaceDef := id
  inclusion : Override σ IncludeDef := id
  struct : Override σ StructDef := id
  enum : Override σ EnumDef := id
  service : Override σ ServiceDef := id
  function : Override σ Function := id
  structField : Override σ Field := id
  functionField : Override σ Field := id
  enumMember : Override σ EnumMember := id

namespace Visitor

variable {σ : Type}
variable (visitor : Visitor σ)

/- A visit to a function. The usual one is to its fields. -/
def visitFunction : Visiting σ Function :=
  visitor.function fun found => do
    let fields ←
      found.fields.mapM (visitor.functionField pure)
    pure { found with fields }

/- A visit to a definition, with the hook of its kind. -/
def visitDefinition : Visiting σ Definition
  | .nameSpace found =>
      .nameSpace <$> visitor.nameSpace pure found
  | .inclusion found =>
      .inclusion <$> visitor.inclusion pure found
  | .struct found =>
      let usual (found : StructDef) := do
        let fields ←
          found.fields.mapM (visitor.structField pure)
        pure { found with fields }
      .struct <$> visitor.struct usual found
  | .enum found =>
      let usual (found : EnumDef) := do
        let members ←
          found.members.mapM (visitor.enumMember pure)
        pure { found with members }
      .enum <$> visitor.enum usual found
  | .service found =>
      let usual (found : ServiceDef) := do
        let functions ←
          found.functions.mapM visitor.visitFunction
        pure { found with functions }
      .service <$> visitor.service usual found

/- A visit to all definitions of a document. -/
def visitDocument : Visiting σ Document :=
  fun document => do
    let body ← document.body.mapM visitor.visitDefinition
    pure { document with body }

end Visitor

-- Recorded Walks

/- A node that was reached, and its name. -/
structure Visit where
  hook : Hook
  name : Text
  deriving DecidableEq, Repr

/-
  How to walk: the text added to each name that is reached,
  and the kinds of nodes not to go on from.
-/
structure Manner where
  suffix : Text
  stops : List Hook
  deriving DecidableEq, Repr

/-
  A hook that records its node, adds to the name of it, and
  goes on as usual unless the walk stops there.
-/
def recording
    {α : Type}
    (manner : Manner)
    (hook : Hook)
    (name : α → Text)
    (renamed : Text → α → α) :
    Override (List Visit) α :=
  fun usual node => do
    modify (· ++ [⟨hook, name node⟩])
    let after := renamed (name node ++ manner.suffix) node
    if hook ∈ manner.stops then pure after else usual after

/- The visitor that records every node it reaches. -/
def recorder
    (manner : Manner) : Visitor (List Visit) where
  nameSpace := recording manner (.definition .nameSpace)
    (·.name) fun name found => { found with name }
  inclusion := recording manner (.definition .inclusion)
    (·.path) fun path found => { found with path }
  struct := recording manner (.definition .struct)
    (·.name) fun name found => { found with name }
  enum := recording manner (.definition .enum)
    (·.name) fun name found => { found with name }
  service := recording manner (.definition .service)
    (·.name) fun name found => { found with name }
  function := recording manner .function
    (·.name) fun name found => { found with name }
  structField := recording manner .structField
    (·.name) fun name found => { found with name }
  functionField := recording manner .functionField
    (·.name) fun name found => { found with name }
  enumMember := recording manner .enumMember
    (·.name) fun name found => { found with name }

/- The nodes that a walk reaches, and what it leaves. -/
def Document.walk
    (manner : Manner)
    (document : Document) : List Visit × Document :=
  ((recorder manner).visitDocument document []).swap

-- Includes

/- The visitor that collects the paths of includes. -/
def collector : Visitor (List Text) where
  inclusion := fun _ found => do
    modify (·.insert found.path)
    pure found

/- The included paths, each once. -/
def Document.collected
    (document : Document) : List Text :=
  (collector.visitDocument document []).2

/- The included paths in ascending order. -/
def Document.includes
    (document : Document) : List Text :=
  document.collected.mergeSort Text.le

end Idl

end ThriftTypings
