import ThriftTypings.Idl.Members

/-
  This file defines how documents are read.

  At the top level the kinds of definitions are tried one
  after the other, each from the same place. When none
  fits, the failure that got furthest into the text is the
  one reported.
-/

namespace ThriftTypings

namespace Idl

-- Definitions

/- Reads what follows the keyword of a definition. -/
def definitionBody
    (order : Order)
    (before : List Comment) : Kind → Scan Definition
  | .nameSpace => do
      let scope ← identifier
      let name ← identifier
      pure (.nameSpace { scope, name, comments := before })
  | .inclusion => do
      let path ← stringLiteral
      pure (.inclusion { path, comments := before })
  | .struct => do
      let name ← identifier
      symbol '\x7b'
      let (fields, trailing) ←
        members (field order) (consumes_field order) '\x7d'
      pure (.struct
        { name, fields, comments := before, trailing })
  | .enum => do
      let name ← identifier
      symbol '\x7b'
      let (found, trailing) ←
        members enumMember consumes_enumMember '\x7d'
      pure (.enum
        { name, members := found, comments := before,
          trailing })
  | .service => do
      let name ← identifier
      symbol '\x7b'
      let (functions, trailing) ←
        members (function order) (consumes_function order)
          '\x7d'
      pure (.service
        { name, functions, comments := before, trailing })

theorem consumes_definitionBody
    (order : Order)
    (before : List Comment)
    (kind : Kind) :
    Scan.Consumes (definitionBody order before kind) := by
  have hName : Scan.Consumes identifier :=
    consumes_run _ _
  have hSymbol (c : Char) :=
    (consumes_symbol c).advances
  cases kind with
  | nameSpace =>
      exact hName.bind fun _ => hName.advances.bind fun _ =>
        Scan.advances_pure _
  | inclusion =>
      exact consumes_stringLiteral.bind fun _ =>
        Scan.advances_pure _
  | struct =>
      exact hName.bind fun _ => (hSymbol _).bind fun _ =>
        (consumes_members _ _).advances.bind fun _ =>
          Scan.advances_pure _
  | enum =>
      exact hName.bind fun _ => (hSymbol _).bind fun _ =>
        (consumes_members _ _).advances.bind fun _ =>
          Scan.advances_pure _
  | service =>
      exact hName.bind fun _ => (hSymbol _).bind fun _ =>
        (consumes_members _ _).advances.bind fun _ =>
          Scan.advances_pure _

/- Reads a definition of a given kind. -/
def definition
    (order : Order)
    (before : List Comment)
    (kind : Kind) : Scan Definition :=
  Scan.labelled (.definition kind) do
    keyword kind.word
    definitionBody order before kind

theorem consumes_definition
    (order : Order)
    (before : List Comment)
    (kind : Kind) :
    Scan.Consumes (definition order before kind) :=
  Scan.Consumes.labelled
    ((advances_keyword _).bind_consumes fun _ =>
      consumes_definitionBody order before kind) _

-- Alternatives

/-
  What trying alternatives comes to: what the first fitting
  one read, if any, and the furthest failure so far.
-/
structure Attempt (α : Type) where
  result : Option (α × Text)
  furthest : Option Failure

/- Tries alternatives from one place until one succeeds. -/
def tryEach
    {α κ : Type}
    (scan : κ → Scan α)
    (text : Text) :
    List κ → Option Failure → Attempt α
  | [], furthest => ⟨none, furthest⟩
  | choice :: more, furthest =>
      match scan choice text with
      | .ok result => ⟨some result, furthest⟩
      | .error failure =>
          tryEach scan text more
            (some (Failure.further furthest failure))

theorem exists_of_tryEach
    {α κ : Type}
    {scan : κ → Scan α}
    {text : Text}
    {choices : List κ}
    {earlier : Option Failure}
    {result : α × Text}
    (h : (tryEach scan text choices earlier).result =
      some result) :
    ∃ choice ∈ choices, scan choice text = .ok result := by
  induction choices generalizing earlier with
  | nil => simp [tryEach] at h
  | cons choice more ih =>
      simp only [tryEach] at h
      split at h
      · next hScan =>
          cases h
          exact ⟨choice, by simp, hScan⟩
      · obtain ⟨found, hMem, hScan⟩ := ih h
        exact ⟨found, by simp [hMem], hScan⟩

/-
  Reads a definition of any kind. Gives it, the rest and
  the furthest failure, or fails with the furthest one. That
  no kind fits at all counts as a failure at the start.
-/
def topDefinition
    (order : Order)
    (before : List Comment)
    (earlier : Option Failure)
    (text : Text) :
    Except Failure ((Definition × Text) × Option Failure) :=
  match
    tryEach (definition order before) text order.kinds earlier
  with
  | ⟨some result, furthest⟩ => .ok (result, furthest)
  | ⟨none, furthest⟩ =>
      .error
        (Failure.further furthest ⟨.noDefinition, [], text⟩)

section TopDefinition

variable {order : Order} {before : List Comment}
variable {earlier furthest : Option Failure}
variable {text rest : Text} {found : Definition}

/- A definition that is read is one of a kind that is tried. -/
theorem exists_of_topDefinition
    (h : topDefinition order before earlier text =
      .ok ((found, rest), furthest)) :
    ∃ kind ∈ order.kinds,
      definition order before kind text =
        .ok (found, rest) := by
  simp only [topDefinition] at h
  split at h
  · next hTry =>
      cases h
      exact exists_of_tryEach (congrArg Attempt.result hTry)
  · cases h

theorem topDefinition_suffix
    (h : topDefinition order before earlier text =
      .ok ((found, rest), furthest)) :
    rest <:+ text ∧ rest.length < text.length := by
  obtain ⟨kind, _, hScan⟩ := exists_of_topDefinition h
  exact consumes_definition order before kind _ _ _ hScan

end TopDefinition

-- Documents

/-
  Reads a document to the end of the text, given the
  furthest failure of what was tried before.
-/
def documentFrom
    (order : Order)
    (earlier : Option Failure)
    (text : Text) : Except Failure (Document × Text) :=
  match _hComments : comments text with
  | .error failure =>
      .error (Failure.further earlier failure)
  | .ok (before, []) =>
      .ok ({ body := [], trailing := before }, [])
  | .ok (before, c :: rest) =>
      match _hTop :
          topDefinition order before earlier (c :: rest) with
      | .error failure => .error failure
      | .ok ((found, after), furthest) =>
          match documentFrom order furthest after with
          | .error failure => .error failure
          | .ok (document, left) =>
              .ok
                ({ document with
                   body := found :: document.body }, left)
termination_by text.length
decreasing_by
  have hTop := (topDefinition_suffix _hTop).2
  have hComments :=
    (advances_comments _ _ _ _hComments).length_le
  omega

/- The document that a source holds, or the failure. -/
def Document.read
    (order : Order)
    (source : Text) : Except Failure Document :=
  match
    Scan.labelled .document (documentFrom order none) source
  with
  | .error failure => .error failure
  | .ok (document, _) => .ok document

/- The type that a source holds, or the failure. -/
def IdlType.read
    (order : Order)
    (source : Text) : Except Failure IdlType :=
  match Scan.labelled .type (completeType order) source with
  | .error failure => .error failure
  | .ok (type, _) => .ok type

/- Reads a document in the usual order of alternatives. -/
def Document.parse
    (source : Text)
    (file : Option Text := none) :
    Except ParseError Document :=
  match Document.read Order.usual source with
  | .error failure => .error (failure.report source file)
  | .ok document => .ok document

/- Reads a type in the usual order of alternatives. -/
def IdlType.parse
    (source : Text) : Except ParseError IdlType :=
  match IdlType.read Order.usual source with
  | .error failure => .error (failure.report source none)
  | .ok type => .ok type

end Idl

end ThriftTypings
