import ThriftTypings.Idl.Session
import ThriftTypings.Proofs.Idl.Lexemes

/-
  This file says what holds of all productions at once.

  A law is a property of acts that holds of the lexemes and
  is kept when acts are put together. It may depend on the
  production that an act is a part of, so a production in
  another one has to be one of its parts.

  Key definitions include:
    * `Label.parts`
    * `Act.Law`

  Key theorems include:
    * `Act.Law.definition`
    * `Act.Law.completeType`
-/

namespace ThriftTypings

namespace Idl

-- Laws

/- The productions that are read directly inside another. -/
def Label.parts : Label → List Label
  | .document => Kind.all.map .definition ++ [.comment]
  | .definition .struct => [.field, .comment]
  | .definition .enum => [.enumMember, .comment]
  | .definition .service => [.function, .comment]
  | .function => [.type, .field, .annotations, .comment]
  | .field => [.type, .annotations]
  | .type => [.type]
  | _ => []

/- The symbols of the language, quotes and slashes apart. -/
def marks : Text :=
  ":=-,<>()\x7b\x7d".toList

theorem past?_eq_some_iff
    {word text rest : Text} :
    past? word text = some rest ↔ text = word ++ rest := by
  constructor
  · intro h
    obtain ⟨hStarts, hRest⟩ :=
      Option.ite_none_right_eq_some.mp h
    cases hRest
    obtain ⟨rest, rfl⟩ :=
      List.isPrefixOf_iff_prefix.mp hStarts
    rw [List.drop_left]
  · exact past?_eq_some word

namespace Act

/- It does not matter how deep a type may be at most. -/
theorem typeWithin_eq_type
    (order : Order)
    {depth : Nat}
    {parser : Parser}
    (h : parser.rest.length ≤ depth) :
    typeWithin order depth parser = type order parser := by
  rw [type, follows_typeWithin, follows_typeWithin,
    typeWithin_congr order h (Nat.le_refl _)]

/- What holds of acts as parts of a production. -/
structure Law
    (P : Label → {α : Type} → Act α → Prop) : Prop where
  pure : ∀ {label α} (value : α), P label (pure value)
  bind : ∀ {label α β} {act : Act α} {next : α → Act β},
    P label act → (∀ value, P label (next value)) →
      P label (act >>= next)
  fail : ∀ {label α} (cause : Cause),
    P label (fail cause : Act α)
  labelled : ∀ {outer inner α} {act : Act α},
    inner ∈ outer.parts → P inner act →
      P outer (labelled inner act)
  repeated : ∀ {label α β} {step : Act (Round α β)}
    (progress : Progresses step), P label step →
      P label (repeated step progress)
  ended : ∀ {label}, P label ended
  skip : ∀ {label}, P label (passing skipSpace)
  separator : ∀ {label}, P label separator
  span : ∀ {label} {belongs : Char → Bool},
    (∀ c, belongs c = true → isDelimiter c = false) →
      P label (taking fun text =>
        (text.takeWhile belongs, text.dropWhile belongs))
  mark : ∀ {label c}, c ∈ marks →
    P label (accepting (past? [c]))
  ahead : ∀ {label c}, c ∈ marks →
    P label
      (accepting fun text => past? [c] (skipSpace text))
  word : ∀ {label word}, IsWord word →
    P label (accepting (keyword? word))
  generic : ∀ {label} (generic : Generic),
    P label (accepting (generic? generic))
  literal : ∀ {label}, P label stringLiteral
  comment : ∀ {label}, .comment ∈ label.parts →
    P label nextComment
  beside : ∀ {label}, P label inlineComment
  depth : ∀ {label} {order : Order},
    (∀ depth, P label (typeWithin order depth)) →
      P label (type order)

theorem either
    {α : Type}
    {P : Act α → Prop}
    {yes no : Act α}
    (hYes : P yes)
    (hNo : P no)
    (found : Bool) :
    P (if found then yes else no) := by
  cases found with
  | true => exact hYes
  | false => exact hNo

namespace Law

variable {P : Label → {α : Type} → Act α → Prop}
variable {label : Label}
variable (law : Law P)
include law

-- Lexemes

theorem symbol
    {c : Char}
    (h : c ∈ marks) :
    P label (symbol c) :=
  law.bind law.skip fun _ =>
    law.bind (law.mark h) (either (law.pure _) (law.fail _))

theorem keyword
    {word : Text}
    (h : IsWord word) :
    P label (keyword word) :=
  law.bind law.skip fun _ =>
    law.bind (law.word h) (either (law.pure _) (law.fail _))

theorem run
    {belongs : Char → Bool}
    (h : ∀ c, belongs c = true → isDelimiter c = false)
    (cause : Cause) :
    P label (run belongs cause) :=
  law.bind law.skip fun _ => law.bind (law.span h) fun _ =>
    either (law.fail _) (law.pure _) _

theorem identifier :
    P label identifier :=
  law.run (by simp) _

theorem integer :
    P label integer :=
  law.run (fun _ => isDelimiter_of_isDigit) _

theorem accepting?
    {κ : Type}
    {look : κ → Text → Option Text}
    (h : ∀ choice, P label (accepting (look choice)))
    (choices : List κ) :
    P label (accepting? look choices) := by
  induction choices with
  | nil => exact law.pure _
  | cons choice more ih =>
      exact law.bind (h choice) (either (law.pure _) ih)

theorem comments
    (h : .comment ∈ label.parts) :
    P label comments :=
  law.bind (law.repeated _ (law.comment h)) fun _ =>
    law.pure _

-- Types and Annotations

theorem composed
    {nested : Act IdlType}
    (h : P label nested)
    (generic : Generic) :
    P label (composed nested generic) := by
  have hSymbol (c : Char) (hMark : c ∈ marks)
      {type : IdlType} :
      P label (do Act.symbol c; Pure.pure type) :=
    law.bind (law.symbol hMark) fun _ => law.pure _
  cases generic with
  | list =>
      exact law.bind h fun _ => hSymbol _ (by decide)
  | map =>
      exact law.bind h fun _ =>
        law.bind (law.symbol (by decide)) fun _ =>
          law.bind h fun _ => hSymbol _ (by decide)

theorem typeAround
    (order : Order)
    {nested : Act IdlType}
    (h : P .type nested)
    (hLabel : .type ∈ label.parts) :
    P label (typeAround order nested) := by
  refine law.labelled hLabel (law.bind
    (law.accepting? (fun primitive =>
      law.word primitive.isWord_word) _) fun found => ?_)
  cases found with
  | some primitive => exact law.pure _
  | none =>
      refine law.bind (law.accepting? law.generic _)
        fun found => ?_
      cases found with
      | some generic => exact law.composed h generic
      | none =>
          exact law.bind law.identifier fun _ => law.pure _

theorem type
    (order : Order)
    (h : .type ∈ label.parts) :
    P label (type order) := by
  refine law.depth fun depth => ?_
  induction depth generalizing label with
  | zero =>
      exact law.labelled h
        (law.bind law.identifier fun _ => law.pure _)
  | succ depth ih =>
      exact law.typeAround order (ih (by decide)) h

theorem completeType
    (order : Order) :
    P .type (completeType order) :=
  law.bind (law.type order (by decide)) fun _ =>
    law.bind law.skip fun _ => law.bind law.ended
      (either (law.pure _) (law.fail _))

theorem annot :
    P label annot :=
  law.bind law.identifier fun _ =>
    law.bind (law.symbol (by decide)) fun _ =>
      law.bind law.literal fun _ => law.pure _

theorem annotations?
    (h : .annotations ∈ label.parts) :
    P label annotations? := by
  have hNext : P .annotations nextAnnot :=
    law.bind law.skip fun _ =>
      law.bind (law.mark (by decide)) (either
        (law.bind law.annot fun _ => law.pure _)
        (law.pure _))
  have hList : P label annotList :=
    law.labelled h (law.bind law.annot fun _ =>
      law.bind (law.repeated _ hNext) fun _ =>
        law.bind (law.symbol (by decide)) fun _ =>
          law.pure _)
  exact law.bind (law.ahead (by decide)) (either
    (law.bind hList fun _ => law.pure _) (law.pure _))

-- Members

theorem field
    (order : Order)
    (before : List Comment)
    (h : .field ∈ label.parts) :
    P label (field order before) :=
  law.labelled h
    (law.bind law.integer fun _ =>
    law.bind (law.symbol (by decide)) fun _ =>
    law.bind (law.accepting? (fun found =>
      law.word (Requiredness.isWord_word found)) _) fun _ =>
    law.bind (law.type order (by decide)) fun _ =>
    law.bind law.identifier fun _ =>
    law.bind (law.annotations? (by decide)) fun _ =>
    law.bind law.separator fun _ =>
    law.bind law.beside fun _ => law.pure _)

theorem enumMember
    (before : List Comment)
    (h : .enumMember ∈ label.parts) :
    P label (enumMember before) := by
  have hSigned : P .enumMember signedInteger :=
    law.bind law.skip fun _ =>
      law.bind (law.mark (by decide)) (either
        (law.bind law.integer fun _ => law.pure _)
        law.integer)
  have hValue : P .enumMember enumValue? :=
    law.bind (law.ahead (by decide)) (either
      (law.bind hSigned fun _ => law.pure _) (law.pure _))
  exact law.labelled h
    (law.bind law.identifier fun _ =>
    law.bind hValue fun _ =>
    law.bind law.separator fun _ =>
    law.bind law.beside fun _ => law.pure _)

theorem members
    {α : Type}
    {member : List Comment → Act α}
    {closing : Char}
    (progress : Progresses (nextMember member closing))
    (h : ∀ before, P label (member before))
    (hComment : .comment ∈ label.parts)
    (hClosing : closing ∈ marks) :
    P label (members member closing progress) :=
  law.repeated progress
    (law.bind (law.comments hComment) fun before =>
      law.bind (law.mark hClosing) (either (law.pure _)
        (law.bind law.ended (either (law.fail _)
          (law.bind (h before) fun _ => law.pure _)))))

theorem function
    (order : Order)
    (before : List Comment)
    (h : .function ∈ label.parts) :
    P label (function order before) :=
  law.labelled h
    (law.bind (law.type order (by decide)) fun _ =>
    law.bind law.identifier fun _ =>
    law.bind (law.symbol (by decide)) fun _ =>
    law.bind (law.members _
      (fun before => law.field order before (by decide))
      (by decide) (by decide)) fun _ =>
    law.bind (law.annotations? (by decide)) fun _ =>
    law.bind law.separator fun _ =>
    law.bind law.beside fun _ => law.pure _)

-- Definitions

/- A block of members, with its name in front. -/
theorem block
    {α : Type}
    {member : List Comment → Act α}
    (progress : Progresses (nextMember member '\x7d'))
    (h : ∀ before, P label (member before))
    (hComment : .comment ∈ label.parts)
    (make : Text → List α × List Comment → Definition) :
    P label (do
      let name ← Act.identifier
      Act.symbol '\x7b'
      let found ← Act.members member '\x7d' progress
      Pure.pure (make name found)) :=
  law.bind law.identifier fun _ =>
    law.bind (law.symbol (by decide)) fun _ =>
      law.bind (law.members progress h hComment (by decide))
        fun _ => law.pure _

/- The law holds of definitions, in a document. -/
theorem definition
    (order : Order)
    (before : List Comment)
    (kind : Kind) :
    P .document (definition order before kind) := by
  refine law.labelled (by cases kind <;> decide)
    (law.bind (law.keyword kind.isWord_word) fun _ => ?_)
  cases kind with
  | nameSpace =>
      exact law.bind law.identifier fun _ =>
        law.bind law.identifier fun _ => law.pure _
  | inclusion =>
      exact law.bind law.literal fun _ => law.pure _
  | struct =>
      exact law.block _
        (fun before => law.field order before (by decide))
        (by decide) _
  | enum =>
      exact law.block _
        (fun before => law.enumMember before (by decide))
        (by decide) _
  | service =>
      exact law.block _
        (fun before =>
          law.function order before (by decide))
        (by decide) _

end Law

end Act

end Idl

end ThriftTypings
