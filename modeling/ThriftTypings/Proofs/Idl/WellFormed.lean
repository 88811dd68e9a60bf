import ThriftTypings.Idl.Parser
import ThriftTypings.Proofs.Idl.Lexemes
import ThriftTypings.Proofs.Text.Pieces

/-
  This file defines the well-formed documents, and proves
  that no other documents are read from a text.

  A well-formed document is one that can be written down:
  its names are words, its numbers are digits, its literals
  can be quoted, and its comments are stripped and can be
  closed.

  Key definitions include:
    * `Comment.WellFormed`
    * `IdlType.WellFormed`

  Key theorems include:
    * `wellFormed_of_field`
    * `wellFormed_of_documentFrom`
-/

namespace ThriftTypings

namespace Idl

variable {order : Order} {before : List Comment}

-- Well-Formed Documents

/- A number that is read as one. -/
def IsDigits
    (number : Text) : Prop :=
  number ≠ [] ∧ ∀ c ∈ number, c.isDigit = true

/- A number that may have a minus sign. -/
def IsSigned
    (number : Text) : Prop :=
  IsDigits number ∨
    ∃ digits, IsDigits digits ∧ number = '-' :: digits

/- A line of a comment. -/
def IsRemark
    (line : Text) : Prop :=
  Text.strip line = line ∧ '\n' ∉ line

/- The lines of a comment are stripped, and do not end it. -/
def Comment.WellFormed : Comment → Prop
  | .line text => IsRemark text
  | .block lines =>
      lines ≠ [] ∧ ∀ line ∈ lines,
        IsRemark line ∧ ¬ ['*', '/'] <:+: line

/- A name is not taken for a type that is built in. -/
def IdlType.WellFormed : IdlType → Prop
  | .primitive _ => True
  | .list element => element.WellFormed
  | .map key value => key.WellFormed ∧ value.WellFormed
  | .named name =>
      IsWord name ∧
        ∀ primitive : Primitive, primitive.word ≠ name

structure Annot.WellFormed
    (found : Annot) : Prop where
  name : IsWord found.name
  value : '"' ∉ found.value

/- Annotations, if there are any, are not none. -/
def AnnotationsWellFormed
    (annotations : Option (List Annot)) : Prop :=
  ∀ found ∈ annotations,
    found ≠ [] ∧ ∀ annot ∈ found, annot.WellFormed

/-
  The type of a field without a requiredness is not taken
  for one.
-/
structure Field.WellFormed
    (field : Field) : Prop where
  id : IsDigits field.id
  type : field.type.WellFormed
  bare : field.requiredness = none →
    ∀ requiredness : Requiredness,
      field.type ≠ .named requiredness.word
  name : IsWord field.name
  annotations : AnnotationsWellFormed field.annotations
  comments : ∀ comment ∈ field.comments, comment.WellFormed

structure EnumMember.WellFormed
    (found : EnumMember) : Prop where
  name : IsWord found.name
  value : ∀ value ∈ found.value, IsSigned value
  comments : ∀ comment ∈ found.comments, comment.WellFormed

structure Function.WellFormed
    (function : Function) : Prop where
  returnType : function.returnType.WellFormed
  name : IsWord function.name
  fields : ∀ field ∈ function.fields, field.WellFormed
  annotations : AnnotationsWellFormed function.annotations
  comments : ∀ comment ∈ function.comments,
    comment.WellFormed

/- The comments in front of a definition, and at its end. -/
def Definition.comments : Definition → List Comment
  | .nameSpace found => found.comments
  | .inclusion found => found.comments
  | .struct found => found.comments
  | .enum found => found.comments
  | .service found => found.comments

def Definition.trailing : Definition → List Comment
  | .nameSpace _ => []
  | .inclusion _ => []
  | .struct found => found.trailing
  | .enum found => found.trailing
  | .service found => found.trailing

/- Are the names and the members of a definition fine? -/
def Definition.ContentWellFormed : Definition → Prop
  | .nameSpace found => IsWord found.scope ∧ IsWord found.name
  | .inclusion found => '"' ∉ found.path
  | .struct found =>
      IsWord found.name ∧
        ∀ field ∈ found.fields, field.WellFormed
  | .enum found =>
      IsWord found.name ∧
        ∀ member ∈ found.members, member.WellFormed
  | .service found =>
      IsWord found.name ∧
        ∀ function ∈ found.functions, function.WellFormed

structure Definition.WellFormed
    (found : Definition) : Prop where
  content : found.ContentWellFormed
  comments : ∀ comment ∈ found.comments, comment.WellFormed
  trailing : ∀ comment ∈ found.trailing, comment.WellFormed

structure Document.WellFormed
    (document : Document) : Prop where
  body : ∀ found ∈ document.body, found.WellFormed
  trailing : ∀ comment ∈ document.trailing,
    comment.WellFormed

/- An order that leaves no alternative out. -/
structure Order.IsFull
    (order : Order) : Prop where
  kinds : ∀ kind, kind ∈ order.kinds
  primitives : ∀ primitive, primitive ∈ order.primitives
  generics : ∀ generic, generic ∈ order.generics
  requiredness : ∀ requiredness,
    requiredness ∈ order.requiredness

theorem Order.isFull_usual : Order.usual.IsFull where
  kinds kind := by cases kind <;> decide
  primitives primitive := by cases primitive <;> decide
  generics generic := by cases generic <;> decide
  requiredness requiredness := by
    cases requiredness <;> decide

-- Comments

theorem isRemark_strip
    {line : Text}
    (h : '\n' ∉ line) :
    IsRemark (Text.strip line) :=
  ⟨Text.strip_strip line,
    fun hMem => h ((Text.strip_infix line).subset hMem)⟩

theorem wellFormed_lineComment
    (text : Text) :
    (lineComment text).1.WellFormed := by
  refine isRemark_strip fun hMem => ?_
  simpa using List.mem_takeWhile_imp hMem

theorem wellFormed_blockComment
    {inner : Text}
    (h : ¬ ['*', '/'] <:+: inner) :
    (blockComment inner).WellFormed := by
  rcases Text.exists_pieces '\n' inner with
    ⟨first, more, hPieces⟩
  refine ⟨by simp [hPieces], ?_⟩
  intro line hLine
  rcases List.mem_map.mp hLine with ⟨piece, hPiece, rfl⟩
  refine ⟨isRemark_strip
    (Text.not_mem_of_mem_pieces hPiece), fun hEnd => h ?_⟩
  exact (hEnd.trans (Text.strip_infix piece)).trans
    (Text.infix_of_mem_pieces hPiece)

theorem wellFormed_of_nextComment
    {text rest : Text}
    {comment : Comment}
    (h : nextComment text = .ok (.more comment, rest)) :
    comment.WellFormed := by
  unfold nextComment at h
  split at h
  · cases h
    exact wellFormed_lineComment _
  · split at h
    · cases h
    · next hEnd =>
        cases h
        exact wellFormed_blockComment
          (blockEnd_eq_some_iff.mp hEnd).2
  · cases h

theorem wellFormed_of_comments
    {text rest : Text}
    {found : List Comment}
    (h : comments text = .ok (found, rest)) :
    ∀ comment ∈ found, comment.WellFormed :=
  forall_of_comments
    (fun _ _ _ => wellFormed_of_nextComment) h

theorem wellFormed_of_inlineComment
    {text rest : Text}
    {found : List Comment}
    (h : inlineComment text = .ok (found, rest)) :
    ∀ comment ∈ found, comment.WellFormed := by
  unfold inlineComment at h
  split at h
  · cases h
    exact List.forall_mem_singleton.mpr
      (wellFormed_lineComment _)
  · cases h
    simp

-- Types

/- A name that is read as a type stands there as a word. -/
theorem identifier_of_idlType
    {text name rest : Text}
    (h : idlType order text = .ok (.named name, rest)) :
    identifier text = .ok (name, rest) := by
  rcases idlType_eq_ok_iff.mp h with
    ⟨_, _, hSame⟩ | ⟨_, hComposed | hNamed⟩
  · cases hSame
  · rcases hComposed with ⟨generic, _, _, hComposed⟩
    have hParts := composed_eq_ok_iff.mp hComposed
    cases generic <;> simp at hParts
  · rcases hNamed with ⟨_, found, hName, hSame⟩
    cases hSame
    exact hName

/- A name that is read as a type is no keyword tried before. -/
theorem ne_of_keyword?_eq_none
    {word name text rest : Text}
    (hName : identifier text = .ok (name, rest))
    (h : keyword? word text = none) :
    word ≠ name := by
  rintro rfl
  rcases identifier_eq_ok_iff.mp hName with
    ⟨_, hEnds, hText⟩
  rw [keyword?_eq_some_iff.mpr ⟨hText, hEnds⟩] at h
  cases h

/- A name is taken for no type that is tried before it. -/
theorem wellFormed_of_identifier
    (hOrder : order.IsFull)
    {text name rest : Text}
    (hNone : firstKeyword? Primitive.word order.primitives
      text = none)
    (hName : identifier text = .ok (name, rest)) :
    (IdlType.named name).WellFormed :=
  ⟨(identifier_eq_ok_iff.mp hName).1, fun primitive =>
    ne_of_keyword?_eq_none hName
      (firstKeyword?_eq_none_iff.mp hNone primitive
        (hOrder.primitives primitive))⟩

theorem wellFormed_of_idlType
    (hOrder : order.IsFull)
    {text rest : Text}
    {type : IdlType}
    (h : idlType order text = .ok (type, rest)) :
    type.WellFormed := by
  refine idlType_induction (fun _ type _ => type.WellFormed)
    ?_ ?_ ?_ ?_ h
  · intros
    trivial
  · intro _ _ _ _ element _ hElement _
    exact hElement
  · intro _ _ _ _ _ _ key value _ hKey _ hValue _
    exact ⟨hKey, hValue⟩
  · intro _ _ _ hNone hName
    exact wellFormed_of_identifier hOrder hNone hName

-- Annotations

theorem wellFormed_of_annot
    {text rest : Text}
    {found : Annot}
    (h : annot text = .ok (found, rest)) :
    found.WellFormed := by
  rcases Scan.bind_eq_ok_iff.mp h with ⟨name, _, hName, h⟩
  rcases Scan.bind_eq_ok_iff.mp h with ⟨_, _, _, h⟩
  rcases Scan.bind_eq_ok_iff.mp h with
    ⟨value, _, hValue, hPure⟩
  cases hPure
  exact ⟨(identifier_eq_ok_iff.mp hName).1,
    (stringLiteral_eq_ok_iff.mp hValue).1⟩

theorem wellFormed_of_nextAnnot
    {text rest : Text}
    {found : Annot}
    (h : nextAnnot text = .ok (.more found, rest)) :
    found.WellFormed := by
  unfold nextAnnot at h
  split at h
  · rcases Scan.bind_eq_ok_iff.mp h with
      ⟨_, _, hAnnot, hPure⟩
    cases hPure
    exact wellFormed_of_annot hAnnot
  · cases h

theorem wellFormed_of_annotations?
    {text rest : Text}
    {annotations : Option (List Annot)}
    (h : annotations? text = .ok (annotations, rest)) :
    AnnotationsWellFormed annotations := by
  unfold annotations? at h
  split at h
  · rcases Scan.bind_eq_ok_iff.mp h with
      ⟨found, _, hList, hPure⟩
    cases hPure
    have h := Scan.labelled_eq_ok_iff.mp hList
    rcases Scan.bind_eq_ok_iff.mp h with
      ⟨first, _, hFirst, h⟩
    rcases Scan.bind_eq_ok_iff.mp h with
      ⟨⟨more, final⟩, _, hMore, h⟩
    rcases Scan.bind_eq_ok_iff.mp h with ⟨_, _, _, hPure⟩
    cases hPure
    have hAll : (∀ found ∈ more, found.WellFormed) ∧
        (fun _ : Unit => True) final :=
      Scan.forall_of_repeated
        (fun _ _ _ => wellFormed_of_nextAnnot)
        (fun _ _ _ _ => trivial) hMore
    rintro _ ⟨⟩
    exact ⟨by simp, List.forall_mem_cons.mpr
      ⟨wellFormed_of_annot hFirst, hAll.1⟩⟩
  · cases h
    rintro _ ⟨⟩

-- Members

/- Without a requiredness the text is left as it is. -/
theorem requiredness?_eq_none_iff
    {text rest : Text} :
    requiredness? order text = .ok (none, rest) ↔
      firstKeyword? Requiredness.word order.requiredness
          text = none ∧ text = rest := by
  unfold requiredness?
  split
  · next hFound => simp [hFound]
  · next hFound => simp [hFound]

theorem wellFormed_of_field
    (hOrder : order.IsFull)
    (hBefore : ∀ comment ∈ before, comment.WellFormed)
    {text rest : Text}
    {found : Field}
    (h : field order before text = .ok (found, rest)) :
    found.WellFormed := by
  have h := Scan.labelled_eq_ok_iff.mp h
  rcases Scan.bind_eq_ok_iff.mp h with ⟨id, _, hId, h⟩
  rcases Scan.bind_eq_ok_iff.mp h with ⟨_, _, _, h⟩
  rcases Scan.bind_eq_ok_iff.mp h with
    ⟨requiredness, _, hRequiredness, h⟩
  rcases Scan.bind_eq_ok_iff.mp h with ⟨type, _, hType, h⟩
  rcases Scan.bind_eq_ok_iff.mp h with ⟨name, _, hName, h⟩
  rcases Scan.bind_eq_ok_iff.mp h with
    ⟨annotations, _, hAnnotations, h⟩
  rcases Scan.bind_eq_ok_iff.mp h with ⟨_, _, _, h⟩
  rcases Scan.bind_eq_ok_iff.mp h with
    ⟨beside, _, hBeside, hPure⟩
  cases hPure
  refine
    { id := (run_eq_ok_iff.mp hId).1
      type := wellFormed_of_idlType hOrder hType
      bare := ?_
      name := (identifier_eq_ok_iff.mp hName).1
      annotations :=
        wellFormed_of_annotations? hAnnotations
      comments := List.forall_mem_append.mpr
        ⟨hBefore, wellFormed_of_inlineComment hBeside⟩ }
  rintro rfl word rfl
  rcases requiredness?_eq_none_iff.mp hRequiredness with
    ⟨hNone, rfl⟩
  exact ne_of_keyword?_eq_none
    (identifier_of_idlType hType)
    (firstKeyword?_eq_none_iff.mp hNone word
      (hOrder.requiredness word)) rfl

theorem isSigned_of_signedInteger
    {text value rest : Text}
    (h : signedInteger text = .ok (value, rest)) :
    IsSigned value := by
  unfold signedInteger at h
  split at h
  · rcases Scan.bind_eq_ok_iff.mp h with
      ⟨digits, _, hDigits, hPure⟩
    cases hPure
    exact .inr ⟨digits, (run_eq_ok_iff.mp hDigits).1, rfl⟩
  · exact .inl (run_eq_ok_iff.mp h).1

theorem wellFormed_of_enumMember
    (hBefore : ∀ comment ∈ before, comment.WellFormed)
    {text rest : Text}
    {found : EnumMember}
    (h : enumMember before text = .ok (found, rest)) :
    found.WellFormed := by
  have h := Scan.labelled_eq_ok_iff.mp h
  rcases Scan.bind_eq_ok_iff.mp h with ⟨name, _, hName, h⟩
  rcases Scan.bind_eq_ok_iff.mp h with ⟨value, _, hValue, h⟩
  rcases Scan.bind_eq_ok_iff.mp h with ⟨_, _, _, h⟩
  rcases Scan.bind_eq_ok_iff.mp h with
    ⟨beside, _, hBeside, hPure⟩
  cases hPure
  refine
    { name := (identifier_eq_ok_iff.mp hName).1
      value := ?_
      comments := List.forall_mem_append.mpr
        ⟨hBefore, wellFormed_of_inlineComment hBeside⟩ }
  unfold enumValue? at hValue
  split at hValue
  · rcases Scan.bind_eq_ok_iff.mp hValue with
      ⟨number, _, hNumber, hPure⟩
    cases hPure
    rintro _ ⟨⟩
    exact isSigned_of_signedInteger hNumber
  · cases hValue
    rintro _ ⟨⟩

section NextMember

variable {α : Type} {member : List Comment → Scan α}
  {closing : Char} {text rest : Text}

/- A member stands after comments and is not the end. -/
theorem nextMember_eq_more_iff
    {found : α} :
    nextMember member closing text =
        .ok (.more found, rest) ↔
      ∃ before c after,
        comments text = .ok (before, c :: after) ∧
          c ≠ closing ∧
            member before (c :: after) =
              .ok (found, rest) := by
  refine Scan.bind_eq_ok_iff.trans ?_
  constructor
  · rintro ⟨before, after, hBefore, h⟩
    cases after with
    | nil => cases h
    | cons c after =>
        by_cases hEnd : c = closing
        · simp [hEnd] at h
        · simp only [hEnd, if_false] at h
          rcases Scan.bind_eq_ok_iff.mp h with
            ⟨_, _, hFound, hPure⟩
          cases hPure
          exact ⟨before, c, after, hBefore, hEnd, hFound⟩
  · rintro ⟨before, c, after, hBefore, hEnd, hFound⟩
    refine ⟨before, c :: after, hBefore, ?_⟩
    simp only [hEnd, if_false]
    exact Scan.bind_eq_ok_iff.mpr ⟨found, rest, hFound, rfl⟩

/- The end stands after the comments in front of it. -/
theorem nextMember_eq_last_iff
    {before : List Comment} :
    nextMember member closing text =
        .ok (.last before, rest) ↔
      comments text = .ok (before, closing :: rest) := by
  refine Scan.bind_eq_ok_iff.trans ?_
  constructor
  · rintro ⟨found, after, hBefore, h⟩
    cases after with
    | nil => cases h
    | cons c after =>
        by_cases hEnd : c = closing
        · subst hEnd
          simp only [if_true] at h
          cases h
          exact hBefore
        · simp only [hEnd, if_false] at h
          rcases Scan.bind_eq_ok_iff.mp h with
            ⟨_, _, _, hPure⟩
          cases hPure
  · intro hBefore
    exact ⟨before, closing :: rest, hBefore, if_pos rfl⟩

end NextMember

/- Members that are read are as each of them is read. -/
theorem wellFormed_of_members
    {α : Type}
    {member : List Comment → Scan α}
    {consumes : ∀ before, Scan.Consumes (member before)}
    {good : α → Prop}
    (hMember : ∀ before,
      (∀ comment ∈ before, comment.WellFormed) →
        ∀ text found rest,
          member before text = .ok (found, rest) →
            good found)
    {closing : Char}
    {text rest : Text}
    {found : List α}
    {trailing : List Comment}
    (h : members member consumes closing text =
      .ok ((found, trailing), rest)) :
    (∀ value ∈ found, good value) ∧
      ∀ comment ∈ trailing, comment.WellFormed := by
  have hMore (text : Text) (value : α) (rest : Text)
      (hNext : nextMember member closing text =
        .ok (.more value, rest)) : good value := by
    rcases nextMember_eq_more_iff.mp hNext with
      ⟨before, _, _, hBefore, _, hFound⟩
    exact hMember before (wellFormed_of_comments hBefore)
      _ _ _ hFound
  have hLast (text : Text) (before : List Comment)
      (rest : Text)
      (hNext : nextMember member closing text =
        .ok (.last before, rest)) :
      ∀ comment ∈ before, comment.WellFormed :=
    wellFormed_of_comments (nextMember_eq_last_iff.mp hNext)
  exact Scan.forall_of_repeated hMore hLast h

theorem wellFormed_of_function
    (hOrder : order.IsFull)
    (hBefore : ∀ comment ∈ before, comment.WellFormed)
    {text rest : Text}
    {found : Function}
    (h : function order before text = .ok (found, rest)) :
    found.WellFormed := by
  have h := Scan.labelled_eq_ok_iff.mp h
  rcases Scan.bind_eq_ok_iff.mp h with
    ⟨returnType, _, hType, h⟩
  rcases Scan.bind_eq_ok_iff.mp h with ⟨name, _, hName, h⟩
  rcases Scan.bind_eq_ok_iff.mp h with ⟨_, _, _, h⟩
  rcases Scan.bind_eq_ok_iff.mp h with
    ⟨⟨fields, dangling⟩, _, hFields, h⟩
  rcases Scan.bind_eq_ok_iff.mp h with
    ⟨annotations, _, hAnnotations, h⟩
  rcases Scan.bind_eq_ok_iff.mp h with ⟨_, _, _, h⟩
  rcases Scan.bind_eq_ok_iff.mp h with
    ⟨beside, _, hBeside, hPure⟩
  cases hPure
  rcases wellFormed_of_members
    (fun _ hLead _ _ _ => wellFormed_of_field hOrder hLead)
    hFields with
    ⟨hParameters, hDangling⟩
  exact
    { returnType := wellFormed_of_idlType hOrder hType
      name := (identifier_eq_ok_iff.mp hName).1
      fields := hParameters
      annotations :=
        wellFormed_of_annotations? hAnnotations
      comments := List.forall_mem_append.mpr
        ⟨hBefore, List.forall_mem_append.mpr
          ⟨hDangling,
            wellFormed_of_inlineComment hBeside⟩⟩ }

-- Definitions

theorem wellFormed_of_definitionBody
    (hOrder : order.IsFull)
    (hBefore : ∀ comment ∈ before, comment.WellFormed)
    {kind : Kind}
    {text rest : Text}
    {found : Definition}
    (h : definitionBody order before kind text =
      .ok (found, rest)) :
    found.WellFormed := by
  have hNone : ∀ comment ∈ ([] : List Comment),
      comment.WellFormed := by simp
  cases kind with
  | nameSpace =>
      rcases Scan.bind_eq_ok_iff.mp h with
        ⟨scope, _, hScope, h⟩
      rcases Scan.bind_eq_ok_iff.mp h with
        ⟨name, _, hName, hPure⟩
      cases hPure
      exact ⟨⟨(identifier_eq_ok_iff.mp hScope).1,
        (identifier_eq_ok_iff.mp hName).1⟩, hBefore, hNone⟩
  | inclusion =>
      rcases Scan.bind_eq_ok_iff.mp h with
        ⟨path, _, hPath, hPure⟩
      cases hPure
      exact ⟨(stringLiteral_eq_ok_iff.mp hPath).1,
        hBefore, hNone⟩
  | struct =>
      rcases Scan.bind_eq_ok_iff.mp h with
        ⟨name, _, hName, h⟩
      rcases Scan.bind_eq_ok_iff.mp h with ⟨_, _, _, h⟩
      rcases Scan.bind_eq_ok_iff.mp h with
        ⟨⟨fields, trailing⟩, _, hFields, hPure⟩
      cases hPure
      rcases wellFormed_of_members
        (fun _ hLead _ _ _ =>
          wellFormed_of_field hOrder hLead) hFields with
        ⟨hAll, hTrailing⟩
      exact ⟨⟨(identifier_eq_ok_iff.mp hName).1, hAll⟩,
        hBefore, hTrailing⟩
  | enum =>
      rcases Scan.bind_eq_ok_iff.mp h with
        ⟨name, _, hName, h⟩
      rcases Scan.bind_eq_ok_iff.mp h with ⟨_, _, _, h⟩
      rcases Scan.bind_eq_ok_iff.mp h with
        ⟨⟨found, trailing⟩, _, hMembers, hPure⟩
      cases hPure
      rcases wellFormed_of_members
        (fun _ hLead _ _ _ => wellFormed_of_enumMember hLead)
        hMembers with
        ⟨hAll, hTrailing⟩
      exact ⟨⟨(identifier_eq_ok_iff.mp hName).1, hAll⟩,
        hBefore, hTrailing⟩
  | service =>
      rcases Scan.bind_eq_ok_iff.mp h with
        ⟨name, _, hName, h⟩
      rcases Scan.bind_eq_ok_iff.mp h with ⟨_, _, _, h⟩
      rcases Scan.bind_eq_ok_iff.mp h with
        ⟨⟨functions, trailing⟩, _, hFunctions, hPure⟩
      cases hPure
      rcases wellFormed_of_members
        (fun _ hLead _ _ _ =>
          wellFormed_of_function hOrder hLead) hFunctions
        with
        ⟨hAll, hTrailing⟩
      exact ⟨⟨(identifier_eq_ok_iff.mp hName).1, hAll⟩,
        hBefore, hTrailing⟩

/- A definition is read after the keyword of its kind. -/
theorem exists_of_definition
    {kind : Kind}
    {text : Text}
    {result : Definition × Text}
    (h : definition order before kind text = .ok result) :
    ∃ after, keyword kind.word text = .ok ((), after) ∧
      definitionBody order before kind after =
        .ok result := by
  rcases Scan.bind_eq_ok_iff.mp
    (Scan.labelled_eq_ok_iff.mp h) with
    ⟨_, after, hKeyword, hBody⟩
  exact ⟨after, hKeyword, hBody⟩

theorem wellFormed_of_topDefinition
    (hOrder : order.IsFull)
    (hBefore : ∀ comment ∈ before, comment.WellFormed)
    {earlier furthest : Option Failure}
    {text rest : Text}
    {found : Definition}
    (h : topDefinition order before earlier text =
      .ok ((found, rest), furthest)) :
    found.WellFormed := by
  rcases exists_of_topDefinition h with ⟨kind, _, hKind⟩
  rcases exists_of_definition hKind with ⟨_, _, hBody⟩
  exact wellFormed_of_definitionBody hOrder hBefore hBody

-- Documents

/- A document is its first definition, and then the others. -/
theorem documentFrom_eq
    (order : Order)
    (earlier : Option Failure)
    (text : Text) :
    documentFrom order earlier text =
      match comments text with
      | .error failure =>
          .error (Failure.further earlier failure)
      | .ok (before, []) =>
          .ok ({ body := [], trailing := before }, [])
      | .ok (before, c :: rest) =>
          match
            topDefinition order before earlier (c :: rest)
          with
          | .error failure => .error failure
          | .ok ((found, after), furthest) =>
              match documentFrom order furthest after with
              | .error failure => .error failure
              | .ok (document, left) =>
                  .ok
                    ({ document with
                       body := found :: document.body },
                      left) := by
  rw [documentFrom]
  split
  · next hComments => rw [hComments]
  · next hComments => rw [hComments]
  · next hComments =>
      rw [hComments]
      split
      · next hTop => simp only [hTop]
      · next hTop =>
          dsimp only
          rewrite [hTop]
          rfl

/- What was read of a document, and from where. -/
theorem cases_of_documentFrom
    {earlier : Option Failure}
    {text left : Text}
    {body : List Definition}
    {trailing : List Comment}
    (h : documentFrom order earlier text =
      .ok (⟨body, trailing⟩, left)) :
    match body with
    | [] => comments text = .ok (trailing, []) ∧ left = []
    | found :: more => ∃ before inner after furthest,
        comments text = .ok (before, inner) ∧
          topDefinition order before earlier inner =
            .ok ((found, after), furthest) ∧
          documentFrom order furthest after =
            .ok (⟨more, trailing⟩, left) := by
  rw [documentFrom_eq] at h
  split at h
  · cases h
  · next hComments =>
      cases h
      exact ⟨hComments, rfl⟩
  · next hComments =>
      split at h
      · cases h
      · next hTop =>
          split at h
          · cases h
          · next hRest =>
              cases h
              exact ⟨_, _, _, _, hComments, hTop, hRest⟩

theorem wellFormed_of_documentFrom
    (hOrder : order.IsFull)
    {earlier : Option Failure}
    {text rest : Text}
    {document : Document}
    (h : documentFrom order earlier text =
      .ok (document, rest)) :
    document.WellFormed := by
  rcases document with ⟨body, trailing⟩
  induction body generalizing earlier text with
  | nil =>
      exact ⟨by simp,
        wellFormed_of_comments (cases_of_documentFrom h).1⟩
  | cons first more ih =>
      rcases cases_of_documentFrom h with
        ⟨before, inner, after, furthest, hComments, hTop,
          hMore⟩
      have hFirst := wellFormed_of_topDefinition hOrder
        (wellFormed_of_comments hComments) hTop
      have hRest := ih hMore
      exact ⟨List.forall_mem_cons.mpr ⟨hFirst, hRest.body⟩,
        hRest.trailing⟩

/- A document that is read is well-formed. -/
theorem Document.wellFormed_of_read
    (hOrder : order.IsFull)
    {source : Text}
    {document : Document}
    (h : Document.read order source = .ok document) :
    document.WellFormed := by
  unfold Document.read at h
  split at h
  · cases h
  · next hRead =>
      cases h
      exact wellFormed_of_documentFrom hOrder
        (Scan.labelled_eq_ok_iff.mp hRead)

/- Parsing tries alternatives in the usual order. -/
theorem Document.parse_eq_ok_iff
    {source : Text}
    {file : Option Text}
    {document : Document} :
    Document.parse source file = .ok document ↔
      Document.read Order.usual source = .ok document := by
  unfold Document.parse
  cases Document.read Order.usual source with
  | error failure => simp
  | ok found => simp

end Idl

end ThriftTypings
