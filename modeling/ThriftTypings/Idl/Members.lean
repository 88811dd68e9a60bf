import ThriftTypings.Idl.Comments
import ThriftTypings.Idl.Types

/-
  This file defines how the members of definitions are
  read: fields, enum members and functions, with their
  annotations and comments.

  A member keeps the comments in front of it, and the one
  that follows it on its line.
-/

namespace ThriftTypings

namespace Idl

-- Annotations

/- Reads one annotation: a name and a quoted value. -/
def annot : Scan Annot := do
  let name ← identifier
  symbol '='
  let value ← stringLiteral
  pure ⟨name, value⟩

theorem consumes_annot :
    Scan.Consumes annot :=
  Scan.Consumes.bind (consumes_run _ _) fun _ =>
    (consumes_symbol _).advances.bind fun _ =>
      consumes_stringLiteral.advances.bind fun _ =>
        Scan.advances_pure _

/- Reads a comma and the annotation after it, if any. -/
def nextAnnot : Scan (Round Annot Unit) :=
  fun text =>
    match skipSpace text with
    | ',' :: rest =>
        (do
          let found ← annot
          pure (.more found) : Scan (Round Annot Unit))
          rest
    | rest => .ok (.last (), rest)

theorem advances_nextAnnot :
    Scan.Advances nextAnnot := by
  intro text value rest h
  have hSkip := skipSpace_suffix text
  simp only [nextAnnot] at h
  split at h
  · next more hText =>
      rw [hText] at hSkip
      have hRest := (consumes_annot.advances.bind
        fun _ => Scan.advances_pure _) _ _ _ h
      exact hRest.trans
        ((List.suffix_cons _ _).trans hSkip)
  · cases h
    exact hSkip

theorem progresses_nextAnnot :
    Scan.Progresses nextAnnot := by
  intro text value rest h
  refine ⟨advances_nextAnnot _ _ _ h, ?_⟩
  have hSkip := (skipSpace_suffix text).length_le
  simp only [nextAnnot] at h
  split at h
  · next more hText =>
      rw [hText] at hSkip
      have hRest := (consumes_annot.bind
        fun _ => Scan.advances_pure _) _ _ _ h
      have hLength := hRest.2
      simp only [List.length_cons] at hSkip
      omega
  · cases h

/- Reads the annotations after an opening parenthesis. -/
def annotList : Scan (List Annot) :=
  Scan.labelled .annotations do
    let first ← annot
    let (more, _) ←
      Scan.repeated nextAnnot progresses_nextAnnot
    symbol ')'
    pure (first :: more)

theorem advances_annotList :
    Scan.Advances annotList :=
  Scan.Advances.labelled
    (consumes_annot.advances.bind fun _ =>
      (Scan.advances_repeated progresses_nextAnnot
        advances_nextAnnot).bind fun _ =>
        (consumes_symbol _).advances.bind fun _ =>
          Scan.advances_pure _) _

/- Reads annotations in parentheses, if they stand next. -/
def annotations? : Scan (Option (List Annot)) :=
  fun text =>
    match skipSpace text with
    | '(' :: rest =>
        (do
          let found ← annotList
          pure (some found) :
            Scan (Option (List Annot))) rest
    | _ => .ok (none, text)

theorem advances_annotations? :
    Scan.Advances annotations? := by
  intro text value rest h
  have hSkip := skipSpace_suffix text
  simp only [annotations?] at h
  split at h
  · next more hText =>
      rw [hText] at hSkip
      have hRest := (advances_annotList.bind
        fun _ => Scan.advances_pure _) _ _ _ h
      exact hRest.trans
        ((List.suffix_cons _ _).trans hSkip)
  · cases h
    exact List.suffix_rfl

-- Fields

/- Reads a requiredness, if one stands next. -/
def requiredness?
    (order : Order) : Scan (Option Requiredness) :=
  fun text =>
    match
      firstKeyword? Requiredness.word order.requiredness text
    with
    | some (found, rest) => .ok (some found, rest)
    | none => .ok (none, text)

theorem advances_requiredness?
    (order : Order) :
    Scan.Advances (requiredness? order) := by
  intro text value rest h
  simp only [requiredness?] at h
  split at h
  · next hFound =>
      cases h
      exact (firstKeyword?_suffix hFound).1
  · cases h
    exact List.suffix_rfl

/- Reads a field, with the comments in front of it given. -/
def field
    (order : Order)
    (before : List Comment) : Scan Field :=
  Scan.labelled .field do
    let id ← integer
    symbol ':'
    let requiredness ← requiredness? order
    let type ← idlType order
    let name ← identifier
    let annotations ← annotations?
    separator
    let beside ← inlineComment
    pure
      { id, requiredness, type, name, annotations,
        comments := before ++ beside }

theorem consumes_field
    (order : Order)
    (before : List Comment) :
    Scan.Consumes (field order before) :=
  Scan.Consumes.labelled
    (Scan.Consumes.bind (consumes_run _ _) fun _ =>
      (consumes_symbol _).advances.bind fun _ =>
      (advances_requiredness? order).bind fun _ =>
      (consumes_idlType order).advances.bind fun _ =>
      Scan.Advances.bind (consumes_run _ _).advances fun _ =>
      advances_annotations?.bind fun _ =>
      advances_separator.bind fun _ =>
      advances_inlineComment.bind fun _ =>
        Scan.advances_pure _) _

-- Enum Members

/- Reads an integer that may have a minus sign in front. -/
def signedInteger : Scan Text :=
  fun text =>
    match skipSpace text with
    | '-' :: rest =>
        (do
          let digits ← integer
          pure ('-' :: digits) : Scan Text) rest
    | rest => integer rest

theorem advances_signedInteger :
    Scan.Advances signedInteger := by
  intro text value rest h
  have hSkip := skipSpace_suffix text
  simp only [signedInteger] at h
  split at h
  · next more hText =>
      rw [hText] at hSkip
      have hRest := (Scan.Advances.bind
        (consumes_run _ _).advances
        fun _ => Scan.advances_pure _) _ _ _ h
      exact hRest.trans
        ((List.suffix_cons _ _).trans hSkip)
  · exact ((consumes_run _ _) _ _ _ h).1.trans hSkip

/- Reads the value of an enum member, if it has one. -/
def enumValue? : Scan (Option Text) :=
  fun text =>
    match skipSpace text with
    | '=' :: rest =>
        (do
          let value ← signedInteger
          pure (some value) : Scan (Option Text)) rest
    | _ => .ok (none, text)

theorem advances_enumValue? :
    Scan.Advances enumValue? := by
  intro text value rest h
  have hSkip := skipSpace_suffix text
  simp only [enumValue?] at h
  split at h
  · next more hText =>
      rw [hText] at hSkip
      have hRest := (advances_signedInteger.bind
        fun _ => Scan.advances_pure _) _ _ _ h
      exact hRest.trans
        ((List.suffix_cons _ _).trans hSkip)
  · cases h
    exact List.suffix_rfl

/- Reads an enum member. -/
def enumMember
    (before : List Comment) : Scan EnumMember :=
  Scan.labelled .enumMember do
    let name ← identifier
    let value ← enumValue?
    separator
    let beside ← inlineComment
    pure { name, value, comments := before ++ beside }

theorem consumes_enumMember
    (before : List Comment) :
    Scan.Consumes (enumMember before) :=
  Scan.Consumes.labelled
    (Scan.Consumes.bind (consumes_run _ _) fun _ =>
      advances_enumValue?.bind fun _ =>
      advances_separator.bind fun _ =>
      advances_inlineComment.bind fun _ =>
        Scan.advances_pure _) _

-- Lists of Members

variable {α : Type}

/-
  Reads the comments in front of the next member and then
  either that member or the closing symbol.
-/
def nextMember
    (member : List Comment → Scan α)
    (closing : Char) : Scan (Round α (List Comment)) := do
  let before ← comments
  fun text =>
    match text with
    | [] => .error ⟨.noSymbol closing, [], []⟩
    | c :: rest =>
        if c = closing then
          .ok (.last before, rest)
        else
          (do
            let found ← member before
            pure (.more found) :
              Scan (Round α (List Comment))) (c :: rest)

theorem consumes_nextMember
    {member : List Comment → Scan α}
    (h : ∀ before, Scan.Consumes (member before))
    (closing : Char) :
    Scan.Consumes (nextMember member closing) := by
  refine advances_comments.bind_consumes fun before => ?_
  intro text value rest eq
  dsimp only at eq
  split at eq
  · cases eq
  · split at eq
    · cases eq
      exact ⟨List.suffix_cons _ _, by simp⟩
    · exact ((h before).bind
        fun _ => Scan.advances_pure _) _ _ _ eq

theorem progresses_nextMember
    {member : List Comment → Scan α}
    (h : ∀ before, Scan.Consumes (member before))
    (closing : Char) :
    Scan.Progresses (nextMember member closing) :=
  fun _ _ _ eq => consumes_nextMember h closing _ _ _ eq

/-
  Reads members up to and over the closing symbol. Gives
  them and the comments in front of that symbol.
-/
def members
    (member : List Comment → Scan α)
    (consumes : ∀ before, Scan.Consumes (member before))
    (closing : Char) : Scan (List α × List Comment) :=
  Scan.repeated (nextMember member closing)
    (progresses_nextMember consumes closing)

theorem consumes_members
    {member : List Comment → Scan α}
    (consumes : ∀ before, Scan.Consumes (member before))
    (closing : Char) :
    Scan.Consumes (members member consumes closing) :=
  Scan.consumes_repeated _
    (consumes_nextMember consumes closing)

-- Functions

/-
  Reads a function. Comments in front of its closing
  parenthesis belong to the function.
-/
def function
    (order : Order)
    (before : List Comment) : Scan Function :=
  Scan.labelled .function do
    let returnType ← idlType order
    let name ← identifier
    symbol '('
    let (fields, dangling) ←
      members (field order) (consumes_field order) ')'
    let annotations ← annotations?
    separator
    let beside ← inlineComment
    pure
      { returnType, name, fields, annotations,
        comments := before ++ (dangling ++ beside) }

theorem consumes_function
    (order : Order)
    (before : List Comment) :
    Scan.Consumes (function order before) :=
  Scan.Consumes.labelled
    ((consumes_idlType order).bind fun _ =>
      Scan.Advances.bind (consumes_run _ _).advances fun _ =>
      (consumes_symbol _).advances.bind fun _ =>
      (consumes_members (consumes_field order)
        _).advances.bind fun _ =>
      advances_annotations?.bind fun _ =>
      advances_separator.bind fun _ =>
      advances_inlineComment.bind fun _ =>
        Scan.advances_pure _) _

end Idl

end ThriftTypings
