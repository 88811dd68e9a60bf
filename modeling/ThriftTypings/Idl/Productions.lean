import ThriftTypings.Idl.Act
import ThriftTypings.Idl.Parser

/-
  This file defines the productions of the language as acts
  of a parser. Each one opens its label, moves the cursor
  and closes its label again, and fails with the labels that
  are open at that place.

  Every production but those of whole documents follows the
  scan of the same name. A document is read by attempts, so
  that more than one failure may be recorded.
-/

namespace ThriftTypings

namespace Idl

/- The text past a word that stands at its front. -/
def past?
    (word text : Text) : Option Text :=
  if Text.startsWith text word then
    some (text.drop word.length)
  else
    none

theorem past?_eq_some
    (word : Text)
    {text rest : Text}
    (h : text = word ++ rest) :
    past? word text = some rest := by
  subst h
  simp [past?, Text.startsWith]

theorem past?_eq_none
    {word text : Text}
    (h : ∀ rest, text = word ++ rest → False) :
    past? word text = none := by
  refine if_neg fun hStarts => ?_
  obtain ⟨rest, hRest⟩ :=
    List.isPrefixOf_iff_prefix.mp hStarts
  exact h rest hRest.symm

theorem skipSpace_skipSpace
    (text : Text) :
    skipSpace (skipSpace text) = skipSpace text := by
  unfold skipSpace
  induction text with
  | nil => rfl
  | cons c text ih =>
      rw [List.dropWhile_cons]
      split
      · exact ih
      · next hFront => exact List.dropWhile_cons_of_neg hFront

namespace Act

-- Lexemes

/- Reads one symbol. -/
def symbol
    (c : Char) : Act Unit := do
  passing skipSpace
  if ← accepting (past? [c]) then pure ()
  else fail (.noSymbol c)

theorem follows_symbol
    (c : Char) :
    Follows (symbol c) (Idl.symbol c) := by
  refine ((follows_passing skipSpace).bind fun _ =>
    follows_accepting (past? [c]) (follows_pure ())
      (follows_fail _)).of_eq ?_
  intro text
  rw [Idl.symbol, Scan.passing_bind]
  split
  · next hText =>
      rw [hText]
      exact Scan.choosing_of_none
        (past?_eq_none (by simp))
  · next d rest hText =>
      rw [hText]
      split
      · next hSame =>
          subst hSame
          exact Scan.choosing_of_some (past?_eq_some [d] rfl)
      · next hOther =>
          exact Scan.choosing_of_none
            (past?_eq_none (by simp [hOther]))

/- Reads a keyword. -/
def keyword
    (word : Text) : Act Unit := do
  passing skipSpace
  if ← accepting (keyword? word) then pure ()
  else fail (.noKeyword word)

theorem follows_keyword
    (word : Text) :
    Follows (keyword word) (Idl.keyword word) := by
  refine ((follows_passing skipSpace).bind fun _ =>
    follows_accepting (keyword? word) (follows_pure ())
      (follows_fail _)).of_eq ?_
  intro text
  have hSkip : keyword? word (skipSpace text) =
      keyword? word text := by
    rw [keyword?, skipSpace_skipSpace, keyword?]
  rw [Idl.keyword, Scan.passing_bind]
  split
  · next hWord =>
      exact Scan.choosing_of_some (hSkip.trans hWord)
  · next hWord =>
      exact Scan.choosing_of_none (hSkip.trans hWord)

/- Reads a longest run of characters of a class. -/
def run
    (belongs : Char → Bool)
    (cause : Cause) : Act Text := do
  passing skipSpace
  let word ← taking fun text =>
    (text.takeWhile belongs, text.dropWhile belongs)
  if word.isEmpty then fail cause else pure word

theorem follows_run
    (belongs : Char → Bool)
    (cause : Cause) :
    Follows (run belongs cause) (Idl.run belongs cause) := by
  have hWord (word : Text) :
      Follows
        (if word.isEmpty then fail cause else pure word)
        (if word.isEmpty then Scan.fail cause
          else pure word) := by
    split
    · exact follows_fail cause
    · exact follows_pure word
  refine ((follows_passing skipSpace).bind fun _ =>
    (follows_taking _).bind hWord).of_eq ?_
  intro text
  rw [Idl.run, Scan.passing_bind, Scan.bind_apply,
    Scan.taking]
  dsimp only
  split
  · next hEmpty =>
      -- nothing is taken, so that the cursor has not moved
      have hStay : (skipSpace text).dropWhile belongs =
          skipSpace text := by
        have hBoth := List.takeWhile_append_dropWhile
          (p := belongs) (l := skipSpace text)
        rwa [List.isEmpty_iff.mp hEmpty] at hBoth
      rw [hStay]
      rfl
  · rfl

/- Reads an identifier: anything up to a delimiter. -/
def identifier : Act Text :=
  run (fun c => !isDelimiter c) .noIdentifier

theorem follows_identifier :
    Follows identifier Idl.identifier :=
  follows_run _ _

/- Reads a sequence of decimal digits. -/
def integer : Act Text :=
  run Char.isDigit .noInteger

theorem follows_integer :
    Follows integer Idl.integer :=
  follows_run _ _

/- The text up to a double quote, and what follows it. -/
def quoted?
    (text : Text) : Option (Text × Text) :=
  match text.dropWhile (· != '"') with
  | [] => none
  | _ :: rest => some (text.takeWhile (· != '"'), rest)

/- Reads a text in double quotes. There are no escapes. -/
def stringLiteral : Act Text := do
  symbol '"'
  expecting quoted? .openString

theorem follows_stringLiteral :
    Follows stringLiteral Idl.stringLiteral := by
  refine (follows_symbol '"').bind fun _ =>
    (follows_expecting _ _).of_eq ?_
  intro text
  unfold quoted Scan.expecting quoted?
  cases text.dropWhile (· != '"') <;> rfl

/- Passes over an optional separator. -/
def separator : Act Unit :=
  passing skipSeparator

theorem follows_separator :
    Follows separator Idl.separator :=
  follows_passing skipSeparator

-- Comments

/- The inside of a block as a comment, and what follows. -/
def blockComment?
    (text : Text) : Option (Comment × Text) :=
  (blockEnd text).map fun (inner, rest) =>
    (blockComment inner, rest)

/- Reads the next comment, or the space before a lexeme. -/
def nextComment : Act (Round Comment Unit) := do
  passing skipSpace
  if ← accepting (past? "//".toList) then
    let comment ← taking lineComment
    pure (.more comment)
  else
    if ← accepting (past? "/*".toList) then
      let comment ←
        labelled .comment
          (expecting blockComment? .openComment)
      pure (.more comment)
    else
      pure (.last ())

theorem follows_nextComment :
    Follows nextComment Idl.nextComment := by
  refine ((follows_passing skipSpace).bind fun _ =>
    follows_accepting _
      ((follows_taking _).bind fun _ => follows_pure _)
      (follows_accepting _
        (((follows_expecting _ _).labelled _).bind fun _ =>
          follows_pure _)
        (follows_pure _))).of_eq ?_
  intro text
  rw [Idl.nextComment, Scan.passing_bind]
  split
  · next hText =>
      exact Scan.choosing_of_some
        (past?_eq_some ['/', '/'] hText)
  · next rest hText =>
      rw [hText]
      refine (Scan.choosing_of_none
        (past?_eq_none (by simp))).trans ?_
      refine (Scan.choosing_of_some
        (past?_eq_some ['/', '*'] rfl)).trans ?_
      rw [Scan.bind_apply, Scan.labelled, Scan.expecting,
        blockComment?]
      cases blockEnd rest <;> rfl
  · next hLine hBlock =>
      exact (Scan.choosing_of_none
        (past?_eq_none hLine)).trans
          (Scan.choosing_of_none (past?_eq_none hBlock))

/- Reads all comments up to the next lexeme. -/
def comments : Act (List Comment) := do
  let (found, _) ←
    repeated nextComment
      (follows_nextComment.progresses progresses_nextComment)
  pure found

theorem follows_comments :
    Follows comments Idl.comments :=
  (follows_nextComment.repeated _).bind fun _ =>
    follows_pure _

/- Reads a comment that runs to the end of this line. -/
def inlineComment : Act (List Comment) := do
  if ← accepting fun text =>
      past? "//".toList (text.dropWhile isLineSpace) then
    let comment ← taking lineComment
    pure [comment]
  else
    pure []

theorem follows_inlineComment :
    Follows inlineComment Idl.inlineComment := by
  refine (follows_accepting _
    ((follows_taking _).bind fun _ => follows_pure _)
    (follows_pure _)).of_eq ?_
  intro text
  rw [Idl.inlineComment]
  split
  · next hText =>
      exact Scan.choosing_of_some
        (past?_eq_some ['/', '/'] hText)
  · next hText =>
      exact Scan.choosing_of_none (past?_eq_none hText)

-- Types

/- Reads the rest of a composed type after its opening. -/
def composed
    (nested : Act IdlType) : Generic → Act IdlType
  | .list => do
      let element ← nested
      symbol '>'
      pure (.list element)
  | .map => do
      let key ← nested
      symbol ','
      let value ← nested
      symbol '>'
      pure (.map key value)

theorem follows_composed
    {nested : Act IdlType}
    {scan : Scan IdlType}
    (h : Follows nested scan)
    (generic : Generic) :
    Follows (composed nested generic)
      (Idl.composed scan generic) := by
  cases generic with
  | list =>
      exact h.bind fun _ => (follows_symbol _).bind fun _ =>
        follows_pure _
  | map =>
      exact h.bind fun _ => (follows_symbol _).bind fun _ =>
        h.bind fun _ => (follows_symbol _).bind fun _ =>
          follows_pure _

/- Reads a name as a type. -/
def namedType : Act IdlType := do
  let name ← identifier
  pure (.named name)

theorem follows_namedType :
    Follows namedType Idl.namedType :=
  follows_identifier.bind fun _ => follows_pure _

/- Reads a type, given how to read the types inside it. -/
def typeAround
    (order : Order)
    (nested : Act IdlType) : Act IdlType :=
  labelled .type do
    match ←
      accepting? (fun found => keyword? found.word)
        order.primitives
    with
    | some primitive => pure (.primitive primitive)
    | none =>
        match ← accepting? generic? order.generics with
        | some generic => composed nested generic
        | none => namedType

theorem follows_typeAround
    (order : Order)
    {nested : Act IdlType}
    {scan : Scan IdlType}
    (h : Follows nested scan) :
    Follows (typeAround order nested)
      (Idl.typeAround order scan) := by
  rw [typeAround, Idl.typeAround]
  refine Follows.labelled ?_ _
  refine Follows.of_eq
    (follows_accepting?_bind (fun _ => follows_pure _)
      (follows_accepting?_bind (follows_composed h)
        follows_namedType)) fun text => ?_
  rw [Scan.choosingEach, firstKeyword?]
  cases order.primitives.findSome? _ with
  | some pair => rfl
  | none =>
      dsimp only
      rw [Scan.choosingEach, firstGeneric?]
      cases order.generics.findSome? _ <;> rfl

/- Reads a type that is nested at most so deep. -/
def typeWithin
    (order : Order) : Nat → Act IdlType
  | 0 => labelled .type namedType
  | depth + 1 => typeAround order (typeWithin order depth)

theorem follows_typeWithin
    (order : Order)
    (depth : Nat) :
    Follows (typeWithin order depth)
      (Idl.typeWithin order depth) := by
  induction depth with
  | zero => exact follows_namedType.labelled _
  | succ depth ih => exact follows_typeAround order ih

/- Reads a type. -/
def type
    (order : Order) : Act IdlType :=
  fun parser => typeWithin order parser.rest.length parser

theorem follows_type
    (order : Order) :
    Follows (type order) (idlType order) :=
  fun parser =>
    follows_typeWithin order parser.rest.length parser

/- Reads a type and nothing after it but white space. -/
def completeType
    (order : Order) : Act IdlType := do
  let type ← type order
  passing skipSpace
  if ← ended then pure type else fail .afterType

theorem follows_completeType
    (order : Order) :
    Follows (completeType order) (Idl.completeType order) :=
  (follows_type order).bind fun _ =>
    (follows_passing skipSpace).bind fun _ =>
      follows_ended (follows_pure _) (follows_fail _)

-- Annotations

/- Reads one annotation: a name and a quoted value. -/
def annot : Act Annot := do
  let name ← identifier
  symbol '='
  let value ← stringLiteral
  pure ⟨name, value⟩

theorem follows_annot :
    Follows annot Idl.annot :=
  follows_identifier.bind fun _ =>
    (follows_symbol _).bind fun _ =>
      follows_stringLiteral.bind fun _ => follows_pure _

/- Reads a comma and the annotation after it, if any. -/
def nextAnnot : Act (Round Annot Unit) := do
  passing skipSpace
  if ← accepting (past? [',']) then
    let found ← annot
    pure (.more found)
  else
    pure (.last ())

theorem follows_nextAnnot :
    Follows nextAnnot Idl.nextAnnot := by
  refine ((follows_passing skipSpace).bind fun _ =>
    follows_accepting _
      (follows_annot.bind fun _ => follows_pure _)
      (follows_pure _)).of_eq ?_
  intro text
  rw [Idl.nextAnnot, Scan.passing_bind]
  split
  · next hText =>
      exact Scan.choosing_of_some
        (past?_eq_some [','] hText)
  · next hText =>
      exact Scan.choosing_of_none (past?_eq_none hText)

/- Reads the annotations after an opening parenthesis. -/
def annotList : Act (List Annot) :=
  labelled .annotations do
    let first ← annot
    let (more, _) ←
      repeated nextAnnot
        (follows_nextAnnot.progresses progresses_nextAnnot)
    symbol ')'
    pure (first :: more)

theorem follows_annotList :
    Follows annotList Idl.annotList :=
  (follows_annot.bind fun _ =>
    (follows_nextAnnot.repeated _).bind fun _ =>
      (follows_symbol _).bind fun _ =>
        follows_pure _).labelled _

/- Reads annotations in parentheses, if they stand next. -/
def annotations? : Act (Option (List Annot)) := do
  if ← accepting fun text => past? ['('] (skipSpace text) then
    let found ← annotList
    pure (some found)
  else
    pure none

theorem follows_annotations? :
    Follows annotations? Idl.annotations? := by
  refine (follows_accepting _
    (follows_annotList.bind fun _ => follows_pure _)
    (follows_pure _)).of_eq ?_
  intro text
  rw [Idl.annotations?]
  split
  · next hText =>
      exact Scan.choosing_of_some
        (past?_eq_some ['('] hText)
  · next hText =>
      exact Scan.choosing_of_none (past?_eq_none hText)

-- Members

/- Reads a requiredness, if one stands next. -/
def requiredness?
    (order : Order) : Act (Option Requiredness) :=
  accepting? (fun found => keyword? found.word)
    order.requiredness

theorem follows_requiredness?
    (order : Order) :
    Follows (requiredness? order)
      (Idl.requiredness? order) := by
  refine (follows_accepting? _ _).of_eq fun text => ?_
  rw [Idl.requiredness?, firstKeyword?, Scan.choosingEach]
  cases order.requiredness.findSome? _ <;> rfl

/- Reads a field, with the comments in front of it given. -/
def field
    (order : Order)
    (before : List Comment) : Act Field :=
  labelled .field do
    let id ← integer
    symbol ':'
    let requiredness ← requiredness? order
    let type ← type order
    let name ← identifier
    let annotations ← annotations?
    separator
    let beside ← inlineComment
    pure
      { id, requiredness, type, name, annotations,
        comments := before ++ beside }

theorem follows_field
    (order : Order)
    (before : List Comment) :
    Follows (field order before) (Idl.field order before) :=
  (follows_integer.bind fun _ =>
    (follows_symbol _).bind fun _ =>
    (follows_requiredness? order).bind fun _ =>
    (follows_type order).bind fun _ =>
    follows_identifier.bind fun _ =>
    follows_annotations?.bind fun _ =>
    follows_separator.bind fun _ =>
    follows_inlineComment.bind fun _ =>
      follows_pure _).labelled _

/- Reads an integer that may have a minus sign in front. -/
def signedInteger : Act Text := do
  passing skipSpace
  if ← accepting (past? ['-']) then
    let digits ← integer
    pure ('-' :: digits)
  else
    integer

theorem follows_signedInteger :
    Follows signedInteger Idl.signedInteger := by
  refine ((follows_passing skipSpace).bind fun _ =>
    follows_accepting _
      (follows_integer.bind fun _ => follows_pure _)
      follows_integer).of_eq ?_
  intro text
  rw [Idl.signedInteger, Scan.passing_bind]
  split
  · next hText =>
      exact Scan.choosing_of_some
        (past?_eq_some ['-'] hText)
  · next hText =>
      exact Scan.choosing_of_none (past?_eq_none hText)

/- Reads the value of an enum member, if it has one. -/
def enumValue? : Act (Option Text) := do
  if ← accepting fun text => past? ['='] (skipSpace text) then
    let value ← signedInteger
    pure (some value)
  else
    pure none

theorem follows_enumValue? :
    Follows enumValue? Idl.enumValue? := by
  refine (follows_accepting _
    (follows_signedInteger.bind fun _ => follows_pure _)
    (follows_pure _)).of_eq ?_
  intro text
  rw [Idl.enumValue?]
  split
  · next hText =>
      exact Scan.choosing_of_some
        (past?_eq_some ['='] hText)
  · next hText =>
      exact Scan.choosing_of_none (past?_eq_none hText)

/- Reads an enum member. -/
def enumMember
    (before : List Comment) : Act EnumMember :=
  labelled .enumMember do
    let name ← identifier
    let value ← enumValue?
    separator
    let beside ← inlineComment
    pure { name, value, comments := before ++ beside }

theorem follows_enumMember
    (before : List Comment) :
    Follows (enumMember before) (Idl.enumMember before) :=
  (follows_identifier.bind fun _ =>
    follows_enumValue?.bind fun _ =>
    follows_separator.bind fun _ =>
    follows_inlineComment.bind fun _ =>
      follows_pure _).labelled _

variable {α : Type}

/-
  Reads the comments in front of the next member and then
  either that member or the closing symbol.
-/
def nextMember
    (member : List Comment → Act α)
    (closing : Char) : Act (Round α (List Comment)) := do
  let before ← comments
  if ← accepting (past? [closing]) then
    pure (.last before)
  else
    if ← ended then
      fail (.noSymbol closing)
    else
      let found ← member before
      pure (.more found)

theorem follows_nextMember
    {member : List Comment → Act α}
    {scan : List Comment → Scan α}
    (h : ∀ before, Follows (member before) (scan before))
    (closing : Char) :
    Follows (nextMember member closing)
      (Idl.nextMember scan closing) := by
  refine follows_comments.bind fun before =>
    (follows_accepting _ (follows_pure _)
      (follows_ended (follows_fail _)
        ((h before).bind fun _ => follows_pure _))).of_eq ?_
  intro text
  cases text with
  | nil =>
      exact Scan.choosing_of_none (past?_eq_none (by simp))
  | cons c rest =>
      dsimp only
      split
      · next hSame =>
          subst hSame
          exact Scan.choosing_of_some (past?_eq_some [c] rfl)
      · next hOther =>
          exact Scan.choosing_of_none
            (past?_eq_none (by simp [hOther]))

theorem progresses_nextMember
    {member : List Comment → Act α}
    {scan : List Comment → Scan α}
    (h : ∀ before, Follows (member before) (scan before))
    (consumes : ∀ before, Scan.Consumes (scan before))
    (closing : Char) :
    Progresses (nextMember member closing) :=
  (follows_nextMember h closing).progresses
    (Idl.progresses_nextMember consumes closing)

/-
  Reads members up to and over the closing symbol. Gives
  them and the comments in front of that symbol.
-/
def members
    (member : List Comment → Act α)
    (closing : Char)
    (progress : Progresses (nextMember member closing)) :
    Act (List α × List Comment) :=
  repeated (nextMember member closing) progress

theorem follows_members
    {member : List Comment → Act α}
    {scan : List Comment → Scan α}
    (h : ∀ before, Follows (member before) (scan before))
    (consumes : ∀ before, Scan.Consumes (scan before))
    (closing : Char) :
    Follows
      (members member closing
        (progresses_nextMember h consumes closing))
      (Idl.members scan consumes closing) :=
  (follows_nextMember h closing).repeated _

/- Reads the fields up to a closing symbol. -/
def fields
    (order : Order)
    (closing : Char) : Act (List Field × List Comment) :=
  members (field order) closing
    (progresses_nextMember (follows_field order)
      (consumes_field order) closing)

/-
  Reads a function. Comments in front of its closing
  parenthesis belong to the function.
-/
def function
    (order : Order)
    (before : List Comment) : Act Function :=
  labelled .function do
    let returnType ← type order
    let name ← identifier
    symbol '('
    let (fields, dangling) ← fields order ')'
    let annotations ← annotations?
    separator
    let beside ← inlineComment
    pure
      { returnType, name, fields, annotations,
        comments := before ++ (dangling ++ beside) }

theorem follows_function
    (order : Order)
    (before : List Comment) :
    Follows (function order before)
      (Idl.function order before) :=
  ((follows_type order).bind fun _ =>
    follows_identifier.bind fun _ =>
    (follows_symbol _).bind fun _ =>
    (follows_members (follows_field order) _ _).bind fun _ =>
    follows_annotations?.bind fun _ =>
    follows_separator.bind fun _ =>
    follows_inlineComment.bind fun _ =>
      follows_pure _).labelled _

-- Definitions

/- Reads what follows the keyword of a definition. -/
def definitionBody
    (order : Order)
    (before : List Comment) : Kind → Act Definition
  | .nameSpace => do
      let scope ← identifier
      let name ← identifier
      pure (.nameSpace { scope, name, comments := before })
  | .inclusion => do
      let path ← stringLiteral
      pure (.inclusion { path, comments := before })
  | .struct => do
      let name ← identifier
      symbol '\x7b'
      let (fields, trailing) ← fields order '\x7d'
      pure (.struct
        { name, fields, comments := before, trailing })
  | .enum => do
      let name ← identifier
      symbol '\x7b'
      let (found, trailing) ←
        members enumMember '\x7d'
          (progresses_nextMember follows_enumMember
            consumes_enumMember '\x7d')
      pure (.enum
        { name, members := found, comments := before,
          trailing })
  | .service => do
      let name ← identifier
      symbol '\x7b'
      let (functions, trailing) ←
        members (function order) '\x7d'
          (progresses_nextMember (follows_function order)
            (consumes_function order) '\x7d')
      pure (.service
        { name, functions, comments := before, trailing })

theorem follows_definitionBody
    (order : Order)
    (before : List Comment)
    (kind : Kind) :
    Follows (definitionBody order before kind)
      (Idl.definitionBody order before kind) := by
  cases kind with
  | nameSpace =>
      exact follows_identifier.bind fun _ =>
        follows_identifier.bind fun _ => follows_pure _
  | inclusion =>
      exact follows_stringLiteral.bind fun _ =>
        follows_pure _
  | struct =>
      exact follows_identifier.bind fun _ =>
        (follows_symbol _).bind fun _ =>
          (follows_members (follows_field order) _ _).bind
            fun _ => follows_pure _
  | enum =>
      exact follows_identifier.bind fun _ =>
        (follows_symbol _).bind fun _ =>
          (follows_members follows_enumMember _ _).bind
            fun _ => follows_pure _
  | service =>
      exact follows_identifier.bind fun _ =>
        (follows_symbol _).bind fun _ =>
          (follows_members (follows_function order) _ _).bind
            fun _ => follows_pure _

/- Reads a definition of a given kind. -/
def definition
    (order : Order)
    (before : List Comment)
    (kind : Kind) : Act Definition :=
  labelled (.definition kind) do
    keyword kind.word
    definitionBody order before kind

theorem follows_definition
    (order : Order)
    (before : List Comment)
    (kind : Kind) :
    Follows (definition order before kind)
      (Idl.definition order before kind) :=
  ((follows_keyword _).bind fun _ =>
    follows_definitionBody order before kind).labelled _

-- Documents

/- Reads a definition of any kind. -/
def topDefinition
    (order : Order)
    (before : List Comment) : Act Definition :=
  tryEach (definition order before) .noDefinition order.kinds

theorem length_lt_of_topDefinition
    {order : Order}
    {before : List Comment}
    {parser after : Parser}
    {found : Definition}
    (h : topDefinition order before parser =
      (.ok found, after)) :
    after.rest.length < parser.rest.length := by
  obtain ⟨kind, start, hStart, hFound⟩ := exists_of_tryEach h
  have hScan :=
    (follows_definition order before kind).of_ok hFound
  rw [hStart] at hScan
  exact (consumes_definition order before kind _ _ _ hScan).2

/-
  Reads the comments in front of the next definition and
  then that definition, unless the source is at its end.
-/
def nextDefinition
    (order : Order) :
    Act (Round Definition (List Comment)) := do
  let before ← comments
  if ← ended then
    pure (.last before)
  else
    let found ← topDefinition order before
    pure (.more found)

theorem progresses_nextDefinition
    (order : Order) :
    Progresses (nextDefinition order) := by
  intro parser value after h
  obtain ⟨before, between, hBefore, h⟩ := bind_eq_ok_iff.mp h
  have hComments := (advances_comments _ _ _
    (follows_comments.of_ok hBefore)).length_le
  obtain ⟨atEnd, _, hEnded, h⟩ := bind_eq_ok_iff.mp h
  cases hEnded
  split at h
  · cases h
  · obtain ⟨found, _, hFound, h⟩ := bind_eq_ok_iff.mp h
    cases h
    have hLess := length_lt_of_topDefinition hFound
    omega

/- Reads a document to the end of the source. -/
def document
    (order : Order) : Act Document := do
  let (body, trailing) ←
    repeated (nextDefinition order)
      (progresses_nextDefinition order)
  pure { body, trailing }

end Act

end Idl

end ThriftTypings
