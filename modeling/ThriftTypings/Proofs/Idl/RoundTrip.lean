import ThriftTypings.Proofs.Idl.Texts

/-
  This file proves that reading a document undoes writing
  it, whatever its layout, if the document is well-formed.

  Each member is read from its line, each definition from
  its keyword and members, and a document from its
  definitions one after the other.

  Key theorems include:
    * `Document.read_print`
    * `Document.parse_undoes_print`
-/

namespace ThriftTypings

namespace Idl

variable {order : Order} {rest : Text} {type : IdlType}

-- Fields

theorem stops_isDigit_of_endsWord
    (h : endsWord rest = true) :
    Stops Char.isDigit rest := by
  cases rest with
  | nil => rintro _ ⟨⟩
  | cons c rest =>
      rintro _ ⟨⟩
      cases hDigit : c.isDigit with
      | false => rfl
      | true =>
          have hNot := isDelimiter_of_isDigit hDigit
          rw [show isDelimiter c = true from h] at hNot
          cases hNot

theorem IsDigits.startsWord
    {number : Text}
    (h : IsDigits number) :
    StartsWord number :=
  IsWord.startsWord
    ⟨h.1, fun c hMem => isDelimiter_of_isDigit (h.2 c hMem)⟩

/- A number is read up to a character that is no digit. -/
theorem integer_text
    {number text rest : Text}
    (h : IsDigits number)
    (hText : skipSpace text = number ++ rest)
    (hRest : Stops Char.isDigit rest) :
    integer text = .ok (number, rest) :=
  run_eq_ok_iff.mpr ⟨h, hRest, hText⟩

/- A word after a blank is read up to a delimiter. -/
theorem identifier_blank
    {name rest : Text}
    (h : IsWord name)
    (hRest : endsWord rest = true) :
    identifier (' ' :: (name ++ rest)) = .ok (name, rest) :=
  identifier_eq_ok_iff.mpr
    ⟨h, hRest, (h.startsWord.append rest).skipSpace_blank⟩

/- A type is read up to the blank in front of a name. -/
theorem idlType_name
    (hOrder : order.IsFull)
    (h : type.WellFormed)
    {text name rest : Text}
    (hName : IsWord name)
    (hText : skipSpace text =
      type.text ++ ' ' :: (name ++ rest)) :
    idlType order text =
      .ok (type, ' ' :: (name ++ rest)) := by
  refine idlType_text hOrder h hText rfl ?_
  rw [skipSpace_cons_space rfl]
  refine (hName.startsWord.append rest).stops
    fun c hBracket => ?_
  rw [beq_iff_eq.mp hBracket]
  decide

/- A type is not taken for a requiredness. -/
theorem word_ne_firstWord
    (h : ∀ word : Requiredness, type ≠ .named word.word)
    (word : Requiredness) :
    word.word ≠ type.firstWord := by
  have hGeneric (generic : Generic) :
      word.word ≠ generic.word := by
    cases word <;> cases generic <;> decide
  cases type with
  | primitive name => cases word <;> cases name <;> decide
  | list element => exact hGeneric .list
  | map key value => exact hGeneric .map
  | named name =>
      intro hSame
      exact h word (congrArg _ hSame.symm)

/- A requiredness is read if there is one. -/
theorem requiredness?_text
    (hOrder : order.IsFull)
    {requiredness : Option Requiredness}
    (hType : type.WellFormed)
    (hBare : requiredness = none →
      ∀ word : Requiredness, type ≠ .named word.word)
    (hRest : endsWord rest = true) :
    requiredness? order
        (' ' :: (requirednessText requiredness ++
          (type.text ++ rest))) =
      .ok (requiredness, ' ' :: (type.text ++ rest)) := by
  unfold requiredness?
  cases requiredness with
  | some word =>
      have hRead : firstKeyword? Requiredness.word
            order.requiredness
            (' ' :: (requirednessText (some word) ++
              (type.text ++ rest))) =
          some (word, ' ' :: (type.text ++ rest)) := by
        refine firstKeyword?_eq_some
          (fun other => other.isWord_word.2)
          Requiredness.word_injective
          (hOrder.requiredness word) ?_ rfl
        rw [requirednessText, List.append_assoc]
        exact (word.isWord_word.startsWord.append
          _).skipSpace_blank
      rw [hRead]
  | none =>
      rcases type.text_eq hRest with ⟨more, hText, hMore⟩
      have hWord : skipSpace
          (' ' :: (requirednessText none ++
            (type.text ++ rest))) = type.firstWord ++ more :=
        (hType.startsWord.append rest).skipSpace_blank.trans
          hText
      rw [firstKeyword?_eq_none
        (fun other => other.isWord_word.2)
        hType.isWord_firstWord.2 hWord hMore
        (word_ne_firstWord (hBare rfl))]
      rfl

section Split

variable {α : Type} {comments : α → List Comment}
  {placed : Placed comments}
  (h : ∀ comment ∈ comments placed.value, comment.WellFormed)

include h

theorem Placed.wellFormed_leading :
    ∀ comment ∈ placed.margin.leading,
      comment.WellFormed := by
  rw [placed.split] at h
  exact (List.forall_mem_append.mp h).1

theorem Placed.wellFormed_after :
    ∀ comment ∈ placed.margin.after,
      comment.WellFormed := by
  rw [placed.split] at h
  exact (List.forall_mem_append.mp h).2

end Split

theorem map_value_line
    {α : Type}
    {comments : α → List Comment}
    (text : α → Text)
    (placed : List (Placed comments)) :
    (placed.map (Placed.line text)).map Line.value =
      placed.map Placed.value :=
  List.map_map

theorem endsWord_annotationsText
    (annotations : Option (List Annot))
    (h : endsWord rest = true) :
    endsWord (annotationsText annotations ++ rest) =
      true := by
  cases annotations with
  | none => exact h
  | some found => rfl

/- A field is read from its line. -/
theorem isReadBy_field
    (hOrder : order.IsFull)
    {placed : Placed Field.comments}
    (h : placed.value.WellFormed) :
    (placed.line Field.text).IsReadBy (field order) where
  leading := Placed.wellFormed_leading h.comments
  startsWord := h.id.startsWord.append _
  read := by
    intro rest hRest
    rcases placed with ⟨value, margin, hSplit⟩
    have hAfter := Placed.wellFormed_after h.comments
    dsimp only [Placed.line] at *
    have hEnds : endsWord (margin.ending ++ '\n' :: rest) =
        true := margin.endsWord_ending
    have hText : value.text ++
          (margin.ending ++ '\n' :: rest) =
        value.id ++ ':' :: ' ' ::
          (requirednessText value.requiredness ++
            (value.type.text ++ ' ' :: (value.name ++
              (annotationsText value.annotations ++
                (margin.ending ++ '\n' :: rest))))) := by
      simp [Field.text]
    rw [hText]
    refine Scan.labelled_eq_ok_iff.mpr ?_
    refine Scan.bind_ok (integer_text h.id
      (h.id.startsWord.append _).skipSpace_eq ?_) ?_
    · rintro _ ⟨⟩
      rfl
    refine Scan.bind_ok (symbol_cons (by decide) _) ?_
    refine Scan.bind_ok
      (requiredness?_text hOrder h.type h.bare rfl) ?_
    refine Scan.bind_ok (idlType_name hOrder h.type h.name
      (h.type.startsWord.append _).skipSpace_blank) ?_
    refine Scan.bind_ok (identifier_blank h.name
      (endsWord_annotationsText _ hEnds)) ?_
    refine Scan.bind_ok (annotations?_text h.annotations
      (margin.stops_ending hRest (.inl rfl))) ?_
    refine Scan.bind_ok (margin.separator_ending hRest) ?_
    refine Scan.bind_ok
      (margin.inlineComment_besideText hAfter) ?_
    rw [← hSplit]
    rfl

-- Enum Members

theorem signedInteger_text
    {number : Text}
    (h : IsSigned number)
    (hRest : Stops Char.isDigit rest) :
    signedInteger (' ' :: (number ++ rest)) =
      .ok (number, rest) := by
  unfold signedInteger
  rcases h with hPlain | ⟨digits, hDigits, rfl⟩
  · have hStart := hPlain.startsWord.append rest
    rw [hStart.skipSpace_blank]
    split
    · next hText =>
        -- a sign is a delimiter, so no word starts with one
        rcases hStart with ⟨c, more, hWord, hChar⟩
        rw [hText] at hWord
        cases hWord
        exact absurd hChar (by decide)
    · exact integer_text hPlain hStart.skipSpace_eq hRest
  · have hStart := hDigits.startsWord.append rest
    exact Scan.bind_ok
      (integer_text hDigits hStart.skipSpace_eq hRest) rfl

/- The value of an enum member is read if it has one. -/
theorem enumValue?_text
    {value : Option Text}
    (h : ∀ number ∈ value, IsSigned number)
    (hDigit : Stops Char.isDigit rest)
    (hEquals : Stops (· == '=') (skipSpace rest)) :
    enumValue? (valueText value ++ rest) =
      .ok (value, rest) := by
  cases value with
  | none =>
      simp only [valueText, List.nil_append, enumValue?]
      split
      · next hText => simp [Stops, hText] at hEquals
      · rfl
  | some number =>
      exact Scan.bind_ok
        (signedInteger_text (h number rfl) hDigit) rfl

/- An enum member is read from its line. -/
theorem isReadBy_enumMember
    {placed : Placed EnumMember.comments}
    (h : placed.value.WellFormed) :
    (placed.line EnumMember.text).IsReadBy enumMember where
  leading := Placed.wellFormed_leading h.comments
  startsWord := h.name.startsWord.append _
  read := by
    intro rest hRest
    rcases placed with ⟨value, margin, hSplit⟩
    have hAfter := Placed.wellFormed_after h.comments
    dsimp only [Placed.line] at *
    have hDigit : Stops Char.isDigit
        (margin.ending ++ '\n' :: rest) :=
      stops_isDigit_of_endsWord margin.endsWord_ending
    have hEnds : endsWord (valueText value.value ++
        (margin.ending ++ '\n' :: rest)) = true := by
      cases value.value with
      | none => exact margin.endsWord_ending
      | some number => rfl
    rw [EnumMember.text, List.append_assoc]
    refine Scan.labelled_eq_ok_iff.mpr ?_
    refine Scan.bind_ok (identifier_eq_ok_iff.mpr ⟨h.name,
      hEnds, (h.name.startsWord.append _).skipSpace_eq⟩) ?_
    refine Scan.bind_ok (enumValue?_text h.value hDigit
      (margin.stops_ending hRest (.inr rfl))) ?_
    refine Scan.bind_ok (margin.separator_ending hRest) ?_
    refine Scan.bind_ok
      (margin.inlineComment_besideText hAfter) ?_
    rw [← hSplit]
    rfl

-- Functions

/- A function is read from its line. -/
theorem isReadBy_function
    (hOrder : order.IsFull)
    {placed : PlacedFunction}
    (h : placed.value.WellFormed) :
    placed.line.IsReadBy (function order) := by
  rcases placed with
    ⟨value, parameters, inner, margin, hSame, hSplit⟩
  have hComments := h.comments
  rw [hSplit] at hComments
  rcases List.forall_mem_append.mp hComments with
    ⟨hLeading, hComments⟩
  rcases List.forall_mem_append.mp hComments with
    ⟨hInner, hAfter⟩
  have hFields := h.fields
  rw [← hSame] at hFields
  have hLines := List.forall_mem_map.mpr
    fun parameter hMem => isReadBy_field hOrder
      (hFields _ (List.mem_map_of_mem hMem))
  refine ⟨hLeading, h.returnType.startsWord.append _, ?_⟩
  intro rest hRest
  simp only [PlacedFunction.line, PlacedFunction.content,
    List.append_assoc, List.cons_append]
  refine Scan.labelled_eq_ok_iff.mpr ?_
  refine Scan.bind_ok (idlType_name hOrder h.returnType
    h.name (h.returnType.startsWord.append _).skipSpace_eq) ?_
  refine Scan.bind_ok (identifier_blank h.name rfl) ?_
  refine Scan.bind_ok (symbol_cons (by decide) _) ?_
  refine Scan.bind_ok (members_textTo (.inl rfl)
    (consumes_field order) hLines hInner _) ?_
  refine Scan.bind_ok (annotations?_text h.annotations
    (margin.stops_ending hRest (.inl rfl))) ?_
  refine Scan.bind_ok (margin.separator_ending hRest) ?_
  refine Scan.bind_ok
    (margin.inlineComment_besideText hAfter) ?_
  rw [map_value_line, hSame, ← hSplit]
  rfl

-- Definitions

/- A name and members in braces are read one by one. -/
theorem block_text
    {α : Type}
    {member : List Comment → Scan α}
    (consumes : ∀ before, Scan.Consumes (member before))
    {name : Text}
    (hName : IsWord name)
    {lines : List (Line α)}
    (hLines : ∀ line ∈ lines, line.IsReadBy member)
    {trailing : List Comment}
    (hTrailing : ∀ comment ∈ trailing, comment.WellFormed)
    {next : Text → List α × List Comment → Scan Definition}
    {found : Definition}
    (h : next name (lines.map Line.value, trailing) rest =
      .ok (found, rest)) :
    (do
      let name ← identifier
      symbol '\x7b'
      let found ← members member consumes '\x7d'
      next name found : Scan Definition)
        (' ' :: (name ++ ' ' :: '\x7b' ::
          (Line.textTo '\x7d' lines trailing ++ rest))) =
      .ok (found, rest) :=
  Scan.bind_ok (identifier_blank hName rfl)
    (Scan.bind_ok
      (symbol_eq_ok_iff.mpr (skipSpace_cons_space rfl _))
      (Scan.bind_ok (members_textTo (.inr rfl) consumes
        hLines hTrailing rest) h))

/- What follows a keyword is read from its own text. -/
theorem definitionBody_content
    (hOrder : order.IsFull)
    {placed : PlacedDefinition}
    (h : placed.definition.WellFormed)
    (rest : Text) :
    definitionBody order placed.definition.comments
        placed.definition.kind
        (' ' :: (placed.content ++ '\n' :: rest)) =
      .ok (placed.definition, '\n' :: rest) := by
  rcases h with ⟨hContent, _, hTrailing⟩
  cases placed with
  | nameSpace found =>
      rcases hContent with ⟨hScope, hName⟩
      simp only [PlacedDefinition.content,
        List.append_assoc, List.cons_append]
      exact Scan.bind_ok (identifier_blank hScope rfl)
        (Scan.bind_ok (identifier_blank hName rfl) rfl)
  | inclusion found =>
      exact Scan.bind_ok (stringLiteral_text hContent
        (skipSpace_cons_space rfl _)) rfl
  | struct found fields hSame =>
      rcases hContent with ⟨hName, hFields⟩
      rw [← hSame] at hFields
      have hLines := List.forall_mem_map.mpr
        fun placed hMem => isReadBy_field hOrder
          (hFields _ (List.mem_map_of_mem hMem))
      simp only [PlacedDefinition.content,
        List.append_assoc, List.cons_append]
      refine block_text _ hName hLines hTrailing ?_
      rw [map_value_line, hSame]
      rfl
  | enum found members hSame =>
      rcases hContent with ⟨hName, hMembers⟩
      rw [← hSame] at hMembers
      have hLines := List.forall_mem_map.mpr
        fun placed hMem => isReadBy_enumMember
          (hMembers _ (List.mem_map_of_mem hMem))
      simp only [PlacedDefinition.content,
        List.append_assoc, List.cons_append]
      refine block_text _ hName hLines hTrailing ?_
      rw [map_value_line, hSame]
      rfl
  | service found functions hSame =>
      rcases hContent with ⟨hName, hFunctions⟩
      rw [← hSame] at hFunctions
      have hLines := List.forall_mem_map.mpr
        fun placed hMem => isReadBy_function hOrder
          (hFunctions _ (List.mem_map_of_mem hMem))
      have hValues :
          (functions.map PlacedFunction.line).map
            Line.value = found.functions := by
        rw [List.map_map, ← hSame]
        rfl
      simp only [PlacedDefinition.content,
        List.append_assoc, List.cons_append]
      refine block_text _ hName hLines hTrailing ?_
      rw [hValues]
      rfl

/- A definition is read from its own text. -/
theorem definition_text
    (hOrder : order.IsFull)
    {placed : PlacedDefinition}
    (h : placed.definition.WellFormed)
    (rest : Text) :
    definition order placed.definition.comments
        placed.definition.kind (placed.text ++ '\n' :: rest) =
      .ok (placed.definition, '\n' :: rest) := by
  have hStart :=
    placed.definition.kind.isWord_word.startsWord.append
      (' ' :: (placed.content ++ '\n' :: rest))
  rw [PlacedDefinition.text, List.append_assoc,
    List.cons_append]
  exact Scan.labelled_eq_ok_iff.mpr (Scan.bind_ok
    (keyword_eq_ok_iff.mpr ⟨hStart.skipSpace_eq, rfl⟩)
    (definitionBody_content hOrder h rest))

/- Only definitions of its kind are read from a text. -/
theorem kind_of_definition
    {before : List Comment}
    {kind other : Kind}
    (hRest : endsWord rest = true)
    {result : Definition × Text}
    (h : definition order before other (kind.word ++ rest) =
      .ok result) :
    other = kind := by
  rcases Scan.bind_eq_ok_iff.mp
    (Scan.labelled_eq_ok_iff.mp h) with
    ⟨_, after, hKeyword, _⟩
  rcases keyword_eq_ok_iff.mp hKeyword with ⟨hText, hAfter⟩
  rw [(kind.isWord_word.startsWord.append rest).skipSpace_eq]
    at hText
  exact (Kind.word_injective (word_unique kind.isWord_word.2
    other.isWord_word.2 hRest hAfter hText).1).symm

/- The one alternative that fits is the one taken. -/
theorem tryEach_eq
    {α κ : Type}
    {scan : κ → Scan α}
    {text : Text}
    {choice : κ}
    {result : α × Text}
    (h : scan choice text = .ok result)
    (hOther : ∀ other found,
      scan other text = .ok found → other = choice)
    {choices : List κ}
    (hMem : choice ∈ choices)
    (earlier : Option Failure) :
    ∃ furthest, tryEach scan text choices earlier =
      ⟨some result, furthest⟩ := by
  induction choices generalizing earlier with
  | nil => cases hMem
  | cons first more ih =>
      cases hFirst : scan first text with
      | ok found =>
          cases hOther first found hFirst
          rw [h] at hFirst
          cases hFirst
          exact ⟨earlier, by simp only [tryEach, h]⟩
      | error failure =>
          have hMore : choice ∈ more := by
            rcases List.mem_cons.mp hMem with rfl | hMore
            · rw [h] at hFirst
              cases hFirst
            · exact hMore
          rcases ih hMore
            (some (Failure.further earlier failure)) with
            ⟨furthest, hTry⟩
          exact ⟨furthest, by
            simp only [tryEach, hFirst, hTry]⟩

theorem topDefinition_text
    (hOrder : order.IsFull)
    {placed : PlacedDefinition}
    (h : placed.definition.WellFormed)
    (earlier : Option Failure)
    (rest : Text) :
    ∃ furthest,
      topDefinition order placed.definition.comments earlier
          (placed.text ++ '\n' :: rest) =
        .ok ((placed.definition, '\n' :: rest), furthest) := by
  have hText : placed.text ++ '\n' :: rest =
      placed.definition.kind.word ++
        ' ' :: (placed.content ++ '\n' :: rest) := by
    simp [PlacedDefinition.text]
  rcases tryEach_eq
    (definition_text hOrder h rest)
    (fun other found hFound => kind_of_definition rfl
      (hText ▸ hFound))
    (hOrder.kinds placed.definition.kind) earlier with
    ⟨furthest, hTry⟩
  exact ⟨furthest, by simp only [topDefinition, hTry]⟩

-- Documents

/- White space in front of a document is passed over. -/
theorem documentFrom_newline
    (order : Order)
    (earlier : Option Failure)
    (text : Text) :
    documentFrom order earlier ('\n' :: text) =
      documentFrom order earlier text := by
  rw [documentFrom_eq,
    comments_congr (skipSpace_cons_space rfl text),
    ← documentFrom_eq]

/- Definitions are read from their lines. -/
theorem documentFrom_lines
    (hOrder : order.IsFull)
    {body : List PlacedDefinition}
    (hBody : ∀ placed ∈ body, placed.definition.WellFormed)
    {trailing : List Comment}
    (hTrailing : ∀ comment ∈ trailing, comment.WellFormed)
    (earlier : Option Failure) :
    documentFrom order earlier
        (definitionLines body ++ commentLines trailing) =
      .ok ({ body := body.map PlacedDefinition.definition
             trailing := trailing }, []) := by
  induction body generalizing earlier with
  | nil =>
      have hStops : Stops (· == '/') (skipSpace []) := by
        rintro _ ⟨⟩
      have hRead := comments_commentLines hTrailing hStops
      rw [List.append_nil] at hRead
      rw [documentFrom_eq, definitionLines, List.flatMap_nil,
        List.nil_append, hRead]
      rfl
  | cons first more ih =>
      rcases List.forall_mem_cons.mp hBody with
        ⟨hFirst, hMore⟩
      have hText :
          definitionLines (first :: more) ++
              commentLines trailing =
            commentLines first.definition.comments ++
              (first.text ++ '\n' :: (definitionLines more ++
                commentLines trailing)) := by
        simp [definitionLines]
      have hStart : StartsWord (first.text ++
          '\n' :: (definitionLines more ++
            commentLines trailing)) :=
        (first.definition.kind.isWord_word.startsWord.append
          _).append _
      have hRead := comments_commentLines hFirst.comments
        hStart.stops_slash
      rcases topDefinition_text hOrder
        hFirst earlier
        (definitionLines more ++ commentLines trailing) with
        ⟨furthest, hTop⟩
      rw [hStart.skipSpace_eq] at hRead
      rcases hStart with ⟨c, rest, hFront, _⟩
      rw [hFront] at hRead hTop
      rw [hText, hFront, documentFrom_eq, hRead]
      simp only [hTop, documentFrom_newline,
        ih hMore furthest, List.map_cons]

/-
  Reading undoes printing, in every layout and every full
  order of alternatives.
-/
theorem Document.read_print
    (hOrder : order.IsFull)
    {document : Document}
    (h : document.WellFormed)
    (layout : Layout document) :
    Document.read order (document.print layout) =
      .ok document := by
  rcases layout with ⟨body, hSame⟩
  have hBody := h.body
  rw [← hSame] at hBody
  have hRead := documentFrom_lines hOrder
    (fun placed hMem => hBody _ (List.mem_map_of_mem hMem))
    h.trailing none
  rw [hSame] at hRead
  simp only [Document.read, Document.print]
  rw [Scan.labelled_eq_ok_iff.mpr hRead]

/-
  Parsing undoes printing: a document is read back from
  every layout of it, if it is well-formed, and only the
  well-formed documents are ever read.
-/
theorem Document.parse_undoes_print
    (document : Document)
    (file : Option Text) :
    (document.WellFormed → ∀ layout : Layout document,
      Document.parse (document.print layout) file =
        .ok document) ∧
    Nonempty (Layout document) ∧
    ((∃ source, Document.parse source file = .ok document) ↔
      document.WellFormed) := by
  have hPrint (h : document.WellFormed)
      (layout : Layout document) :
      Document.parse (document.print layout) file =
        .ok document := by
    simp only [Document.parse,
      Document.read_print Order.isFull_usual h layout]
  refine ⟨hPrint, ⟨Layout.plain document⟩, ?_, fun h =>
    ⟨_, hPrint h (Layout.plain document)⟩⟩
  rintro ⟨source, hParse⟩
  unfold Document.parse at hParse
  split at hParse
  · cases hParse
  · next hRead =>
      cases hParse
      exact Document.wellFormed_of_read Order.isFull_usual
        hRead

/- A field with a comment in front of it and one beside it. -/
def besideField : Field where
  id := ['1']
  requiredness := none
  type := .list (.named ['x'])
  name := ['y']
  annotations := none
  comments := [.block [['a'], []], .line ['b']]

def besideStruct : StructDef where
  name := ['s']
  fields := [besideField]
  comments := []
  trailing := []

def besideDocument : Document where
  body := [.struct besideStruct]
  trailing := []

def besideLayout : Layout besideDocument where
  body :=
    [.struct besideStruct
      [{ value := besideField
         margin :=
           { leading := [.block [['a'], []]]
             separator := some .comma
             beside := some ['b'] }
         split := rfl }]
      rfl]
  same := rfl

theorem wellFormed_besideField : besideField.WellFormed where
  id := ⟨by decide, List.forall_mem_singleton.mpr rfl⟩
  type := ⟨by decide, fun primitive => by
    cases primitive <;> decide⟩
  bare := by
    rintro _ requiredness ⟨⟩
  name := by decide
  annotations := by
    rintro _ ⟨⟩
  comments := List.forall_mem_cons.mpr
    ⟨⟨by decide, List.forall_mem_cons.mpr
      ⟨⟨⟨by decide, by decide⟩, by decide⟩,
        List.forall_mem_singleton.mpr
          ⟨⟨by decide, by decide⟩, by decide⟩⟩⟩,
      List.forall_mem_singleton.mpr ⟨by decide, by decide⟩⟩

theorem wellFormed_besideDocument :
    besideDocument.WellFormed where
  body := List.forall_mem_singleton.mpr
    { content := ⟨by decide,
        List.forall_mem_singleton.mpr wellFormed_besideField⟩
      comments := by simp [Definition.comments, besideStruct]
      trailing := by
        simp [Definition.trailing, besideStruct] }
  trailing := by simp [besideDocument]

theorem parse_besideDocument :
    besideDocument.WellFormed ∧
      Document.parse
          ("struct s \x7b\n/*a\n*/\n".toList ++
            "1: list<x> y, // b\n\x7d\n".toList) none =
        .ok besideDocument := by
  have hText : besideDocument.print besideLayout =
      "struct s \x7b\n/*a\n*/\n".toList ++
        "1: list<x> y, // b\n\x7d\n".toList := by
    decide
  rw [← hText]
  exact ⟨wellFormed_besideDocument,
    (Document.parse_undoes_print besideDocument none).1
      wellFormed_besideDocument besideLayout⟩

end Idl

end ThriftTypings
