import ThriftTypings.Proofs.Idl.Contents
import ThriftTypings.Proofs.Idl.RoundTrip

/-
  This file proves that reading a document keeps every
  comment of its source, once, and in order, and that it
  drops, invents and reorders no token.

  The proof says of each part of the grammar that the
  comments in what it reads are those that it stores, and
  that squeezed this is what its tokens come to.

  Key definitions include:
    * `Document.commentLists`
    * `Keeps`

  Key theorems include:
    * `Document.parse_keeps_comments`
    * `Document.parse_keeps_tokens`
-/

namespace ThriftTypings

namespace Idl

variable {order : Order} {document : Document}

-- The Comments of a Document

/- The comments of a function, and of its parameters. -/
def Function.commentLists
    (function : Function) : List (List Comment) :=
  function.comments :: function.fields.map Field.comments

/- The comments of the members of a definition. -/
def Definition.memberLists :
    Definition → List (List Comment)
  | .nameSpace _ => []
  | .inclusion _ => []
  | .struct found => found.fields.map Field.comments
  | .enum found => found.members.map EnumMember.comments
  | .service found =>
      found.functions.flatMap Function.commentLists

/- The comments of a definition, list by list. -/
def Definition.commentLists
    (found : Definition) : List (List Comment) :=
  found.comments :: (found.memberLists ++ [found.trailing])

/- All comments of a document, one list for each node. -/
def Document.commentLists
    (document : Document) : List (List Comment) :=
  document.body.flatMap Definition.commentLists ++
    [document.trailing]

/-
  Do the lists keep what was found? Every comment is in one
  of them, as often as it was found, and each list is in the
  order in which its comments were found.
-/
structure Keeps
    (lists : List (List Comment))
    (found : List Comment) : Prop where
  all : lists.flatten.Perm found
  ordered : ∀ list ∈ lists, list.Sublist found

namespace Keeps

variable {lists others : List (List Comment)}
variable {found after own inner : List Comment}

theorem nil : Keeps [] [] :=
  ⟨List.Perm.refl _, by simp⟩

theorem single
    (list : List Comment) : Keeps [list] list := by
  constructor
  · simp
  · intro other hMem
    rw [List.mem_singleton.mp hMem]

theorem append
    (h : Keeps lists found)
    (hOthers : Keeps others after) :
    Keeps (lists ++ others) (found ++ after) := by
  constructor
  · rw [List.flatten_append]
    exact h.all.append hOthers.all
  · intro list hMem
    rcases List.mem_append.mp hMem with hFirst | hSecond
    · exact (h.ordered list hFirst).trans
        (List.sublist_append_left _ _)
    · exact (hOthers.ordered list hSecond).trans
        (List.sublist_append_right _ _)

theorem cons
    (list : List Comment)
    (h : Keeps lists found) :
    Keeps (list :: lists) (list ++ found) :=
  (single list).append h

/-
  A node may keep together what stands before and after what
  the nodes inside of it keep.
-/
theorem around
    (h : Keeps lists inner) :
    Keeps ((own ++ after) :: lists)
      (own ++ (inner ++ after)) := by
  constructor
  · rw [List.flatten_cons, List.append_assoc]
    apply List.Perm.append_left own
    exact (List.perm_append_comm.trans
      (h.all.append_right after))
  · intro list hMem
    rcases List.mem_cons.mp hMem with rfl | hInner
    · apply List.Sublist.append_left
      exact List.sublist_append_right _ _
    · apply (h.ordered list hInner).trans
      apply (List.sublist_append_left _ after).trans
      exact List.sublist_append_right _ _

end Keeps

-- Types and Annotations

variable {text rest : Text}

/- There are no comments in a type. -/
theorem holds_idlType
    {type : IdlType}
    (h : idlType order text = .ok (type, rest)) :
    Holds type.tokens [] text rest := by
  have hMark {c : Char} {text rest : Text}
      (hText : skipSpace text = c :: rest)
      (hOrdinary : isOrdinary c = true) :=
    holds_symbol (symbol_eq_ok_iff.mpr hText) hOrdinary
  refine idlType_induction (fun text type rest =>
    Holds type.tokens [] text rest) ?_ ?_ ?_ ?_ h
  · intro text rest primitive hKeyword
    exact holds_firstKeyword? Primitive.isWord_word hKeyword
  · intro text inner after rest element hOpen ih hClose
    exact (holds_firstGeneric? hOpen).trans
      (ih.trans (hMark hClose (by decide)))
  · intro text inner afterKey afterComma after rest key value
      hOpen ihKey hComma ihValue hClose
    exact (holds_firstGeneric? hOpen).trans
      (ihKey.trans ((hMark hComma (by decide)).trans
        (ihValue.trans (hMark hClose (by decide)))))
  · intro text rest name _ hName
    exact holds_identifier hName

theorem holds_annot
    {found : Annot}
    (h : annot text = .ok (found, rest)) :
    Holds found.tokens [] text rest := by
  rcases Scan.bind_eq_ok_iff.mp h with ⟨name, _, hName, h⟩
  rcases Scan.bind_eq_ok_iff.mp h with ⟨_, _, hEquals, h⟩
  rcases Scan.bind_eq_ok_iff.mp h with
    ⟨value, _, hValue, hPure⟩
  cases hPure
  exact (holds_identifier hName).trans
    ((holds_symbol hEquals (by decide)).trans
      (holds_stringLiteral hValue))

/- The tokens of a round of reading annotations. -/
def Round.annotTokens : Round Annot Unit → List Token
  | .more found => .mark ',' :: found.tokens
  | .last () => []

theorem holds_nextAnnot
    {round : Round Annot Unit}
    (h : nextAnnot text = .ok (round, rest)) :
    Holds round.annotTokens [] text rest := by
  apply Holds.of_skipSpace
  unfold nextAnnot at h
  split at h
  · next hComma =>
      rcases Scan.bind_eq_ok_iff.mp h with
        ⟨_, _, hAnnot, hPure⟩
      cases hPure
      rw [hComma]
      exact (holds_cons (by decide) _).trans
        (holds_annot hAnnot)
  · cases h
    exact .refl _

theorem holds_repeated_nextAnnot
    {found : List Annot}
    (h : Scan.repeated nextAnnot progresses_nextAnnot text =
      .ok ((found, ()), rest)) :
    Holds
      (found.flatMap fun found => .mark ',' :: found.tokens)
      [] text rest := by
  induction found generalizing text with
  | nil =>
      exact holds_nextAnnot (Scan.repeated_eq_ok_iff.mp h)
  | cons first more ih =>
      rcases Scan.repeated_eq_ok_iff.mp h with
        ⟨after, hFirst, hMore⟩
      exact (holds_nextAnnot hFirst).trans (ih hMore)

theorem holds_annotations?
    {found : Option (List Annot)}
    (h : annotations? text = .ok (found, rest)) :
    Holds (annotationsTokens found) [] text rest := by
  unfold annotations? at h
  split at h
  · next hOpen =>
      rcases Scan.bind_eq_ok_iff.mp h with
        ⟨_, _, hList, hPure⟩
      cases hPure
      have h := Scan.labelled_eq_ok_iff.mp hList
      rcases Scan.bind_eq_ok_iff.mp h with
        ⟨first, _, hFirst, h⟩
      rcases Scan.bind_eq_ok_iff.mp h with
        ⟨⟨more, final⟩, _, hMore, h⟩
      rcases Scan.bind_eq_ok_iff.mp h with
        ⟨_, _, hClose, hPure⟩
      cases hPure
      apply Holds.of_skipSpace
      rw [hOpen]
      have hListed := (holds_annot hFirst).trans
        (holds_repeated_nextAnnot hMore)
      exact (holds_cons (by decide) _).trans
        (hListed.trans (holds_symbol hClose (by decide)))
  · cases h
    exact .refl _

-- Members

/-
  Reading something holds its tokens, and keeps the comments
  in it. Those in front of it are given, and kept as well.
-/
def HoldsOwn
    {α : Type}
    (scan : List Comment → Scan α)
    (tokens : α → List Token)
    (lists : α → List (List Comment)) : Prop :=
  ∀ before text found rest,
    scan before text = .ok (found, rest) →
      ∃ own, Holds (tokens found) own text rest ∧
        Keeps (lists found) (before ++ own)

theorem holds_requiredness?
    {found : Option Requiredness}
    (h : requiredness? order text = .ok (found, rest)) :
    Holds (requirednessTokens found) [] text rest := by
  unfold requiredness? at h
  split at h
  · next hFound =>
      cases h
      exact holds_firstKeyword?
        Requiredness.isWord_word hFound
  · cases h
    exact .refl _

theorem holdsOwn_field
    (order : Order) :
    HoldsOwn (field order) Field.tokens
      (fun found => [found.comments]) := by
  intro before text found rest h
  have h := Scan.labelled_eq_ok_iff.mp h
  rcases Scan.bind_eq_ok_iff.mp h with ⟨id, _, hId, h⟩
  rcases Scan.bind_eq_ok_iff.mp h with ⟨_, _, hColon, h⟩
  rcases Scan.bind_eq_ok_iff.mp h with
    ⟨requiredness, _, hRequiredness, h⟩
  rcases Scan.bind_eq_ok_iff.mp h with ⟨type, _, hType, h⟩
  rcases Scan.bind_eq_ok_iff.mp h with ⟨name, _, hName, h⟩
  rcases Scan.bind_eq_ok_iff.mp h with
    ⟨annotations, _, hAnnotations, h⟩
  rcases Scan.bind_eq_ok_iff.mp h with
    ⟨_, _, hSeparator, h⟩
  rcases Scan.bind_eq_ok_iff.mp h with
    ⟨beside, _, hBeside, hPure⟩
  cases hPure
  have hEnd := (holds_separator hSeparator).trans
    (holds_inlineComment hBeside)
  have hNamed := (holds_identifier hName).trans
    ((holds_annotations? hAnnotations).trans hEnd)
  exact ⟨beside, (holds_integer hId).trans
    ((holds_symbol hColon (by decide)).trans
      ((holds_requiredness? hRequiredness).trans
        ((holds_idlType hType).trans hNamed))),
    Keeps.single _⟩

theorem holds_signedInteger
    {value : Text}
    (h : signedInteger text = .ok (value, rest)) :
    Holds (signedTokens value) [] text rest := by
  apply Holds.of_skipSpace
  unfold signedInteger at h
  split at h
  · next hMinus =>
      rcases Scan.bind_eq_ok_iff.mp h with
        ⟨_, _, hDigits, hPure⟩
      cases hPure
      rw [hMinus]
      exact (holds_cons (by decide) _).trans
        (holds_integer hDigits)
  · rcases run_eq_ok_iff.mp h with ⟨⟨_, hDigits⟩, _⟩
    rw [signedTokens_digits hDigits]
    exact holds_integer h

theorem holds_enumValue?
    {value : Option Text}
    (h : enumValue? text = .ok (value, rest)) :
    Holds (valueTokens value) [] text rest := by
  unfold enumValue? at h
  split at h
  · next hEquals =>
      rcases Scan.bind_eq_ok_iff.mp h with
        ⟨_, _, hValue, hPure⟩
      cases hPure
      apply Holds.of_skipSpace
      rw [hEquals]
      exact (holds_cons (by decide) _).trans
        (holds_signedInteger hValue)
  · cases h
    exact .refl _

theorem holdsOwn_enumMember :
    HoldsOwn enumMember EnumMember.tokens
      (fun found => [found.comments]) := by
  intro before text found rest h
  have h := Scan.labelled_eq_ok_iff.mp h
  rcases Scan.bind_eq_ok_iff.mp h with ⟨name, _, hName, h⟩
  rcases Scan.bind_eq_ok_iff.mp h with ⟨value, _, hValue, h⟩
  rcases Scan.bind_eq_ok_iff.mp h with
    ⟨_, _, hSeparator, h⟩
  rcases Scan.bind_eq_ok_iff.mp h with
    ⟨beside, _, hBeside, hPure⟩
  cases hPure
  exact ⟨beside, (holds_identifier hName).trans
    ((holds_enumValue? hValue).trans
      ((holds_separator hSeparator).trans
        (holds_inlineComment hBeside))),
    Keeps.single _⟩

/-
  Members hold their tokens and the closing mark. They keep
  their comments, those in front of the closing mark apart,
  which come last.
-/
theorem holds_members
    {α : Type}
    {member : List Comment → Scan α}
    {consumes : ∀ before, Scan.Consumes (member before)}
    {tokens : α → List Token}
    {lists : α → List (List Comment)}
    (hMember : HoldsOwn member tokens lists)
    {closing : Char}
    (hClosing : isOrdinary closing = true)
    {text rest : Text}
    {found : List α}
    {trailing : List Comment}
    (h : members member consumes closing text =
      .ok ((found, trailing), rest)) :
    ∃ own,
      Holds (found.flatMap tokens ++ [.mark closing])
          (own ++ trailing) text rest ∧
        Keeps (found.flatMap lists) own := by
  -- the induction is on the members that were read
  induction found generalizing text with
  | nil =>
      have hLast := nextMember_eq_last_iff.mp
        (Scan.repeated_eq_ok_iff.mp h)
      have hHolds := (holds_comments hLast).trans
        (holds_cons hClosing rest)
      rw [List.append_nil] at hHolds
      exact ⟨[], hHolds, Keeps.nil⟩
  | cons first more ih =>
      rcases Scan.repeated_eq_ok_iff.mp h with
        ⟨after, hFirst, hMore⟩
      rcases nextMember_eq_more_iff.mp hFirst with
        ⟨before, c, others, hBefore, _, hFound⟩
      rcases hMember before _ _ _ hFound with
        ⟨own, hOwn, hKeeps⟩
      rcases ih hMore with ⟨later, hLater, hKeepsMore⟩
      have hHolds := ((holds_comments hBefore).trans
        hOwn).trans hLater
      refine ⟨before ++ own ++ later, ?_, ?_⟩
      · simpa [List.append_assoc] using hHolds
      · rw [List.flatMap_cons]
        exact hKeeps.append hKeepsMore

theorem holdsOwn_function
    (order : Order) :
    HoldsOwn (function order) Function.tokens
      Function.commentLists := by
  intro before text found rest h
  have h := Scan.labelled_eq_ok_iff.mp h
  rcases Scan.bind_eq_ok_iff.mp h with
    ⟨returnType, _, hType, h⟩
  rcases Scan.bind_eq_ok_iff.mp h with ⟨name, _, hName, h⟩
  rcases Scan.bind_eq_ok_iff.mp h with ⟨_, _, hOpen, h⟩
  rcases Scan.bind_eq_ok_iff.mp h with
    ⟨⟨fields, dangling⟩, _, hFields, h⟩
  rcases Scan.bind_eq_ok_iff.mp h with
    ⟨annotations, _, hAnnotations, h⟩
  rcases Scan.bind_eq_ok_iff.mp h with
    ⟨_, _, hSeparator, h⟩
  rcases Scan.bind_eq_ok_iff.mp h with
    ⟨beside, _, hBeside, hPure⟩
  cases hPure
  rcases holds_members (holdsOwn_field order) (by decide)
    hFields with
    ⟨inner, hParameters, hKeeps⟩
  have hEnd := (holds_annotations? hAnnotations).trans
    ((holds_separator hSeparator).trans
      (holds_inlineComment hBeside))
  have hAll := (holds_idlType hType).trans
    ((holds_identifier hName).trans
      ((holds_symbol hOpen (by decide)).trans
        (hParameters.trans hEnd)))
  refine ⟨inner ++ (dangling ++ beside), ?_, ?_⟩
  · simpa [Function.tokens] using hAll
  · rw [← List.map_eq_flatMap] at hKeeps
    exact hKeeps.around

-- Definitions

/- A block holds its name, and its members in braces. -/
theorem holds_block
    {α : Type}
    {member : List Comment → Scan α}
    {consumes : ∀ before, Scan.Consumes (member before)}
    {tokens : α → List Token}
    {lists : α → List (List Comment)}
    (hMember : HoldsOwn member tokens lists)
    (before : List Comment)
    {name afterName afterOpen : Text}
    {found : List α}
    {trailing : List Comment}
    (hName : identifier text = .ok (name, afterName))
    (hOpen :
      symbol '\x7b' afterName = .ok ((), afterOpen))
    (hMembers : members member consumes '\x7d' afterOpen =
      .ok ((found, trailing), rest)) :
    ∃ own,
      Holds (blockTokens name (found.flatMap tokens)) own
          text rest ∧
        Keeps
          (before :: (found.flatMap lists ++ [trailing]))
          (before ++ own) := by
  rcases holds_members hMember (by decide) hMembers with
    ⟨inner, hInner, hKeeps⟩
  exact ⟨inner ++ trailing,
    (holds_identifier hName).trans
      ((holds_symbol hOpen (by decide)).trans hInner),
    Keeps.cons before (hKeeps.append (.single trailing))⟩

theorem holds_definitionBody
    {before : List Comment}
    {kind : Kind}
    {found : Definition}
    (h : definitionBody order before kind text =
      .ok (found, rest)) :
    found.kind = kind ∧
      ∃ own, Holds found.bodyTokens own text rest ∧
        Keeps found.commentLists (before ++ own) := by
  unfold Definition.commentLists Definition.memberLists
  simp only [List.map_eq_flatMap]
  cases kind with
  | nameSpace =>
      rcases Scan.bind_eq_ok_iff.mp h with
        ⟨scope, _, hScope, h⟩
      rcases Scan.bind_eq_ok_iff.mp h with
        ⟨name, _, hName, hPure⟩
      cases hPure
      exact ⟨rfl, [], (holds_identifier hScope).trans
        (holds_identifier hName),
        Keeps.cons before (.single [])⟩
  | inclusion =>
      rcases Scan.bind_eq_ok_iff.mp h with
        ⟨path, _, hPath, hPure⟩
      cases hPure
      exact ⟨rfl, [], holds_stringLiteral hPath,
        Keeps.cons before (.single [])⟩
  | struct =>
      rcases Scan.bind_eq_ok_iff.mp h with
        ⟨name, _, hName, h⟩
      rcases Scan.bind_eq_ok_iff.mp h with ⟨_, _, hOpen, h⟩
      rcases Scan.bind_eq_ok_iff.mp h with
        ⟨⟨fields, trailing⟩, _, hFields, hPure⟩
      cases hPure
      exact ⟨rfl, holds_block (holdsOwn_field order) before
        hName hOpen hFields⟩
  | enum =>
      rcases Scan.bind_eq_ok_iff.mp h with
        ⟨name, _, hName, h⟩
      rcases Scan.bind_eq_ok_iff.mp h with ⟨_, _, hOpen, h⟩
      rcases Scan.bind_eq_ok_iff.mp h with
        ⟨⟨found, trailing⟩, _, hMembers, hPure⟩
      cases hPure
      exact ⟨rfl, holds_block holdsOwn_enumMember before
        hName hOpen hMembers⟩
  | service =>
      rcases Scan.bind_eq_ok_iff.mp h with
        ⟨name, _, hName, h⟩
      rcases Scan.bind_eq_ok_iff.mp h with ⟨_, _, hOpen, h⟩
      rcases Scan.bind_eq_ok_iff.mp h with
        ⟨⟨functions, trailing⟩, _, hFunctions, hPure⟩
      cases hPure
      exact ⟨rfl, holds_block (holdsOwn_function order)
        before hName hOpen hFunctions⟩

/- A definition holds its tokens, whichever kind it is. -/
theorem holds_topDefinition
    {before : List Comment}
    {earlier furthest : Option Failure}
    {found : Definition}
    (h : topDefinition order before earlier text =
      .ok ((found, rest), furthest)) :
    ∃ own, Holds found.tokens own text rest ∧
      Keeps found.commentLists (before ++ own) := by
  -- a failed attempt gives back what it has read
  rcases exists_of_topDefinition h with ⟨kind, _, hKind⟩
  rcases exists_of_definition hKind with
    ⟨after, hKeyword, hBody⟩
  have hWord := keyword?_eq_some_iff.mpr
    (keyword_eq_ok_iff.mp hKeyword)
  rcases holds_definitionBody hBody with
    ⟨hSame, own, hHolds, hKeeps⟩
  unfold Definition.tokens
  rw [hSame]
  have hKind := holds_keyword? kind.isWord_word hWord
  exact ⟨own, hKind.trans hHolds, hKeeps⟩

-- Documents

theorem holds_documentFrom
    {earlier : Option Failure}
    (h : documentFrom order earlier text =
      .ok (document, rest)) :
    squeeze .code text =
        document.tokens.flatMap Token.squeezed ∧
      Keeps document.commentLists (collect .code text) := by
  rcases document with ⟨body, trailing⟩
  unfold Document.tokens
  induction body generalizing earlier text with
  | nil =>
      have hHolds := holds_comments (cases_of_documentFrom h).1
      refine ⟨hHolds.tokens, ?_⟩
      rw [hHolds.comments]
      change Keeps [trailing] (trailing ++ [])
      rw [List.append_nil]
      exact Keeps.single trailing
  | cons first more ih =>
      rcases cases_of_documentFrom h with
        ⟨before, inner, after, furthest, hComments, hTop,
          hMore⟩
      rcases holds_topDefinition hTop with
        ⟨own, hOwn, hFirst⟩
      rcases ih hMore with ⟨hTokens, hKeeps⟩
      have hHolds := (holds_comments hComments).trans hOwn
      have hAll := hFirst.append hKeeps
      constructor
      · rw [hHolds.tokens, hTokens]
        simp
      · rw [hHolds.comments]
        simpa [Document.commentLists] using hAll

theorem keeps_documentFrom
    {earlier : Option Failure}
    (h : documentFrom order earlier text =
      .ok (document, rest)) :
    Keeps document.commentLists (collect .code text) :=
  (holds_documentFrom h).2

/-
  Reading loses, doubles and invents no comment. All lists
  of comments in a document together are the comments of
  its source, and each list is in the order of the source.
-/
theorem Document.parse_keeps_comments
    {source : Text}
    {file : Option Text}
    {document : Document}
    (h : Document.parse source file = .ok document) :
    document.commentLists.flatten.Perm
        (collect .code source) ∧
      ∀ list ∈ document.commentLists,
        list.Sublist (collect .code source) := by
  unfold Document.parse at h
  split at h
  · cases h
  · next hRead =>
      cases h
      unfold Document.read at hRead
      split at hRead
      · cases hRead
      · next hDocument =>
          cases hRead
          have hKeeps := keeps_documentFrom
            (Scan.labelled_eq_ok_iff.mp hDocument)
          exact ⟨hKeeps.all, hKeeps.ordered⟩

/- A function with comments around it and inside of it. -/
def scatteredField : Field where
  id := ['1']
  requiredness := none
  type := .primitive .i16
  name := ['x']
  annotations := some [⟨['k'], "/*".toList⟩]
  comments := [.line ['b'], .line "c\"".toList]

def scatteredFunction : Function where
  returnType := .primitive .void
  name := ['f']
  fields := [scatteredField]
  annotations := none
  comments := [.block [['a']], .block [['d']], .line ['e']]

def scatteredService : ServiceDef where
  name := ['s']
  functions := [scatteredFunction]
  comments := []
  trailing := []

def scatteredDocument : Document where
  body := [.service scatteredService]
  trailing := []

def scatteredLayout : Layout scatteredDocument where
  body :=
    [.service scatteredService
      [{ value := scatteredFunction
         parameters :=
           [{ value := scatteredField
              margin :=
                { leading := [.line ['b']]
                  separator := none
                  beside := some "c\"".toList }
              split := rfl }]
         inner := [.block [['d']]]
         margin :=
           { leading := [.block [['a']]]
             separator := some .semicolon
             beside := some ['e'] }
         same := rfl
         split := rfl }]
      rfl]
  same := rfl

theorem wellFormed_scatteredField :
    scatteredField.WellFormed where
  id := ⟨by decide, List.forall_mem_singleton.mpr rfl⟩
  type := trivial
  bare := by
    intro _ requiredness hType
    cases hType
  name := by decide
  annotations := by
    intro found hFound
    cases hFound
    exact ⟨by simp, List.forall_mem_singleton.mpr
      ⟨by decide, by decide⟩⟩
  comments := by
    simp only [scatteredField, List.forall_mem_cons]
    exact ⟨⟨by decide, by decide⟩, ⟨by decide, by decide⟩,
      by simp⟩

theorem wellFormed_scatteredDocument :
    scatteredDocument.WellFormed where
  body := List.forall_mem_singleton.mpr
    { content := ⟨by decide, List.forall_mem_singleton.mpr
        { returnType := trivial
          name := by decide
          fields := List.forall_mem_singleton.mpr
            wellFormed_scatteredField
          annotations := by
            intro found hFound
            cases hFound
          comments := by
            simp only [scatteredFunction,
              List.forall_mem_cons]
            exact ⟨⟨by decide, List.forall_mem_singleton.mpr
                ⟨⟨by decide, by decide⟩, by decide⟩⟩,
              ⟨by decide, List.forall_mem_singleton.mpr
                ⟨⟨by decide, by decide⟩, by decide⟩⟩,
              ⟨by decide, by decide⟩, by simp⟩ }⟩
      comments := by
        simp [Definition.comments, scatteredService]
      trailing := by
        simp [Definition.trailing, scatteredService] }
  trailing := by simp [scatteredDocument]

theorem parse_keeps_scattered_comments :
    let source :=
      "service s \x7b\n/*a*/\nvoid f(\n// b\n".toList ++
        "1: i16 x (k=\"/*\") // c\"\n/*d*/\n); // e\n\x7d\n".toList
    Document.parse source none = .ok scatteredDocument ∧
      collect .code source =
        [.block [['a']], .line ['b'], .line "c\"".toList,
          .block [['d']], .line ['e']] ∧
      scatteredDocument.commentLists.flatten.Perm
        (collect .code source) ∧
      ∀ list ∈ scatteredDocument.commentLists,
        list.Sublist (collect .code source) := by
  intro source
  have hText :
      scatteredDocument.print scatteredLayout = source := by
    decide
  have hParse :
      Document.parse source none = .ok scatteredDocument := by
    rw [← hText, Document.parse,
      Document.read_print Order.isFull_usual
        wellFormed_scatteredDocument scatteredLayout]
  exact ⟨hParse, by decide,
    Document.parse_keeps_comments hParse⟩

-- Tokens

/- A document that is read is all that its source holds. -/
theorem Document.squeeze_read
    {source : Text}
    (h : Document.read order source = .ok document) :
    squeeze .code source =
      document.tokens.flatMap Token.squeezed := by
  unfold Document.read at h
  split at h
  · cases h
  · next hDocument =>
      cases h
      exact (holds_documentFrom
        (Scan.labelled_eq_ok_iff.mp hDocument)).1

/-
  Reading drops, invents and reorders no token: squeezed, a
  source is what is written back from its document in any
  layout, and it is made up of the tokens of the document.
-/
theorem Document.parse_keeps_tokens
    {source : Text}
    {file : Option Text}
    {document : Document}
    (h : Document.parse source file = .ok document) :
    squeeze .code source =
        document.tokens.flatMap Token.squeezed ∧
      ∀ layout : Layout document,
        squeeze .code source =
          squeeze .code (document.print layout) := by
  have hRead := Document.parse_eq_ok_iff.mp h
  have hWell := Document.wellFormed_of_read
    Order.isFull_usual hRead
  have hSource := Document.squeeze_read hRead
  refine ⟨hSource, fun layout => ?_⟩
  have hPrinted := Document.squeeze_read
    (Document.read_print Order.isFull_usual hWell layout)
  rw [hSource, hPrinted]

/- Comments around a literal with the mark of one in it. -/
theorem parse_keeps_scattered_tokens :
    let source := scatteredDocument.print scatteredLayout
    Document.parse source none = .ok scatteredDocument ∧
      squeeze .code source =
        "services\x7bvoidf(1:i16x(k=\"/*\"))\x7d".toList ∧
      squeeze .code source =
        squeeze .code
          (scatteredDocument.print
            (.plain scatteredDocument)) := by
  intro source
  have hParse :
      Document.parse source none = .ok scatteredDocument :=
    Document.parse_eq_ok_iff.mpr
      (Document.read_print Order.isFull_usual
        wellFormed_scatteredDocument scatteredLayout)
  exact ⟨hParse, by decide,
    (Document.parse_keeps_tokens hParse).2 _⟩

end Idl

end ThriftTypings
