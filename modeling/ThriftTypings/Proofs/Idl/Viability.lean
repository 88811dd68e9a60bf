import ThriftTypings.Proofs.Idl.Completion

/-
  This file proves that a failure is never reported too
  late: what stands in front of its place is the start of a
  document, or of a type, that can be read.

  Definitions of all kinds are tried from one place, and the
  furthest failure counts. It is completed as the kind that
  it comes from.

  Key definitions include:
    * `Document.cons`
    * `DocumentCompletion`

  Key theorems include:
    * `documentFrom_completes`
    * `parse_fails_at_viable_prefix`
-/

namespace ThriftTypings

namespace Idl

-- Definitions

section Definition

variable {order : Order} {before : List Comment} {kind : Kind}
variable {text rest : Text} {failure : Failure}

/- A definition fails at its keyword, or after it. -/
theorem cases_of_definition_error
    (h : definition order before kind text =
      .error failure) :
    failure.rest = skipSpace text ∨
      ∃ rest found, keyword kind.word text = .ok ((), rest) ∧
        definitionBody order before kind rest =
          .error found ∧
        failure.rest = found.rest := by
  rcases Scan.error_of_labelled h with ⟨found, hFound, rfl⟩
  rcases Scan.bind_eq_error_iff.mp hFound with
    hMissing | ⟨_, rest, hKeyword, hBody⟩
  · left
    unfold keyword at hMissing
    split at hMissing
    · cases hMissing
    · cases hMissing
      rfl
  · exact .inr ⟨rest, found, hKeyword, hBody, rfl⟩

/- One text has one keyword. -/
theorem kind_unique
    {other : Kind}
    {left : Text}
    (h : keyword kind.word text = .ok ((), rest))
    (hOther : keyword other.word text = .ok ((), left)) :
    other = kind := by
  rcases keyword_eq_ok_iff.mp h with ⟨hText, hRest⟩
  rcases keyword_eq_ok_iff.mp hOther with ⟨hSame, hLeft⟩
  rw [hText] at hSame
  exact (Kind.word_injective (word_unique kind.isWord_word.2
    other.isWord_word.2 hRest hLeft hSame).1).symm

/-
  A definition fails where its keyword is missing, or it can
  be completed after the keyword.
-/
theorem definition_completes
    (h : definition order before kind text =
      .error failure) :
    failure.rest = skipSpace text ∨
      ∃ front more found, text = front ++ failure.rest ∧
        Solid front ∧
        definition order before kind (front ++ more) =
          .ok (found, []) := by
  rcases cases_of_definition_error h with
    hRest | ⟨rest, found, hKeyword, hBody, hRest⟩
  · exact .inl hRest
  · right
    rcases local_keyword kind.isWord_word text () rest hKeyword
      with ⟨used, hText, hUsed, hReads⟩
    rcases (viable_definitionBody order before kind).completes
      rest found hBody with
      ⟨front, more, value, hSplit, _, hSeen, hDone⟩
    refine ⟨used ++ front, more, value, ?_,
      hUsed.append front, ?_⟩
    · rw [hText, hSplit, hRest, List.append_assoc]
    · rw [List.append_assoc]
      apply Scan.labelled_eq_ok_iff.mpr
      exact Scan.bind_ok (hReads _ hSeen) hDone

end Definition

-- Alternatives

theorem Failure.further_cases
    (earlier : Option Failure)
    (later : Failure) :
    Failure.further earlier later = later ∨
      earlier = some (Failure.further earlier later) := by
  cases earlier with
  | none => exact .inl rfl
  | some failure =>
      unfold Failure.further
      dsimp only
      split
      · exact .inl rfl
      · exact .inr rfl

/- The furthest failure is one that happened. -/
theorem furthest_of_tryEach
    {α κ : Type}
    {scan : κ → Scan α}
    {text : Text}
    {choices : List κ}
    {earlier : Option Failure}
    {failure : Failure}
    (h : (tryEach scan text choices earlier).furthest =
      some failure) :
    earlier = some failure ∨
      ∃ choice ∈ choices,
        scan choice text = .error failure := by
  induction choices generalizing earlier with
  | nil => exact .inl h
  | cons choice more ih =>
      unfold tryEach at h
      split at h
      · exact .inl h
      · next found hFound =>
          rcases ih h with hHere | ⟨other, hMem, hOther⟩
          · rcases Failure.further_cases earlier found with
              hLater | hEarlier
            · right
              refine ⟨choice, List.mem_cons_self, ?_⟩
              rw [hFound, ← hLater]
              exact congrArg _ (Option.some.inj hHere)
            · left
              rw [hEarlier]
              exact hHere
          · exact .inr
              ⟨other, List.mem_cons_of_mem _ hMem, hOther⟩

section TopDefinition

variable {order : Order} {before : List Comment}
variable {earlier furthest : Option Failure}
variable {text rest : Text} {failure : Failure}
variable {found : Definition}

theorem cases_of_topDefinition_error
    (h : topDefinition order before earlier text =
      .error failure) :
    earlier = some failure ∨ failure.rest = text ∨
      ∃ kind ∈ order.kinds,
        definition order before kind text =
          .error failure := by
  unfold topDefinition at h
  split at h
  · cases h
  · next furthest hTry =>
      cases h
      rcases Failure.further_cases furthest
        ⟨.noDefinition, [], text⟩ with hLater | hEarlier
      · rw [hLater]
        exact .inr (.inl rfl)
      · have hFurthest := (congrArg Attempt.furthest
          hTry).trans hEarlier
        rcases furthest_of_tryEach hFurthest with
          hBefore | hKind
        · exact .inl hBefore
        · exact .inr (.inr hKind)

theorem cases_of_topDefinition
    (h : topDefinition order before earlier text =
      .ok ((found, rest), furthest)) :
    (∃ kind ∈ order.kinds,
      definition order before kind text = .ok (found, rest)) ∧
    ∀ failure, furthest = some failure →
      earlier = some failure ∨
        ∃ kind ∈ order.kinds,
          definition order before kind text =
            .error failure := by
  refine ⟨exists_of_topDefinition h, ?_⟩
  unfold topDefinition at h
  split at h
  · next hTry =>
      cases h
      intro failure hFurthest
      exact furthest_of_tryEach
        ((congrArg Attempt.furthest hTry).trans hFurthest)
  · cases h

/-
  A definition that is read is the one that counts, and the
  other kinds fail where it starts.
-/
theorem topDefinition_of_definition
    {kind : Kind}
    (hKind : kind ∈ order.kinds)
    (h : definition order before kind text =
      .ok (found, rest))
    (earlier : Option Failure) :
    ∃ furthest, topDefinition order before earlier text =
        .ok ((found, rest), furthest) ∧
      ∀ failure, furthest = some failure →
        earlier = some failure ∨
          failure.rest = skipSpace text := by
  rcases exists_of_definition h with ⟨after, hKeyword, _⟩
  have hOnly (other : Kind) (result : Definition × Text)
      (hOther : definition order before other text =
        .ok result) : other = kind := by
    rcases exists_of_definition hOther with ⟨_, hWord, _⟩
    exact kind_unique hKeyword hWord
  rcases tryEach_eq h hOnly hKind earlier with
    ⟨furthest, hTry⟩
  have hTop : topDefinition order before earlier text =
      .ok ((found, rest), furthest) := by
    simp only [topDefinition, hTry]
  refine ⟨furthest, hTop, fun failure hFurthest => ?_⟩
  rcases (cases_of_topDefinition hTop).2 failure hFurthest with
    hBefore | ⟨other, _, hOther⟩
  · exact .inl hBefore
  · right
    rcases cases_of_definition_error hOther with
      hRest | ⟨_, _, hWord, _, _⟩
    · exact hRest
    · -- the keyword is there, so this kind did not fail
      rw [kind_unique hKeyword hWord, h] at hOther
      cases hOther

end TopDefinition

-- Documents

section Documents

variable {order : Order}

/- A document with one more definition at its start. -/
def Document.cons
    (found : Definition)
    (document : Document) : Document :=
  { document with body := found :: document.body }

section Start

variable {text inner rest : Text} {before : List Comment}
variable {earlier furthest : Option Failure}
variable {found : Definition}

theorem documentFrom_of_top
    (hComments : comments text = .ok (before, inner))
    (hTop : topDefinition order before earlier inner =
      .ok ((found, rest), furthest)) :
    documentFrom order earlier text =
      (documentFrom order furthest rest).map
        (fun (document, left) =>
          (document.cons found, left)) := by
  have hShorter := (topDefinition_suffix hTop).2
  cases inner with
  | nil => exact absurd hShorter (by simp)
  | cons c more =>
      rw [documentFrom_eq, hComments]
      simp only [hTop]
      cases documentFrom order furthest rest with
      | error failure => rfl
      | ok result => rfl

theorem documentFrom_of_top_error
    (hComments : comments text = .ok (before, inner))
    (hInner : inner ≠ [])
    {failure : Failure}
    (hTop : topDefinition order before earlier inner =
      .error failure) :
    documentFrom order earlier text = .error failure := by
  cases inner with
  | nil => exact absurd rfl hInner
  | cons c more =>
      rw [documentFrom_eq, hComments]
      simp only [hTop]

/-
  A document that starts with a definition is read on after
  it, with no failure from further on.
-/
theorem documentFrom_of_definition
    {kind : Kind}
    (hKind : kind ∈ order.kinds)
    (hComments : comments text = .ok (before, inner))
    (hFound : definition order before kind inner =
      .ok (found, rest))
    (earlier : Option Failure) :
    ∃ furthest,
      documentFrom order earlier text =
        (documentFrom order furthest rest).map
          (fun (document, left) =>
            (document.cons found, left)) ∧
      ∀ failure, furthest = some failure →
        earlier = some failure ∨ failure.rest = inner := by
  rcases topDefinition_of_definition hKind hFound earlier with
    ⟨furthest, hTop, hFurthest⟩
  refine ⟨furthest, documentFrom_of_top hComments hTop, ?_⟩
  rwa [(comments_local hComments).1.space] at hFurthest

end Start

/-
  What stands in front of the rest is the start of a
  document. It is read whatever had failed before.
-/
def DocumentCompletion
    (order : Order)
    (text rest : Text) : Prop :=
  ∃ front more, text = front ++ rest ∧
    Replaces [.word] text (front ++ more) ∧
    ∀ earlier, ∃ document,
      documentFrom order earlier (front ++ more) =
        .ok (document, [])

section Completion

variable {text inner rest : Text} {before : List Comment}
variable {failure : Failure} {kind : Kind}
variable {found : Definition}

theorem documentFrom_of_comments
    (h : comments text = .ok (before, []))
    (earlier : Option Failure) :
    documentFrom order earlier text =
      .ok ({ body := [], trailing := before }, []) := by
  rw [documentFrom_eq, h]

theorem comments_end :
    comments [] = .ok ([], []) :=
  comments_nil (Look.holds_nil (.sight (· == '/')))

/- After comments a document may end. -/
theorem completion_of_comments
    (h : comments text = .ok (before, rest)) :
    DocumentCompletion order text rest := by
  rcases comments_local h with ⟨_, used, hText, hUsed, hReads⟩
  refine ⟨used, [], hText, ?_, fun earlier => ?_⟩
  · rw [hText]
    rcases hUsed with hGap | hSolid
    · exact replaces_gap hGap
        (fun look _ => look.holds_nil) rest
    · exact hSolid.replaces _ rest []
  · have hAgain := hReads [] fun look _ _ => look.holds_nil
    rw [comments_end] at hAgain
    exact ⟨_, documentFrom_of_comments hAgain earlier⟩

/- After an open comment it is closed, and that is all. -/
theorem completion_of_open
    (h : comments text = .error failure) :
    DocumentCompletion order text failure.rest := by
  rcases comments_open h with
    ⟨front, found, hText, hFront, hReads⟩
  refine ⟨front, ['*', '/'], hText, ?_, fun earlier => ?_⟩
  · rw [hText]
    exact hFront.replaces _ failure.rest _
  · have hAgain := hReads []
    rw [comments_end] at hAgain
    exact ⟨_, documentFrom_of_comments hAgain earlier⟩

/- A definition that fails is the last one, completed. -/
theorem completion_of_definition_error
    (hKind : kind ∈ order.kinds)
    (hComments : comments text = .ok (before, inner))
    (h : definition order before kind inner =
      .error failure) :
    DocumentCompletion order text failure.rest := by
  rcases definition_completes h with
    hRest | ⟨front, more, found, hInner, hFront, hDone⟩
  · rw [hRest, (comments_local hComments).1.space]
    exact completion_of_comments hComments
  · rw [hInner] at hComments
    rcases comments_before_solid hComments hFront with
      ⟨used, hText, hReads⟩
    refine ⟨used ++ front, more, ?_, ?_, fun earlier => ?_⟩
    · rw [hText, List.append_assoc]
    · rw [hText, ← List.append_assoc]
      exact (hFront.prepend used).replaces _ failure.rest more
    · rcases documentFrom_of_definition hKind (hReads more)
        hDone earlier with ⟨furthest, hDocument, _⟩
      rw [List.append_assoc, hDocument,
        documentFrom_of_comments comments_end]
      exact ⟨_, rfl⟩

/- What comes after a definition is completed after it. -/
theorem completion_of_definition
    (hKind : kind ∈ order.kinds)
    (hComments : comments text = .ok (before, inner))
    {after : Text}
    (h : definition order before kind inner =
      .ok (found, after))
    (hAfter : DocumentCompletion order after rest) :
    DocumentCompletion order text rest := by
  rcases local_definition order before kind inner found after h
    with ⟨used, hInner, hUsed, hReads⟩
  rcases hAfter with ⟨front, more, hSplit, hSeen, hDone⟩
  rw [hInner] at hComments
  rcases comments_before_solid hComments hUsed with
    ⟨opening, hText, hAgain⟩
  refine ⟨opening ++ (used ++ front), more, ?_, ?_,
    fun earlier => ?_⟩
  · rw [hText, hSplit]
    simp
  · have hSolid := (hUsed.prepend opening).replaces [.word]
      after (front ++ more)
    rw [hText]
    simpa using hSolid
  · rcases documentFrom_of_definition hKind
      (hAgain (front ++ more)) (hReads _ hSeen) earlier with
      ⟨furthest, hDocument, _⟩
    rcases hDone furthest with ⟨document, hRest⟩
    rw [hRest] at hDocument
    refine ⟨document.cons found, ?_⟩
    simp only [List.append_assoc]
    exact hDocument

end Completion

/- A document fails where it can be completed. -/
theorem documentFrom_completes
    {earlier : Option Failure}
    {text : Text}
    {failure : Failure}
    (h : documentFrom order earlier text = .error failure) :
    earlier = some failure ∨
      DocumentCompletion order text failure.rest := by
  -- each definition leaves less text for the others
  induction hn : text.length using Nat.strongRecOn
    generalizing text earlier with
  | ind n ih =>
      rw [documentFrom_eq] at h
      split at h
      · next opened hOpened =>
          cases h
          rcases Failure.further_cases earlier opened with
            hLater | hEarlier
          · rw [hLater]
            exact .inr (completion_of_open hOpened)
          · exact .inl hEarlier
      · cases h
      · next before c inner hComments =>
          split at h
          · next hTop =>
              cases h
              rcases cases_of_topDefinition_error hTop with
                hEarlier | hRest | ⟨kind, hKind, hFailed⟩
              · exact .inl hEarlier
              · rw [hRest]
                exact .inr (completion_of_comments hComments)
              · exact .inr (completion_of_definition_error
                  hKind hComments hFailed)
          · next found after furthest hTop =>
              split at h
              · next hRest =>
                  cases h
                  rcases cases_of_topDefinition hTop with
                    ⟨⟨kind, hKind, hFound⟩, hFurthest⟩
                  have hStart :=
                    (advances_comments _ _ _ hComments).length_le
                  have hShorter := (topDefinition_suffix hTop).2
                  rcases ih after.length (by omega) hRest rfl
                    with hBefore | hAfter
                  · rcases hFurthest failure hBefore with
                      hEarlier | ⟨other, hOther, hFailed⟩
                    · exact .inl hEarlier
                    · exact .inr (completion_of_definition_error
                        hOther hComments hFailed)
                  · exact .inr (completion_of_definition hKind
                      hComments hFound hAfter)
              · cases h

end Documents

theorem Document.read_completes
    {order : Order}
    {source : Text}
    {failure : Failure}
    (h : Document.read order source = .error failure) :
    ∃ front more document, source = front ++ failure.rest ∧
      Document.read order (front ++ more) = .ok document := by
  unfold Document.read at h
  split at h
  · next found hFailed =>
      cases h
      rcases Scan.error_of_labelled hFailed with
        ⟨inner, hInner, rfl⟩
      rcases documentFrom_completes hInner with
        hNone | ⟨front, more, hSource, _, hDone⟩
      · cases hNone
      · rcases hDone none with ⟨document, hDocument⟩
        refine ⟨front, more, document, hSource, ?_⟩
        unfold Document.read
        rw [Scan.labelled_eq_ok_iff.mpr hDocument]
  · cases h

-- Complete Types

theorem completeType_of_idlType
    {order : Order}
    {text gap : Text}
    {type : IdlType}
    (h : idlType order text = .ok (type, gap))
    (hGap : IsGap gap) :
    completeType order text = .ok (type, []) := by
  have hEnd : skipSpace gap = [] := by
    have hSkip := skipSpace_gap hGap []
    rwa [List.append_nil] at hSkip
  apply Scan.bind_ok h
  apply Scan.bind_ok
    (show Scan.passing skipSpace gap = .ok ((), []) by
      rw [Scan.passing, hEnd])
  rfl

/- A complete type fails in the type, or after its end. -/
theorem completeType_completes
    {order : Order}
    {text : Text}
    {failure : Failure}
    (h : completeType order text = .error failure) :
    ∃ front more type, text = front ++ failure.rest ∧
      completeType order (front ++ more) = .ok (type, []) := by
  rcases Scan.bind_eq_error_iff.mp h with
    hType | ⟨type, rest, hType, hEnd⟩
  · have hViable : (idlType order).Viable [] :=
      viable_idlType order (by decide)
    rcases hViable.completes text failure hType with
      ⟨front, more, type, hText, _, _, hDone⟩
    exact ⟨front, more, type, hText,
      completeType_of_idlType hDone (by simp [IsGap])⟩
  · have hRest : failure.rest = skipSpace rest := by
      rcases Scan.bind_eq_error_iff.mp hEnd with
        hSkip | ⟨_, after, hSkip, hAfter⟩
      · cases hSkip
      · cases hSkip
        split at hAfter
        · cases hAfter
        · cases hAfter
          rfl
    rcases local_idlType order text type rest hType with
      ⟨used, hText, _, hReads⟩
    rcases exists_gap rest with ⟨gap, hGap, hSplit⟩
    -- nothing that a type looks for is in white space
    have hBlank : Replaces [.word, .mark '<']
        (gap ++ skipSpace rest) (gap ++ []) :=
      replaces_gap hGap (fun look _ => look.holds_nil) _
    rw [← hSplit, List.append_nil] at hBlank
    refine ⟨used ++ gap, [], type, ?_, ?_⟩
    · rw [hRest, List.append_assoc, ← hSplit]
      exact hText
    · rw [List.append_nil]
      exact completeType_of_idlType (hReads gap hBlank) hGap

theorem IdlType.read_completes
    {order : Order}
    {source : Text}
    {failure : Failure}
    (h : IdlType.read order source = .error failure) :
    ∃ front more type, source = front ++ failure.rest ∧
      IdlType.read order (front ++ more) = .ok type := by
  unfold IdlType.read at h
  split at h
  · next found hFailed =>
      cases h
      rcases Scan.error_of_labelled hFailed with
        ⟨inner, hInner, rfl⟩
      rcases completeType_completes hInner with
        ⟨front, more, type, hSource, hDone⟩
      refine ⟨front, more, type, hSource, ?_⟩
      unfold IdlType.read
      rw [Scan.labelled_eq_ok_iff.mpr hDone]
  · cases h

-- Viable Prefixes

/- The start of a text that is accepted. -/
def IsViable
    {ε α : Type}
    (parse : Text → Except ε α)
    (front : Text) : Prop :=
  ∃ more result, parse (front ++ more) = .ok result

theorem IsViable.of_prefix
    {ε α : Type}
    {parse : Text → Except ε α}
    {front longer : Text}
    (h : IsViable parse longer)
    (hFront : front <+: longer) :
    IsViable parse front := by
  rcases h with ⟨more, result, hResult⟩
  rcases hFront with ⟨between, rfl⟩
  refine ⟨between ++ more, result, ?_⟩
  rw [← List.append_assoc]
  exact hResult

/-
  The place in front of the remaining text is not past the
  first one where the source stops being viable.
-/
structure PointsAtViable
    {ε α : Type}
    (parse : Text → Except ε α)
    (source remaining : Text) : Prop where
  splits : ∃ front, source = front ++ remaining ∧
    IsViable parse front
  first : ∀ front, front <+: source →
    ¬ IsViable parse front →
      source.length - remaining.length < front.length

theorem pointsAtViable_of_split
    {ε α : Type}
    {parse : Text → Except ε α}
    {front remaining : Text}
    (h : IsViable parse front) :
    PointsAtViable parse (front ++ remaining) remaining where
  splits := ⟨front, rfl, h⟩
  first longer hLonger hNot := by
    have hFront := List.prefix_append front remaining
    rcases List.prefix_or_prefix_of_prefix hFront hLonger with
      hLess | hMore
    · have hLength := hLess.length_le
      have hOther : front.length ≠ longer.length := by
        intro hSame
        rw [← hLess.eq_of_length hSame] at hNot
        exact hNot h
      rw [List.length_append]
      omega
    · exact absurd (h.of_prefix hMore) hNot

/-
  An error points at a viable place: what stands in front of
  it can be completed to a source that is accepted. This
  holds of documents and of types.
-/
theorem parse_fails_at_viable_prefix :
    (∀ source file error,
      Document.parse source file = .error error →
        PointsAtViable (Document.parse · file) source
          error.remaining) ∧
    (∀ source error,
      IdlType.parse source = .error error →
        PointsAtViable IdlType.parse source
          error.remaining) := by
  constructor
  · intro source file error hError
    unfold Document.parse at hError
    split at hError
    · next failure hFailed =>
        cases hError
        rcases Document.read_completes hFailed with
          ⟨front, more, document, rfl, hDone⟩
        apply pointsAtViable_of_split
        refine ⟨more, document, ?_⟩
        exact Document.parse_eq_ok_iff.mpr hDone
    · cases hError
  · intro source error hError
    unfold IdlType.parse at hError
    split at hError
    · next failure hFailed =>
        cases hError
        rcases IdlType.read_completes hFailed with
          ⟨front, more, type, rfl, hDone⟩
        apply pointsAtViable_of_split
        refine ⟨more, type, ?_⟩
        rw [IdlType.parse, hDone]
    · cases hError

/- A struct with no brace after its name. -/
def unopenedStruct : Text :=
  "struct s (".toList

/- The error of a document whose second definition fails. -/
def unopenedError : ParseError where
  message := "expected '\x7b'".toList
  context := ["document".toList, "struct".toList]
  line := 2
  column := 10
  remaining := ['(']

theorem documentFrom_unopenedStruct :
    documentFrom Order.usual none unopenedStruct =
      .error
        ⟨.noSymbol '\x7b', [.definition .struct], ['(']⟩ := by
  have hComments : comments unopenedStruct =
      .ok ([], unopenedStruct) :=
    comments_of_clear ⟨rfl, by decide, by decide⟩
  exact documentFrom_of_top_error hComments (by decide) rfl

theorem parse_unopenedStruct :
    Document.parse
        ("namespace a b\n".toList ++ unopenedStruct) none =
      .error unopenedError := by
  have hFirst : comments
      ("namespace a b\n".toList ++ unopenedStruct) =
        .ok ([], "namespace a b\n".toList ++ unopenedStruct) :=
    comments_of_clear ⟨rfl, by decide, by decide⟩
  have hAll := documentFrom_of_top hFirst
    (show topDefinition Order.usual [] none
        ("namespace a b\n".toList ++ unopenedStruct) =
      .ok ((.nameSpace ⟨['a'], ['b'], []⟩,
        '\n' :: unopenedStruct), none)
      from rfl)
  rw [documentFrom_newline, documentFrom_unopenedStruct]
    at hAll
  unfold Document.parse Document.read Scan.labelled
  rw [hAll]
  rfl

theorem parse_fails_at_unopened_struct :
    Document.parse
          ("namespace a b\n".toList ++ unopenedStruct) none =
        .error unopenedError ∧
      IdlType.parse "map<i32, list<x y>>".toList =
        .error
          { message := "expected '>'".toList
            context := ["type".toList, "type".toList,
              "type".toList]
            column := 17
            remaining := "y>>".toList } ∧
      PointsAtViable (Document.parse · none)
        ("namespace a b\n".toList ++ unopenedStruct) ['('] ∧
      PointsAtViable IdlType.parse
        "map<i32, list<x y>>".toList "y>>".toList := by
  have hType : IdlType.parse "map<i32, list<x y>>".toList =
      .error
        { message := "expected '>'".toList
          context := ["type".toList, "type".toList,
            "type".toList]
          column := 17
          remaining := "y>>".toList } := by
    decide +kernel
  exact ⟨parse_unopenedStruct, hType,
    parse_fails_at_viable_prefix.1 _ none _
      parse_unopenedStruct,
    parse_fails_at_viable_prefix.2 _ _ hType⟩

end Idl

end ThriftTypings
