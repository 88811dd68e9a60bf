import ThriftTypings.Proofs.Idl.Collected
import ThriftTypings.Proofs.Idl.Gaps

/-
  This file proves that a document without comments is read
  from its tokens, whatever the white space between them and
  the separators after its members.

  After a member there may be a separator or none, so what
  follows must not be taken for a part of that member.

  Key definitions include:
    * `goesOn`
    * `IsSpelledBy`

  Key theorems include:
    * `documentFrom_spells`
    * `Document.parse_any_spacing`
-/

namespace ThriftTypings

namespace Idl

variable {type : IdlType}

-- Types and Annotations

section Types

variable {order : Order} {follow : List Token → Prop}

theorem isDelimiter_of_beq
    {mark : Char}
    (h : isDelimiter mark = true)
    (c : Char)
    (hSame : (c == mark) = true) :
    isDelimiter c = true := by
  rw [beq_iff_eq.mp hSame]
  exact h

/- A composed type is read after its word and bracket. -/
theorem readsAs_opened
    (hOrder : order.IsFull)
    {generic : Generic}
    {tokens : List Token}
    (h : ReadsAs (composed (idlType order) generic) type
      tokens follow) :
    ReadsAs (idlType order) type
      (.word generic.word :: .mark '<' :: tokens) follow := by
  intro after more text hMore hText
  rcases hText.of_word generic.isWord_word with
    ⟨afterWord, hWord, hText⟩
  rcases hText.of_mark (by decide) with
    ⟨inner, hOpen, hText⟩
  rcases h false more inner hMore hText with
    ⟨word, rest, hRead, hRest⟩
  exact ⟨word, rest, idlType_opened hOrder hWord hOpen hRead,
    hRest⟩

/- A type is read unless a bracket follows. -/
theorem readsAs_idlType
    (hOrder : order.IsFull)
    (h : type.WellFormed) :
    ReadsAs (idlType order) type type.tokens
      (Follows (· == '<')) := by
  induction type with
  | primitive name =>
      intro after more text hMore hText
      rcases hText.of_word name.isWord_word with
        ⟨rest, hName, hRest⟩
      refine ⟨true, rest, idlType_eq_ok_iff.mpr
        (.inl ⟨name, ?_, rfl⟩), hRest⟩
      exact firstKeyword?_eq_some
        (fun word => word.isWord_word.2)
        Primitive.word_injective (hOrder.primitives name)
        hName (hRest.endsWord rfl hMore.word)
  | named name =>
      intro after more text hMore hText
      rcases hText.of_word h.1 with ⟨rest, hName, hRest⟩
      have hEnds := hRest.endsWord rfl hMore.word
      have hStops := hRest.stops
        (isDelimiter_of_beq (by decide)) hMore
      refine ⟨true, rest, idlType_eq_ok_iff.mpr
        (.inr ⟨?_, .inr ⟨?_, name, ?_, rfl⟩⟩), hRest⟩
      · exact firstKeyword?_eq_none
          (fun word => word.isWord_word.2) h.1.2 hName hEnds
          h.2
      · exact firstGeneric?_eq_none h.1.2 hName hEnds hStops
      · exact identifier_eq_ok_iff.mpr ⟨h.1, hEnds, hName⟩
  | list element ih =>
      apply readsAs_opened hOrder
      refine (ih h).bind ?_ ?_
      · exact (readsAs_symbol (by decide)).bind (.pure _ _)
          (fun _ _ => trivial)
      · exact fun _ _ => ⟨by decide, by decide, by decide⟩
  | map key value ihKey ihValue =>
      rcases h with ⟨hKey, hValue⟩
      apply readsAs_opened hOrder
      refine (ihKey hKey).bind ?_ ?_
      · refine (readsAs_symbol (by decide)).bind ?_
          (fun _ _ => trivial)
        refine (ihValue hValue).bind ?_ ?_
        · exact (readsAs_symbol (by decide)).bind (.pure _ _)
            (fun _ _ => trivial)
        · exact fun _ _ => ⟨by decide, by decide, by decide⟩
      · exact fun _ _ => ⟨by decide, by decide, by decide⟩

end Types

theorem readsAs_annot
    {found : Annot}
    (h : found.WellFormed) :
    ReadsAs annot found found.tokens (fun _ => True) := by
  refine (readsAs_identifier h.name).bind ?_ ?_
  · refine (readsAs_symbol (by decide)).bind ?_
      (fun _ _ => trivial)
    exact (readsAs_stringLiteral h.value).bind (.pure _ _)
      (fun _ _ => trivial)
  · exact fun _ _ => ⟨by decide, by decide, rfl⟩

/- Further annotations are read up to the parenthesis. -/
theorem readsAs_repeated_nextAnnot
    {found : List Annot}
    (h : ∀ annot ∈ found, annot.WellFormed) :
    ReadsAs (Scan.repeated nextAnnot progresses_nextAnnot)
      (found, ())
      (found.flatMap fun annot => .mark ',' :: annot.tokens)
      (fun more => ∃ others, more = .mark ')' :: others) := by
  intro after more text hMore hText
  rcases hMore with ⟨others, hOthers⟩
  induction found generalizing after text with
  | nil =>
      rw [List.flatMap_nil, List.nil_append, hOthers] at hText
      rcases hText.of_mark (by decide) with
        ⟨rest, hClose, _⟩
      have hLast : nextAnnot text =
          .ok (.last (), skipSpace text) := by
        rw [nextAnnot, hClose]
        rfl
      refine ⟨false, skipSpace text,
        Scan.repeated_last _ hLast, ?_⟩
      rw [hOthers]
      exact hText.skipSpace
        (show FollowsWord _ from
          ⟨by decide, by decide, rfl⟩)
  | cons first found ih =>
      rcases List.forall_mem_cons.mp h with ⟨hFirst, hFound⟩
      rw [List.flatMap_cons, List.append_assoc] at hText
      rcases hText.of_mark (by decide) with
        ⟨inner, hComma, hText⟩
      rcases readsAs_annot hFirst false _ inner trivial hText
        with ⟨word, rest, hRead, hRest⟩
      have hNext : nextAnnot text = .ok (.more first, rest) := by
        rw [nextAnnot, hComma]
        exact Scan.bind_ok hRead rfl
      rcases ih hFound word rest hRest with
        ⟨last, left, hRepeated, hLeft⟩
      exact ⟨last, left,
        Scan.repeated_more _ hNext hRepeated, hLeft⟩

/- Annotations are read unless a parenthesis follows. -/
theorem readsAs_annotations?
    {annotations : Option (List Annot)}
    (h : AnnotationsWellFormed annotations) :
    ReadsAs annotations? annotations
      (annotationsTokens annotations)
      (Follows (· == '(')) := by
  intro after more text hMore hText
  cases annotations with
  | none =>
      have hStops := Spells.stops
        (isDelimiter_of_beq (by decide)) hText hMore
      refine ⟨after, text, ?_, hText⟩
      unfold annotations?
      split
      · next hOpen => simp [Stops, hOpen] at hStops
      · rfl
  | some found =>
      rcases h found rfl with ⟨hNonempty, hAll⟩
      cases found with
      | nil => exact absurd rfl hNonempty
      | cons first found =>
          rcases List.forall_mem_cons.mp hAll with
            ⟨hFirst, hFound⟩
          have hList : ReadsAs annotList (first :: found)
              (listedTokens (first :: found) ++ [.mark ')'])
              (fun _ => True) := by
            apply ReadsAs.labelled
            rw [listedTokens, List.append_assoc]
            refine (readsAs_annot hFirst).bind ?_
              (fun _ _ => trivial)
            refine (readsAs_repeated_nextAnnot hFound).bind
              ?_ (fun more _ => ⟨more, rfl⟩)
            exact (readsAs_symbol (by decide)).bind
              (.pure _ _) (fun _ _ => trivial)
          rcases hText.of_mark (by decide) with
            ⟨inner, hOpen, hInner⟩
          rcases hList false more inner trivial hInner with
            ⟨word, rest, hRead, hRest⟩
          refine ⟨word, rest, ?_, hRest⟩
          rw [annotations?, hOpen]
          exact Scan.bind_ok hRead rfl

-- Ends of Members

/- Marks that go on with a member, or with a comment. -/
def goesOn
    (c : Char) : Bool :=
  continuesMember c || c == '/'

section Ends

variable {more : List Token} {after : Bool} {text : Text}

/- What goes on with nothing is fresh, without a comment. -/
theorem Spells.fresh
    (h : Spells after more text)
    (hMore : Follows goesOn more) :
    Fresh text := by
  apply h.stops (fun _ => isDelimiter_of_continuesMember)
  apply hMore.mono
  intro c hMember
  rw [goesOn, hMember, Bool.true_or]

theorem Spells.stops_slash
    (h : Spells after more text)
    (hMore : Follows goesOn more) :
    Stops (· == '/') (Idl.skipSpace text) := by
  apply h.stops (isDelimiter_of_beq (by decide))
  apply hMore.mono
  intro c hSlash
  rw [goesOn, hSlash, Bool.or_true]

end Ends

/- The separator in a slot is passed over. -/
theorem readsAs_separator :
    ReadsAs separator () [.slot] (Follows goesOn) := by
  intro after more text hMore hText
  rcases hText.of_slot with
    hSkipped | ⟨mark, rest, hMark, hRest⟩
  · refine ⟨after, text, ?_, hSkipped⟩
    rw [separator, Scan.passing,
      skipSeparator_of_fresh (hSkipped.fresh hMore)]
  · refine ⟨false, rest, ?_, hRest⟩
    have hSkip : skipSeparator text = rest := by
      rw [skipSeparator, hMark]
      cases mark <;> rfl
    rw [separator, Scan.passing, hSkip]

theorem skipSpace_dropWhile_isLineSpace
    (text : Text) :
    skipSpace (text.dropWhile isLineSpace) =
      skipSpace text := by
  induction text with
  | nil => rfl
  | cons c more ih =>
      by_cases hLine : isLineSpace c = true
      · have hSpace : isSpace c = true := by
          simp only [isLineSpace, isSpace,
            Bool.or_eq_true] at hLine ⊢
          tauto
        rw [List.dropWhile_cons_of_pos hLine, ih,
          skipSpace_cons_space hSpace]
      · rw [List.dropWhile_cons_of_neg hLine]

theorem readsAs_inlineComment :
    ReadsAs inlineComment [] [] (Follows goesOn) := by
  intro after more text hMore hText
  refine ⟨after, text, ?_, hText⟩
  have hStops := Spells.stops_slash hText hMore
  unfold inlineComment
  split
  · next hLine =>
      rw [← skipSpace_dropWhile_isLineSpace, hLine,
        skipSpace_cons (by decide)] at hStops
      have hSlash := hStops '/' rfl
      cases hSlash
  · rfl

theorem comments_spells
    {after : Bool}
    {tokens : List Token}
    {text : Text}
    (h : Spells after tokens text)
    (hTokens : Follows goesOn tokens) :
    comments text = .ok ([], skipSpace text) :=
  comments_nil (h.stops_slash hTokens)

/- A slot is fine in front of what goes on with nothing. -/
theorem follows_slot
    {mark : Char}
    (hMark : goesOn mark = true)
    (hOther : ∀ separator : Separator,
      (separator.mark == mark) = false)
    {more : List Token}
    (h : Follows goesOn more) :
    Follows (· == mark) (.slot :: more) := by
  refine ⟨hOther, h.mono ?_⟩
  intro c hSame
  rw [beq_iff_eq.mp hSame]
  exact hMark

/- Every member ends with a slot, and comments after it. -/
theorem readsAs_slot
    {α : Type}
    (build : List Comment → α) :
    ReadsAs
      (do
        separator
        let beside ← inlineComment
        pure (build beside) : Scan α)
      (build []) [.slot] (Follows goesOn) := by
  refine readsAs_separator.bind ?_ (fun _ hMore => hMore)
  exact readsAs_inlineComment.bind (.pure _ _)
    (fun _ hMore => hMore)

/- Annotations stand in front of the slot. -/
theorem readsAs_ending
    {α : Type}
    {annotations : Option (List Annot)}
    (h : AnnotationsWellFormed annotations)
    (build : Option (List Annot) → List Comment → α) :
    ReadsAs
      (do
        let found ← annotations?
        separator
        let beside ← inlineComment
        pure (build found beside) : Scan α)
      (build annotations [])
      (annotationsTokens annotations ++ [.slot])
      (Follows goesOn) := by
  refine (readsAs_annotations? h).bind
    (readsAs_slot (build annotations)) ?_
  intro more hMore
  apply follows_slot (by decide) _ hMore
  intro separator
  cases separator <;> decide

theorem followsWord_ending
    (annotations : Option (List Annot))
    {more : List Token}
    (h : Follows goesOn more) :
    FollowsWord
      (annotationsTokens annotations ++ [.slot] ++ more) := by
  cases annotations with
  | none => exact ⟨fun _ => rfl, h.word⟩
  | some found => exact ⟨by decide, by decide, rfl⟩

-- Fields

section Fields

variable {order : Order} (hOrder : order.IsFull)

/- After its first word a type is over, or a bracket opens. -/
theorem IdlType.tokens_eq
    (type : IdlType)
    {others : List Token}
    (h : FollowsWord others) :
    ∃ more,
      type.tokens ++ others = .word type.firstWord :: more ∧
        FollowsWord more := by
  cases type with
  | primitive name => exact ⟨others, rfl, h⟩
  | list element =>
      exact ⟨_, rfl, by decide, by decide, rfl⟩
  | map key value =>
      exact ⟨_, rfl, by decide, by decide, rfl⟩
  | named name => exact ⟨others, rfl, h⟩

include hOrder

theorem readsAs_requiredness?
    {requiredness : Option Requiredness}
    (hType : type.WellFormed)
    (hBare : requiredness = none →
      ∀ word : Requiredness, type ≠ .named word.word) :
    ReadsAs (requiredness? order) requiredness
      (requirednessTokens requiredness)
      (fun more => ∃ others,
        more = type.tokens ++ others ∧
          FollowsWord others) := by
  intro after more text hMore hText
  rcases hMore with ⟨others, hTokens, hOthers⟩
  rcases type.tokens_eq hOthers with
    ⟨following, hFirst, hFollowing⟩
  rw [hFirst] at hTokens
  subst hTokens
  unfold requiredness?
  cases requiredness with
  | some word =>
      rcases hText.of_word word.isWord_word with
        ⟨rest, hWord, hRest⟩
      have hRead : firstKeyword? Requiredness.word
          order.requiredness text = some (word, rest) := by
        apply firstKeyword?_eq_some
          (fun other => other.isWord_word.2)
          Requiredness.word_injective
          (hOrder.requiredness word) hWord
        exact hRest.endsWord rfl hType.isWord_firstWord
      exact ⟨true, rest, by rw [hRead], hRest⟩
  | none =>
      rcases Spells.of_word hType.isWord_firstWord hText with
        ⟨rest, hWord, hRest⟩
      have hNone : firstKeyword? Requiredness.word
          order.requiredness text = none := by
        apply firstKeyword?_eq_none
          (fun other => other.isWord_word.2)
          hType.isWord_firstWord.2 hWord
          (hRest.endsWord rfl hFollowing)
        exact word_ne_firstWord (hBare rfl)
      exact ⟨after, text, by rw [hNone], hText⟩

theorem readsAs_field
    {found : Field}
    (h : found.WellFormed)
    (hComments : found.comments = []) :
    ReadsAs (field order []) found found.tokens
      (Follows goesOn) := by
  rcases found with
    ⟨id, requiredness, type, name, annotations, comments⟩
  dsimp only at hComments
  subst hComments
  apply ReadsAs.labelled
  refine (readsAs_id h.id).bind ?_ (fun _ _ => ⟨_, rfl⟩)
  refine (readsAs_symbol (by decide)).bind ?_
    (fun _ _ => trivial)
  refine (readsAs_requiredness? hOrder h.type h.bare).bind
    ?_ ?_
  · refine (readsAs_idlType hOrder h.type).bind ?_
      (fun _ _ => h.name)
    exact (readsAs_identifier h.name).bind
      (readsAs_ending h.annotations _)
      (fun _ hMore => followsWord_ending annotations hMore)
  · intro more _
    exact ⟨_, List.append_assoc _ _ _, h.name⟩

end Fields

-- Enum Members

/- There may be a gap after a minus sign. -/
theorem readsAs_signedInteger
    {number : Text}
    (h : IsSigned number) :
    ReadsAs signedInteger number (signedTokens number)
      FollowsWord := by
  intro after more text hMore hText
  rcases h with hPlain | ⟨digits, hDigits, hNumber⟩
  · rw [signedTokens_digits hPlain.2] at hText
    have hStops : Stops (· == '-') (skipSpace text) :=
      Spells.stops (isDelimiter_of_beq (by decide)) hText
        hPlain.isWord
    rcases hText.of_word hPlain.isWord with
      ⟨rest, hNumber, hRest⟩
    refine ⟨true, rest, ?_, hRest⟩
    unfold signedInteger
    split
    · next hMinus =>
        rw [hMinus] at hStops
        have hSign := hStops '-' rfl
        cases hSign
    · rw [hNumber]
      exact integer_text hPlain
        (hPlain.startsWord.append rest).skipSpace_eq
        (stops_isDigit_of_endsWord (hRest.endsWord rfl hMore))
  · subst hNumber
    rcases hText.of_mark (by decide) with
      ⟨inner, hMinus, hInner⟩
    rcases readsAs_integer hDigits false more inner hMore
      hInner with ⟨word, rest, hRead, hRest⟩
    refine ⟨word, rest, ?_, hRest⟩
    rw [signedInteger, hMinus]
    exact Scan.bind_ok hRead rfl

theorem readsAs_enumValue?
    {value : Option Text}
    (h : ∀ number ∈ value, IsSigned number) :
    ReadsAs enumValue? value (valueTokens value)
      (Follows (· == '=')) := by
  intro after more text hMore hText
  cases value with
  | none =>
      have hStops := Spells.stops
        (isDelimiter_of_beq (by decide)) hText hMore
      refine ⟨after, text, ?_, hText⟩
      unfold enumValue?
      split
      · next hEquals => simp [Stops, hEquals] at hStops
      · rfl
  | some number =>
      rcases hText.of_mark (by decide) with
        ⟨inner, hEquals, hInner⟩
      rcases readsAs_signedInteger (h number rfl) false more
        inner hMore.word hInner with
        ⟨word, rest, hRead, hRest⟩
      refine ⟨word, rest, ?_, hRest⟩
      rw [enumValue?, hEquals]
      exact Scan.bind_ok hRead rfl

theorem readsAs_enumMember
    {found : EnumMember}
    (h : found.WellFormed)
    (hComments : found.comments = []) :
    ReadsAs (enumMember []) found found.tokens
      (Follows goesOn) := by
  rcases found with ⟨name, value, comments⟩
  dsimp only at hComments
  subst hComments
  apply ReadsAs.labelled
  refine (readsAs_identifier h.name).bind ?_ ?_
  · refine (readsAs_enumValue? h.value).bind
      (readsAs_slot _) ?_
    intro more hMore
    apply follows_slot (by decide) _ hMore
    intro separator
    cases separator <;> decide
  · intro more hMore
    cases value with
    | none => exact ⟨fun _ => rfl, hMore.word⟩
    | some number => exact ⟨by decide, by decide, rfl⟩

-- Lists of Members

/- A member without comments is read, and starts a word. -/
structure IsSpelledBy
    {α : Type}
    (member : List Comment → Scan α)
    (tokens : α → List Token)
    (value : α) : Prop where
  read : ReadsAs (member []) value (tokens value)
    (Follows goesOn)
  starts : ∃ word more,
    tokens value = .word word :: more ∧ IsWord word

/- Marks that close a list of members. -/
structure IsClosing
    (closing : Char) : Prop where
  delimiter : isDelimiter closing = true
  space : isSpace closing = false
  fresh : goesOn closing = false

theorem isClosing_parenthesis : IsClosing ')' :=
  ⟨by decide, by decide, by decide⟩

theorem isClosing_brace : IsClosing '\x7d' :=
  ⟨by decide, by decide, by decide⟩

section Lists

variable {α : Type} {member : List Comment → Scan α}
variable {tokens : α → List Token} {closing : Char}
variable {found : List α}

/- A member or the end may stand after a member. -/
theorem follows_members
    (hClosing : IsClosing closing)
    (h : ∀ value ∈ found, IsSpelledBy member tokens value)
    (more : List Token) :
    Follows goesOn
      (found.flatMap tokens ++ [.mark closing] ++ more) := by
  cases found with
  | nil =>
      exact ⟨hClosing.delimiter, hClosing.space,
        hClosing.fresh⟩
  | cons first found =>
      rcases (h first (by simp)).starts with
        ⟨word, others, hTokens, hWord⟩
      rw [List.flatMap_cons, hTokens]
      exact hWord

/- Members are read one after the other, up to the end. -/
theorem readsAs_members
    (consumes : ∀ before, Scan.Consumes (member before))
    (hClosing : IsClosing closing)
    (h : ∀ value ∈ found, IsSpelledBy member tokens value) :
    ReadsAs (members member consumes closing) (found, [])
      (found.flatMap tokens ++ [.mark closing])
      (fun _ => True) := by
  intro after more text _ hText
  induction found generalizing after text with
  | nil =>
      have hComments := comments_spells hText
        (follows_members hClosing h more)
      rcases hText.of_mark hClosing.space with
        ⟨rest, hClose, hRest⟩
      rw [hClose] at hComments
      exact ⟨false, rest, Scan.repeated_last _
        (nextMember_eq_last_iff.mpr hComments), hRest⟩
  | cons first found ih =>
      have hFollows := follows_members hClosing h more
      rcases List.forall_mem_cons.mp h with ⟨hFirst, hFound⟩
      have hComments := comments_spells hText hFollows
      have hInner := hText.skipSpace hFollows
      rw [List.flatMap_cons, List.append_assoc,
        List.append_assoc, ← List.append_assoc _ _ more]
        at hText hInner
      -- a member starts a word, and so it is not the end
      rcases hFirst.starts with
        ⟨word, others, hTokens, hWord⟩
      rw [hTokens] at hText
      rcases hText.of_word hWord with ⟨inner, hStart, _⟩
      rcases hWord.startsWord.append inner with
        ⟨c, left, hChar, hDelimiter⟩
      have hOther : c ≠ closing := by
        intro hSame
        rw [hSame, hClosing.delimiter] at hDelimiter
        cases hDelimiter
      rcases hFirst.read false _ _
        (follows_members hClosing hFound more) hInner with
        ⟨ended, rest, hRead, hRest⟩
      rw [hStart, hChar] at hComments hRead
      have hNext := nextMember_eq_more_iff.mpr
        ⟨[], c, left, hComments, hOther, hRead⟩
      rcases ih hFound ended rest hRest with
        ⟨last, remaining, hMembers, hRemaining⟩
      exact ⟨last, remaining,
        Scan.repeated_more _ hNext hMembers, hRemaining⟩

end Lists

theorem isSpelledBy_field
    {order : Order}
    (hOrder : order.IsFull)
    {found : Field}
    (h : found.WellFormed)
    (hComments : found.comments = []) :
    IsSpelledBy (field order) Field.tokens found :=
  ⟨readsAs_field hOrder h hComments,
    ⟨_, _, rfl, h.id.isWord⟩⟩

theorem isSpelledBy_enumMember
    {found : EnumMember}
    (h : found.WellFormed)
    (hComments : found.comments = []) :
    IsSpelledBy enumMember EnumMember.tokens found :=
  ⟨readsAs_enumMember h hComments, ⟨_, _, rfl, h.name⟩⟩

theorem isSpelledBy_function
    {order : Order}
    (hOrder : order.IsFull)
    {found : Function}
    (h : found.WellFormed)
    (hComments : ∀ list ∈ found.commentLists, list = []) :
    IsSpelledBy (function order) Function.tokens found := by
  rcases found with
    ⟨returnType, name, fields, annotations, comments⟩
  rcases List.forall_mem_cons.mp hComments with
    ⟨hOwn, hParameters⟩
  dsimp only at hOwn
  subst hOwn
  have hFields (field : Field) (hMem : field ∈ fields) :=
    isSpelledBy_field hOrder (h.fields field hMem)
      (hParameters _ (List.mem_map_of_mem hMem))
  constructor
  · apply ReadsAs.labelled
    refine (readsAs_idlType hOrder h.returnType).bind ?_
      (fun _ _ => h.name)
    refine (readsAs_identifier h.name).bind ?_
      (fun _ _ => ⟨by decide, by decide, rfl⟩)
    refine (readsAs_symbol (by decide)).bind ?_
      (fun _ _ => trivial)
    show ReadsAs _ _
      (fields.flatMap Field.tokens ++ .mark ')' ::
        (annotationsTokens annotations ++ [.slot])) _
    rw [List.append_cons]
    refine (readsAs_members _ isClosing_parenthesis
      hFields).bind ?_ (fun _ _ => trivial)
    exact readsAs_ending h.annotations _
  · have hName (others : List Token) :
        FollowsWord (.word name :: others) := h.name
    rcases returnType.tokens_eq (hName _) with
      ⟨more, hTokens, _⟩
    exact ⟨_, more, hTokens, h.returnType.isWord_firstWord⟩

-- Definitions

/- A name and members in braces are read. -/
theorem readsAs_block
    {α : Type}
    {member : List Comment → Scan α}
    (consumes : ∀ before, Scan.Consumes (member before))
    {name : Text}
    (hName : IsWord name)
    {tokens : α → List Token}
    {found : List α}
    (h : ∀ value ∈ found, IsSpelledBy member tokens value)
    {next : Text → List α × List Comment → Scan Definition}
    {result : Definition}
    (hNext : ReadsAs (next name (found, [])) result []
      FollowsWord) :
    ReadsAs
      (do
        let name ← identifier
        symbol '\x7b'
        let found ← members member consumes '\x7d'
        next name found : Scan Definition)
      result
      (blockTokens name (found.flatMap tokens))
      FollowsWord := by
  refine (readsAs_identifier hName).bind ?_
    (fun _ _ => ⟨by decide, by decide, rfl⟩)
  refine (readsAs_symbol (by decide)).bind ?_
    (fun _ _ => trivial)
  have hMembers : ReadsAs
      (members member consumes '\x7d' >>= next name) result
      (found.flatMap tokens ++ [.mark '\x7d'] ++ [])
      FollowsWord :=
    (readsAs_members consumes isClosing_brace h).bind hNext
      (fun _ _ => trivial)
  rw [List.append_nil] at hMembers
  exact hMembers

section Definitions

variable {order : Order} (hOrder : order.IsFull)
variable {found : Definition} (h : found.ContentWellFormed)
variable (hComments : ∀ list ∈ found.commentLists, list = [])

include h in
theorem Definition.followsWord_bodyTokens
    (more : List Token) :
    FollowsWord (found.bodyTokens ++ more) := by
  cases found with
  | nameSpace found => exact h.1
  | inclusion found => rfl
  | struct found => exact h.1
  | enum found => exact h.1
  | service found => exact h.1

include hOrder h hComments

theorem readsAs_definitionBody :
    ReadsAs (definitionBody order [] found.kind) found
      found.bodyTokens FollowsWord := by
  rcases List.forall_mem_cons.mp hComments with
    ⟨hBefore, hOthers⟩
  rcases List.forall_mem_append.mp hOthers with
    ⟨hMembers, hLast⟩
  have hTrailing := List.forall_mem_singleton.mp hLast
  cases found with
  | nameSpace found =>
      rcases found with ⟨scope, name, comments⟩
      cases hBefore
      rcases h with ⟨hScope, hName⟩
      refine (readsAs_identifier hScope).bind ?_
        (fun _ _ => hName)
      exact (readsAs_identifier hName).bind (.pure _ _)
        (fun _ hMore => hMore)
  | inclusion found =>
      rcases found with ⟨path, comments⟩
      cases hBefore
      exact (readsAs_stringLiteral h).bind (.pure _ _)
        (fun _ _ => trivial)
  | struct found =>
      rcases found with ⟨name, fields, comments, trailing⟩
      cases hBefore
      cases hTrailing
      rcases h with ⟨hName, hFields⟩
      refine readsAs_block _ hName ?_ (.pure _ _)
      intro field hMem
      exact isSpelledBy_field hOrder (hFields field hMem)
        (hMembers _ (List.mem_map_of_mem hMem))
  | enum found =>
      rcases found with ⟨name, members, comments, trailing⟩
      cases hBefore
      cases hTrailing
      rcases h with ⟨hName, hAll⟩
      refine readsAs_block _ hName ?_ (.pure _ _)
      intro member hMem
      exact isSpelledBy_enumMember (hAll member hMem)
        (hMembers _ (List.mem_map_of_mem hMem))
  | service found =>
      rcases found with ⟨name, functions, comments, trailing⟩
      cases hBefore
      cases hTrailing
      rcases h with ⟨hName, hFunctions⟩
      refine readsAs_block _ hName ?_ (.pure _ _)
      intro function hMem
      apply isSpelledBy_function hOrder
        (hFunctions function hMem)
      intro list hList
      exact hMembers list
        (List.mem_flatMap.mpr ⟨function, hMem, hList⟩)

theorem readsAs_definition :
    ReadsAs (definition order [] found.kind) found
      found.tokens FollowsWord := by
  have hKeyword : ReadsAs (keyword found.kind.word) ()
      [.word found.kind.word] FollowsWord := by
    intro after more text hMore hText
    rcases hText.of_word found.kind.isWord_word with
      ⟨rest, hWord, hRest⟩
    refine ⟨true, rest, keyword_eq_ok_iff.mpr ?_, hRest⟩
    exact ⟨hWord, hRest.endsWord rfl hMore⟩
  apply ReadsAs.labelled
  exact hKeyword.bind
    (readsAs_definitionBody hOrder h hComments)
    (fun more _ => Definition.followsWord_bodyTokens h more)

/- At the top level no other kind of definition fits. -/
theorem topDefinition_spells
    {after : Bool}
    {more : List Token}
    {text : Text}
    (hText : Spells after (found.tokens ++ more) text)
    (hMore : FollowsWord more)
    (earlier : Option Failure) :
    ∃ word rest furthest,
      topDefinition order [] earlier (skipSpace text) =
          .ok ((found, rest), furthest) ∧
        Spells word more rest := by
  have hWord := found.kind.isWord_word
  have hFollows : Follows goesOn (found.tokens ++ more) :=
    hWord
  rcases readsAs_definition hOrder h hComments false more _
    hMore (hText.skipSpace hFollows) with
    ⟨word, rest, hRead, hRest⟩
  rcases Spells.of_word hWord hText with
    ⟨body, hStart, hBody⟩
  have hEnds := hBody.endsWord rfl
    (Definition.followsWord_bodyTokens h more)
  have hOther (other : Kind) (result : Definition × Text)
      (hResult : definition order [] other (skipSpace text) =
        .ok result) :
      other = found.kind := by
    rw [hStart] at hResult
    exact kind_of_definition hEnds hResult
  rcases tryEach_eq hRead hOther (hOrder.kinds found.kind)
    earlier with ⟨furthest, hTry⟩
  refine ⟨word, rest, furthest, ?_, hRest⟩
  simp only [topDefinition, hTry]

end Definitions

-- Documents

theorem follows_definitions
    (bars : Char → Bool)
    (body : List Definition) :
    Follows bars (body.flatMap Definition.tokens) := by
  cases body with
  | nil => trivial
  | cons first more => exact first.kind.isWord_word

/- Definitions are read one after the other. -/
theorem documentFrom_spells
    {order : Order}
    (hOrder : order.IsFull)
    {body : List Definition}
    (hBody : ∀ found ∈ body, found.ContentWellFormed)
    (hComments : ∀ found ∈ body,
      ∀ list ∈ found.commentLists, list = [])
    {after : Bool}
    {text : Text}
    (hText : Spells after (body.flatMap Definition.tokens)
      text)
    (earlier : Option Failure) :
    documentFrom order earlier text =
      .ok ({ body := body, trailing := [] }, []) := by
  have hRead := comments_spells hText
    (follows_definitions goesOn body)
  induction body generalizing after text earlier with
  | nil =>
      have hEmpty : skipSpace text = [] := by
        cases hText with
        | @ends _ gap hGap =>
            rw [← List.append_nil text, skipSpace_gap hGap]
            rfl
      rw [hEmpty] at hRead
      rw [documentFrom_eq, hRead]
  | cons first body ih =>
      rcases List.forall_mem_cons.mp hBody with
        ⟨hFirst, hMore⟩
      rcases List.forall_mem_cons.mp hComments with
        ⟨hOwn, hOthers⟩
      rw [List.flatMap_cons] at hText
      rcases topDefinition_spells hOrder hFirst hOwn hText
        (follows_definitions _ body) earlier with
        ⟨word, rest, furthest, hTop, hRest⟩
      have hDocument := ih hMore hOthers hRest furthest
        (comments_spells hRest (follows_definitions goesOn _))
      rcases Spells.of_word first.kind.isWord_word hText with
        ⟨inner, hStart, _⟩
      rcases first.kind.isWord_word.startsWord.append inner
        with ⟨c, left, hChar, _⟩
      rw [hStart, hChar] at hRead hTop
      rw [documentFrom_eq, hRead]
      simp only [hTop, hDocument]

/-
  The layout and the separators do not matter: a document
  without comments that is read from some text is read from
  every spelling of its tokens.
-/
theorem Document.parse_any_spacing
    {document : Document}
    {source : Text}
    {file : Option Text}
    (hSource : Document.parse source file = .ok document)
    (hComments : ∀ list ∈ document.commentLists, list = [])
    {text : Text}
    (hText : Spells false document.tokens text)
    (other : Option Text) :
    Document.parse text other = .ok document := by
  have hFormed := Document.wellFormed_of_read
    Order.isFull_usual (Document.parse_eq_ok_iff.mp hSource)
  rcases document with ⟨body, trailing⟩
  rcases List.forall_mem_append.mp hComments with
    ⟨hBody, hLast⟩
  cases List.forall_mem_singleton.mp hLast
  have hFrom := documentFrom_spells Order.isFull_usual
    (fun found hMem => (hFormed.body found hMem).content)
    (fun found hMem list hList => hBody list
      (List.mem_flatMap.mpr ⟨found, hMem, hList⟩))
    hText none
  apply Document.parse_eq_ok_iff.mpr
  simp only [Document.read,
    Scan.labelled_eq_ok_iff.mpr hFrom]

/- An enum with a value that has a sign, and one without. -/
def spacedEnum : EnumDef where
  name := ['e']
  members := [⟨['A'], some ['-', '1'], []⟩, ⟨['B'], none, []⟩]
  comments := []
  trailing := []

def spacedDocument : Document where
  body := [.enum spacedEnum]
  trailing := []

theorem wellFormed_spacedEnum :
    ∀ member ∈ spacedEnum.members, member.WellFormed := by
  have hSigned : IsSigned ['-', '1'] :=
    .inr ⟨['1'],
      ⟨by decide, List.forall_mem_singleton.mpr rfl⟩, rfl⟩
  intro member hMem
  rcases List.mem_cons.mp hMem with hFirst | hSecond
  · rw [hFirst]
    exact ⟨by decide, by simpa using hSigned, by simp⟩
  · rw [List.mem_singleton.mp hSecond]
    exact ⟨by decide, by simp, by simp⟩

theorem wellFormed_spacedDocument :
    spacedDocument.WellFormed where
  body := List.forall_mem_singleton.mpr
    { content := ⟨by decide, wellFormed_spacedEnum⟩
      comments := by simp [Definition.comments, spacedEnum]
      trailing := by simp [Definition.trailing, spacedEnum] }
  trailing := by simp [spacedDocument]

/- One separator instead of white space, and a lone sign. -/
theorem parse_spacedDocument :
    let source :=
      spacedDocument.print (.plain spacedDocument)
    Document.parse source none = .ok spacedDocument ∧
      (∀ list ∈ spacedDocument.commentLists, list = []) ∧
        Document.parse "enum\te\x7bA=- 1;B\x7d\n".toList
            none = .ok spacedDocument := by
  intro source
  have hSource :
      Document.parse source none = .ok spacedDocument :=
    Document.parse_eq_ok_iff.mpr
      (Document.read_print Order.isFull_usual
        wellFormed_spacedDocument (.plain spacedDocument))
  have hComments : ∀ list ∈ spacedDocument.commentLists,
      list = [] := by
    decide
  have hText : "enum\te\x7bA=- 1;B\x7d\n".toList =
      [] ++ ("enum".toList ++ (['\t'] ++ (['e'] ++
        ([] ++ '\x7b' :: ([] ++ (['A'] ++ ([] ++ '=' ::
          ([] ++ '-' :: ([' '] ++ (['1'] ++ ([] ++ ';' ::
            ([] ++ (['B'] ++ ([] ++ '\x7d' ::
              ['\n'])))))))))))))) := by
    decide
  refine ⟨hSource, hComments,
    Document.parse_any_spacing hSource hComments ?_ none⟩
  rw [hText]
  refine .word (by decide) (by decide) ?_
  refine .word (by decide) (by decide) ?_
  refine .mark (by decide) ?_
  refine .word (by decide) (by decide) ?_
  refine .mark (by decide) ?_
  refine .mark (by decide) ?_
  refine .word (by decide) (by decide) ?_
  refine .fills .semicolon (by decide) ?_
  refine .word (by decide) (by decide) ?_
  refine .skips ?_
  refine .mark (by decide) ?_
  exact .ends (by decide)

end Idl

end ThriftTypings
