import ThriftTypings.Proofs.Idl.Lookahead

/-
  This file says from which part of a text comments, members
  and definitions are read. A definition takes a part of its
  own, and only looks for the end of a word after it.

  Comments differ from other scans: what follows them may
  have more comments, and then all of them are read.

  Key definitions include:
    * `Clear`
    * `withComments`

  Key theorems include:
    * `local_members`
    * `local_definition`
-/

namespace ThriftTypings

namespace Idl

variable {failure : Failure}

-- Annotations

theorem local_annot :
    annot.Local [] Solid := by
  apply local_identifier.bind_solid
  intro name
  apply (local_symbol (by decide)).bind_solid
  intro _
  exact local_stringLiteral.map (Annot.mk name)

theorem nextAnnot_of_comma
    {text rest : Text}
    (h : skipSpace text = [','] ++ rest) :
    nextAnnot text =
      (annot >>= fun found => pure (.more found)) rest := by
  unfold nextAnnot
  rw [h]
  rfl

theorem nextAnnot_of_none
    {text : Text}
    (h : (Look.mark ',').Holds text) :
    nextAnnot text = .ok (.last (), skipSpace text) := by
  unfold nextAnnot
  split
  · next hText =>
      exact absurd (h ',' (by simp [hText])) (by simp)
  · rfl

theorem skipSpace_of_holds
    {text : Text}
    (h : Look.blank.Holds text) :
    skipSpace text = text := by
  cases text with
  | nil => rfl
  | cons c rest => exact skipSpace_cons (h c rfl) rest

/- An annotation after a comma is read from its own text. -/
theorem nextAnnot_local
    {text rest : Text}
    {found : Annot}
    (h : nextAnnot text = .ok (.more found, rest)) :
    ∃ used, text = used ++ rest ∧ Solid used ∧
      ∀ other, nextAnnot (used ++ other) =
        .ok (.more found, other) := by
  rcases mark_cases ',' text with ⟨inner, hInner⟩ | hNone
  · rw [nextAnnot_of_comma hInner] at h
    rcases exists_taken hInner (IsMark.solid (by decide)) with
      ⟨front, hText, hFront, hTaken⟩
    rcases local_annot.map Round.more inner _ _ h with
      ⟨used, hSplit, _, hReads⟩
    refine ⟨front ++ used, ?_, hFront.append used, ?_⟩
    · rw [hText, hSplit, List.append_assoc]
    · intro other
      rw [List.append_assoc, nextAnnot_of_comma (hTaken _)]
      exact hReads other replaces_nil
  · rw [nextAnnot_of_none hNone] at h
    cases h

/- Annotations end at no comma and no white space. -/
theorem local_repeated_nextAnnot :
    (Scan.repeated nextAnnot progresses_nextAnnot).Local
      [.blank, .mark ','] (fun _ => True) := by
  intro text value rest hRead
  rcases value with ⟨found, _⟩
  induction found generalizing text with
  | nil =>
      have hLast := Scan.repeated_eq_ok_iff.mp hRead
      rcases mark_cases ',' text with ⟨more, hMore⟩ | hNone
      · rw [nextAnnot_of_comma hMore] at hLast
        rcases Scan.bind_eq_ok_iff.mp hLast with
          ⟨_, _, _, hPure⟩
        cases hPure
      · rw [nextAnnot_of_none hNone] at hLast
        cases hLast
        rcases exists_gap text with ⟨gap, hGap, hText⟩
        refine ⟨gap, hText, trivial, fun other hOther => ?_⟩
        have hBlank : Look.blank.Holds other :=
          hOther _ (by simp) (stops_dropWhile isSpace text)
        have hComma : (Look.mark ',').Holds other := by
          apply hOther _ (by simp)
          rw [hText] at hNone
          simpa only [Look.mark, Look.Holds,
            skipSpace_gap hGap] using hNone
        have hEnd := nextAnnot_of_none
          (holds_gap hGap (hText ▸ hNone) hComma)
        rw [skipSpace_gap hGap, skipSpace_of_holds hBlank]
          at hEnd
        exact Scan.repeated_last _ hEnd
  | cons first found ih =>
      rcases Scan.repeated_eq_ok_iff.mp hRead with
        ⟨after, hFirst, hFound⟩
      rcases ih after hFound with ⟨more, hAfter, _, hReads⟩
      rcases nextAnnot_local hFirst with
        ⟨used, hText, _, hAgain⟩
      refine ⟨used ++ more, ?_, trivial,
        fun other hOther => ?_⟩
      · rw [hText, hAfter, List.append_assoc]
      · rw [List.append_assoc]
        exact Scan.repeated_more _ (hAgain _)
          (hReads other hOther)

theorem local_annotList :
    annotList.Local [] Solid := by
  apply Scan.Local.labelled
  apply local_annot.bind_solid
  intro first
  apply local_repeated_nextAnnot.bind_solid
  intro more
  exact (local_symbol (by decide)).map
    fun _ => first :: more.1

theorem openedBy_annotations? :
    OpenedBy '(' annotList annotations? where
  opened text rest h := by
    unfold annotations?
    rw [h]
    rfl
  missing text h := by
    unfold annotations?
    split
    · next hText =>
        exact absurd (h '(' (by simp [hText])) (by simp)
    · rfl

theorem local_annotations? :
    annotations?.Local [.mark '('] Tidy :=
  openedBy_annotations?.local (by decide) local_annotList

-- The Comment After a Member

theorem inlineComment_of_remark
    {text inner : Text}
    (h : text.dropWhile isLineSpace = '/' :: '/' :: inner) :
    inlineComment text =
      .ok ([(lineComment inner).1], (lineComment inner).2) := by
  simp only [inlineComment, h]

theorem inlineComment_of_none
    {text : Text}
    (h : Look.remark.Holds text) :
    inlineComment text = .ok ([], text) := by
  unfold inlineComment
  split
  · next inner hText =>
      rw [Look.Holds, hText] at h
      exact absurd ⟨inner, rfl⟩ h
  · rfl

/- A line comment takes the line, up to the line feed. -/
theorem lineComment_local
    (text : Text) :
    ∃ line rest comment, text = line ++ rest ∧
      Look.line.Holds rest ∧
        ∀ other, Look.line.Holds other →
          lineComment (line ++ other) = (comment, other) := by
  have hSplit : text.takeWhile (· != '\n') ++
      text.dropWhile (· != '\n') = text :=
    List.takeWhile_append_dropWhile
  refine ⟨text.takeWhile (· != '\n'),
    text.dropWhile (· != '\n'), _, hSplit.symm,
    stops_dropWhile _ text, fun other hOther =>
      lineComment_eq (fun hMem => ?_) hOther⟩
  simpa using List.mem_takeWhile_imp hMem

theorem local_inlineComment :
    inlineComment.Local [.remark, .line] Tidy := by
  intro text value rest hRead
  by_cases hRemark : Look.remark.Holds text
  · rw [inlineComment_of_none hRemark] at hRead
    cases hRead
    refine ⟨[], rfl, .inl rfl, fun other hOther => ?_⟩
    exact inlineComment_of_none (hOther _ (by simp) hRemark)
  · rcases not_not.mp hRemark with ⟨inner, hInner⟩
    rcases lineComment_local inner with
      ⟨line, after, comment, rfl, hAfter, hLine⟩
    have hBlank : ∀ c ∈ text.takeWhile isLineSpace,
        isLineSpace c = true :=
      fun _ hMem => List.mem_takeWhile_imp hMem
    have hText : text.takeWhile isLineSpace ++
        ('/' :: '/' :: (line ++ after)) = text := by
      have hSplit : text.takeWhile isLineSpace ++
          text.dropWhile isLineSpace = text :=
        List.takeWhile_append_dropWhile
      rwa [← hInner] at hSplit
    have hReads (other : Text)
        (hOther : Look.line.Holds other) :
        inlineComment (text.takeWhile isLineSpace ++
            ('/' :: '/' :: (line ++ other))) =
          .ok ([comment], other) := by
      have hDrop := dropWhile_run hBlank
        (show Stops isLineSpace
          ('/' :: '/' :: (line ++ other)) from by
            simp [Stops, isLineSpace])
      rw [inlineComment_of_remark hDrop, hLine other hOther]
    have hAgain := hReads after hAfter
    rw [hText, hRead] at hAgain
    cases hAgain
    refine ⟨text.takeWhile isLineSpace ++
      '/' :: '/' :: line, ?_, .inr ?_, fun other hOther => ?_⟩
    · simpa using hText.symm
    · apply Solid.prepend
      exact ⟨[], '/', '/' :: line, rfl, by simp [IsGap],
        by decide, by simp⟩
    · simpa using hReads other (hOther _ (by simp) hAfter)

-- Comments in Front of Something

/- A text that starts with a lexeme, and with no comment. -/
structure Clear
    (text : Text) : Prop where
  space : skipSpace text = text
  line : ¬ ['/', '/'] <+: text
  block : ¬ ['/', '*'] <+: text

theorem IsMark.clear
    {c : Char}
    (h : IsMark c) :
    Clear [c] where
  space := skipSpace_cons h.1 []
  line := by simp [List.cons_prefix_cons]
  block := by simp [List.cons_prefix_cons]

theorem Clear.isSpace_eq_false
    {c : Char}
    {rest : Text}
    (h : Clear (c :: rest)) :
    isSpace c = false := by
  have hHead := stops_dropWhile isSpace (c :: rest)
  rw [← skipSpace, h.space] at hHead
  exact hHead c rfl

theorem prefix_append_iff
    {a b : Char}
    {used : Text}
    (h : used ≠ [])
    (hSlash : used.head? = some a → used.tail ≠ [])
    (rest other : Text) :
    [a, b] <+: used ++ rest ↔ [a, b] <+: used ++ other := by
  cases used with
  | nil => exact absurd rfl h
  | cons c more =>
      cases more with
      | nil =>
          have hNot : a ≠ c := by
            rintro rfl
            exact hSlash rfl rfl
          simp [List.cons_prefix_cons, hNot]
      | cons d more => simp [List.cons_prefix_cons]

/- Whether a comment starts there is seen in what is taken. -/
theorem Clear.of_solid
    {used rest : Text}
    (h : Clear (used ++ rest))
    (hUsed : Solid used)
    (other : Text) :
    Clear (used ++ other) := by
  rcases hUsed with ⟨gap, c, more, rfl, hGap, hSpace, hSlash⟩
  have hNone : gap = [] := by
    have hLength := congrArg List.length h.space
    rw [List.append_assoc, skipSpace_gap hGap,
      List.cons_append, skipSpace_cons hSpace] at hLength
    simp only [List.length_append, List.length_cons] at hLength
    exact List.length_eq_zero_iff.mp (by omega)
  subst hNone
  have hHead : (c :: more).head? = some '/' →
      (c :: more).tail ≠ [] := by
    intro hSame
    exact hSlash (Option.some.inj hSame)
  have hPair (b : Char) :=
    prefix_append_iff (b := b) (by simp) hHead rest other
  refine ⟨skipSpace_cons hSpace _, ?_, ?_⟩
  · exact fun hLine => h.line ((hPair '/').mpr hLine)
  · exact fun hBlock => h.block ((hPair '*').mpr hBlock)

theorem solid_opening
    (c : Char)
    (more : Text) :
    Solid ('/' :: c :: more) :=
  ⟨[], '/', c :: more, rfl, by simp [IsGap], by decide,
    by simp⟩

section NextComment

variable {text rest : Text}

theorem nextComment_of_clear
    (h : Clear (skipSpace text)) :
    nextComment text = .ok (.last (), skipSpace text) := by
  unfold nextComment
  split
  · next inner hText =>
      exact absurd ⟨inner, hText.symm⟩ h.line
  · next inner hText =>
      exact absurd ⟨inner, hText.symm⟩ h.block
  · rfl

theorem clear_of_nextComment
    (h : nextComment text = .ok (.last (), rest)) :
    rest = skipSpace text ∧ Clear rest := by
  unfold nextComment at h
  split at h
  · cases h
  · split at h <;> cases h
  · next hLine hBlock =>
      cases h
      refine ⟨rfl, skipSpace_of_holds
        (stops_dropWhile isSpace text), ?_, ?_⟩
      · rintro ⟨inner, hInner⟩
        exact hLine inner hInner.symm
      · rintro ⟨inner, hInner⟩
        exact hBlock inner hInner.symm

/- A comment is read from its own text. -/
theorem nextComment_local
    {comment : Comment}
    (h : nextComment text = .ok (.more comment, rest)) :
    ∃ used, text = used ++ rest ∧ Solid used ∧
      ∀ other, Replaces [.line] rest other →
        nextComment (used ++ other) =
          .ok (.more comment, other) := by
  unfold nextComment at h
  split at h
  · next inner hText =>
      rcases lineComment_local inner with
        ⟨line, after, found, rfl, hAfter, hLine⟩
      rw [hLine after hAfter] at h
      cases h
      rcases exists_taken
        (show skipSpace text =
          ('/' :: '/' :: line) ++ rest from hText)
        (solid_opening _ _) with
        ⟨used, hSplit, hUsed, hTaken⟩
      refine ⟨used, hSplit, hUsed, fun other hOther => ?_⟩
      simp only [nextComment, hTaken, List.cons_append,
        hLine other (hOther _ (by simp) hAfter)]
  · next inner hText =>
      split at h
      · cases h
      · next found after hEnd =>
          cases h
          rcases blockEnd_eq_some_iff.mp hEnd with
            ⟨hInner, hOpen⟩
          have hBlock : skipSpace text =
              ('/' :: '*' :: (found ++ ['*', '/'])) ++ rest := by
            simp [hText, hInner]
          rcases exists_taken hBlock (solid_opening _ _) with
            ⟨used, hSplit, hUsed, hTaken⟩
          refine ⟨used, hSplit, hUsed, fun other _ => ?_⟩
          apply nextComment_block _ hOpen
          simp [hTaken]
  · cases h

/- An open comment is read when it is closed at once. -/
theorem nextComment_open
    (h : nextComment text = .error failure) :
    ∃ front, text = front ++ failure.rest ∧ Solid front ∧
      ∀ other, nextComment (front ++ '*' :: '/' :: other) =
        .ok (.more (blockComment []), other) := by
  unfold nextComment at h
  split at h
  · cases h
  · next inner hText =>
      split at h
      · cases h
        rcases exists_taken
          (show skipSpace text = ['/', '*'] ++ inner from hText)
          (solid_opening _ _) with
          ⟨front, hSplit, hFront, hTaken⟩
        refine ⟨front, hSplit, hFront, fun other => ?_⟩
        exact nextComment_block (hTaken _) (by simp)
      · cases h
  · cases h

end NextComment

/- What is read, with comments found in front of it. -/
def withComments
    (found : List Comment)
    (result : Except Failure (List Comment × Text)) :
    Except Failure (List Comment × Text) :=
  result.map fun (more, rest) => (found ++ more, rest)

theorem withComments_withComments
    (first second : List Comment)
    (result : Except Failure (List Comment × Text)) :
    withComments first (withComments second result) =
      withComments (first ++ second) result := by
  cases result with
  | error failure => rfl
  | ok found => simp [withComments, Except.map]

theorem withComments_nil
    (result : Except Failure (List Comment × Text)) :
    withComments [] result = result := by
  cases result with
  | error failure => rfl
  | ok found => rfl

section Comments

variable {text rest : Text} {found : List Comment}

theorem comments_of_more
    {comment : Comment}
    (h : nextComment text = .ok (.more comment, rest)) :
    comments text = withComments [comment] (comments rest) := by
  unfold comments
  rw [Scan.bind_apply, Scan.bind_apply, Scan.repeated_eq, h]
  dsimp only
  cases Scan.repeated nextComment progresses_nextComment rest
    with
  | error failure => rfl
  | ok result => rfl

theorem comments_of_error
    (h : nextComment text = .error failure) :
    comments text = .error failure := by
  unfold comments
  rw [Scan.bind_apply, Scan.repeated_eq, h]

theorem comments_of_clear
    (h : Clear text) :
    comments text = .ok ([], text) := by
  have hNext := nextComment_of_clear
    (show Clear (skipSpace text) from h.space.symm ▸ h)
  rw [h.space] at hNext
  exact Scan.bind_ok (Scan.repeated_last _ hNext) rfl

/-
  Comments are read from their own text. What follows may
  have more of them.
-/
theorem comments_local
    (h : comments text = .ok (found, rest)) :
    Clear rest ∧
      ∃ used, text = used ++ rest ∧
        (IsGap used ∨ Solid used) ∧
        ∀ other, Replaces [.line] rest other →
          comments (used ++ other) =
            withComments found (comments other) := by
  rcases Scan.bind_eq_ok_iff.mp h with
    ⟨⟨all, _⟩, left, hAll, hPure⟩
  cases hPure
  induction found generalizing text with
  | nil =>
      have hLast := Scan.repeated_eq_ok_iff.mp hAll
      rcases clear_of_nextComment hLast with ⟨rfl, hClear⟩
      rcases exists_gap text with ⟨gap, hGap, hText⟩
      refine ⟨hClear, gap, hText, .inl hGap, fun other _ => ?_⟩
      rw [withComments_nil]
      exact comments_congr (skipSpace_gap hGap other)
  | cons comment found ih =>
      rcases Scan.repeated_eq_ok_iff.mp hAll with
        ⟨after, hFirst, hMore⟩
      rcases ih (Scan.bind_ok hMore rfl) hMore with
        ⟨hClear, more, hAfter, hKind, hReads⟩
      rcases nextComment_local hFirst with
        ⟨used, hText, hUsed, hNext⟩
      refine ⟨hClear, used ++ more, ?_,
        .inr (hUsed.append more), fun other hOther => ?_⟩
      · rw [hText, hAfter, List.append_assoc]
      · have hSeen : Replaces [.line] after (more ++ other) :=
          hAfter ▸ hOther.next_append more
        rw [List.append_assoc, comments_of_more (hNext _ hSeen),
          hReads other hOther, withComments_withComments]
        rfl

/- Comments end in front of what is solid. -/
theorem comments_before_solid
    {used : Text}
    (h : comments text = .ok (found, used ++ rest))
    (hUsed : Solid used) :
    ∃ front, text = front ++ (used ++ rest) ∧
      ∀ other, comments (front ++ (used ++ other)) =
        .ok (found, used ++ other) := by
  rcases comments_local h with
    ⟨hClear, front, hText, _, hReads⟩
  refine ⟨front, hText, fun other => ?_⟩
  have hStill := hClear.of_solid hUsed other
  rw [hReads _ (hUsed.replaces _ rest other),
    comments_of_clear hStill]
  simp [withComments, Except.map]

/- Comments fail where a block is not closed. -/
theorem comments_open
    (h : comments text = .error failure) :
    ∃ front found, text = front ++ failure.rest ∧
      Solid front ∧
      ∀ other, comments (front ++ '*' :: '/' :: other) =
        withComments found (comments other) := by
  -- what comes after a comment is shorter
  induction hn : text.length using Nat.strongRecOn
    generalizing text with
  | ind n ih =>
      cases hNext : nextComment text with
      | error opened =>
          rw [comments_of_error hNext] at h
          cases h
          rcases nextComment_open hNext with
            ⟨front, hText, hFront, hCloses⟩
          exact ⟨front, [blockComment []], hText, hFront,
            fun other => comments_of_more (hCloses other)⟩
      | ok result =>
          rcases result with ⟨round, after⟩
          cases round with
          | last _ =>
              have hOk : comments text = .ok ([], after) :=
                Scan.bind_ok (Scan.repeated_last _ hNext) rfl
              rw [hOk] at h
              cases h
          | more comment =>
              have hRest : comments after = .error failure := by
                rw [comments_of_more hNext] at h
                cases hAfter : comments after with
                | error found =>
                    rw [hAfter] at h
                    exact h
                | ok found =>
                    rw [hAfter] at h
                    cases h
              have hShorter :=
                (progresses_nextComment _ _ _ hNext).2
              rcases ih _ (hn ▸ hShorter) hRest rfl with
                ⟨more, found, hAfter, hMore, hReads⟩
              rcases nextComment_local hNext with
                ⟨used, hText, hUsed, hAgain⟩
              refine ⟨used ++ more, comment :: found, ?_,
                hUsed.append more, fun other => ?_⟩
              · rw [hText, hAfter, List.append_assoc]
              · have hSeen := hAgain _
                  (hAfter ▸ hMore.replaces _ failure.rest
                    ('*' :: '/' :: other))
                rw [List.append_assoc, comments_of_more hSeen,
                  hReads, withComments_withComments]
                rfl

end Comments

-- Members

section Members

variable {α : Type} {member : List Comment → Scan α}
variable {consumes : ∀ before, (member before).Consumes}
variable {closing : Char} {looks : List Look}

/- A member is read with the comments in front of it. -/
theorem nextMember_local
    (hMember : ∀ before, (member before).Local looks Solid)
    {text rest : Text}
    {value : α}
    (h : nextMember member closing text =
      .ok (.more value, rest)) :
    ∃ used, text = used ++ rest ∧ Solid used ∧
      ∀ other, Replaces looks rest other →
        nextMember member closing (used ++ other) =
          .ok (.more value, other) := by
  rcases nextMember_eq_more_iff.mp h with
    ⟨before, c, inner, hBefore, hOpen, hValue⟩
  rcases hMember before (c :: inner) value rest hValue with
    ⟨used, hInner, hUsed, hReads⟩
  rw [hInner] at hBefore
  rcases comments_before_solid hBefore hUsed with
    ⟨front, hText, hAgain⟩
  refine ⟨front ++ used, ?_, hUsed.prepend front, ?_⟩
  · rw [hText, List.append_assoc]
  · intro other hOther
    cases used with
    | nil => exact absurd rfl hUsed.ne_nil
    | cons d more =>
        have hSame : d = c := (List.cons.inj hInner).1.symm
        subst hSame
        rw [List.append_assoc]
        apply nextMember_eq_more_iff.mpr
        exact ⟨before, d, more ++ other, hAgain other, hOpen,
          hReads other hOther⟩

/- The closing symbol ends the members, whatever follows. -/
theorem local_members
    (hMember : ∀ before, (member before).Local looks Solid)
    (hClosing : IsMark closing) :
    (members member consumes closing).Local [] Solid := by
  intro text value rest hRead
  rcases value with ⟨found, trailing⟩
  induction found generalizing text with
  | nil =>
      have hLast := Scan.repeated_eq_ok_iff.mp hRead
      have hBefore : comments text =
          .ok (trailing, [closing] ++ rest) :=
        nextMember_eq_last_iff.mp hLast
      rcases comments_before_solid hBefore hClosing.solid with
        ⟨front, hText, hAgain⟩
      refine ⟨front ++ [closing], ?_,
        hClosing.solid.prepend front, fun other _ => ?_⟩
      · rw [hText, List.append_assoc]
      · rw [List.append_assoc]
        apply Scan.repeated_last
        exact nextMember_eq_last_iff.mpr (hAgain other)
  | cons first found ih =>
      rcases Scan.repeated_eq_ok_iff.mp hRead with
        ⟨after, hFirst, hMore⟩
      rcases ih after hMore with
        ⟨more, hAfter, hSolid, hReads⟩
      rcases nextMember_local hMember hFirst with
        ⟨used, hText, hUsed, hAgain⟩
      refine ⟨used ++ more, ?_, hUsed.append more,
        fun other hOther => ?_⟩
      · rw [hText, hAfter, List.append_assoc]
      · rw [List.append_assoc]
        apply Scan.repeated_more _ _ (hReads other hOther)
        apply hAgain
        exact hAfter ▸ hSolid.replaces looks rest other

end Members

/- What may follow a member: its end is looked for. -/
def memberLooks : List Look :=
  [.mark '(', .mark ',', .mark ';', .remark, .line]

/- What comes after the name of a field or of a function. -/
theorem local_ending
    {α : Type}
    (make : Option (List Annot) → List Comment → α) :
    (do
      let annotations ← annotations?
      separator
      let beside ← inlineComment
      pure (make annotations beside) : Scan α).Local
        memberLooks Tidy := by
  apply local_annotations?.bind_tidy (fun _ _ => Tidy.append)
  intro annotations
  apply local_separator.bind_tidy (fun _ _ => Tidy.append)
  intro _
  exact local_inlineComment.bind_tidy
    (fun _ _ => Tidy.append) fun _ => Scan.local_pure _

/- A field has a type, maybe with a requiredness. -/
theorem field_eq
    (order : Order)
    (before : List Comment) :
    field order before = Scan.labelled .field (do
      let id ← integer
      symbol ':'
      let type ← typed order
      let name ← identifier
      let annotations ← annotations?
      separator
      let beside ← inlineComment
      pure
        { id, requiredness := type.1, type := type.2, name,
          annotations, comments := before ++ beside }) := by
  unfold field typed
  simp only [Scan.bind_assoc, Scan.pure_bind]

theorem local_field
    (order : Order)
    (before : List Comment) :
    (field order before).Local (.word :: memberLooks) Solid := by
  rw [field_eq]
  apply Scan.Local.labelled
  apply local_integer.bind_solid
  intro id
  apply (local_symbol (by decide)).bind_solid
  intro _
  apply (local_typed order).bind_solid
  intro type
  apply local_identifier.bind_tidy
    (fun _ _ => Solid.append_tidy)
  intro name
  exact local_ending _

theorem signedInteger_of_minus
    {text rest : Text}
    (h : skipSpace text = ['-'] ++ rest) :
    signedInteger text =
      (integer >>= fun digits => pure ('-' :: digits)) rest := by
  unfold signedInteger
  rw [h]
  rfl

theorem signedInteger_of_none
    {text : Text}
    (h : (Look.mark '-').Holds text) :
    signedInteger text = integer text := by
  unfold signedInteger
  split
  · next hText =>
      exact absurd (h '-' (by simp [hText])) (by simp)
  · have hStart : skipSpace (skipSpace text) =
        skipSpace text :=
      skipSpace_of_holds (stops_dropWhile isSpace text)
    unfold integer run
    rw [hStart]

theorem local_signedInteger :
    signedInteger.Local [.digit] Solid := by
  intro text value rest hRead
  rcases mark_cases '-' text with ⟨inner, hInner⟩ | hNone
  · rw [signedInteger_of_minus hInner] at hRead
    rcases exists_taken hInner (IsMark.solid (by decide)) with
      ⟨front, hText, hFront, hTaken⟩
    rcases local_integer.map ('-' :: ·) inner value rest hRead
      with ⟨used, hSplit, _, hReads⟩
    refine ⟨front ++ used, ?_, hFront.append used, ?_⟩
    · rw [hText, hSplit, List.append_assoc]
    · intro other hOther
      rw [List.append_assoc, signedInteger_of_minus (hTaken _)]
      exact hReads other hOther
  · rw [signedInteger_of_none hNone] at hRead
    rcases local_integer _ value rest hRead with
      ⟨used, hText, hUsed, hReads⟩
    refine ⟨used, hText, hUsed, fun other hOther => ?_⟩
    rw [signedInteger_of_none]
    · exact hReads other hOther
    · rw [hText] at hNone
      exact hUsed.holds other hNone

theorem openedBy_enumValue? :
    OpenedBy '=' signedInteger enumValue? where
  opened text rest h := by
    unfold enumValue?
    rw [h]
    rfl
  missing text h := by
    unfold enumValue?
    split
    · next hText =>
        exact absurd (h '=' (by simp [hText])) (by simp)
    · rfl

/- What may follow an enum member. -/
def valueLooks : List Look :=
  [.word, .mark '=', .digit, .mark ',', .mark ';', .remark,
    .line]

theorem local_enumMember
    (before : List Comment) :
    (enumMember before).Local valueLooks Solid := by
  apply Scan.Local.labelled
  apply local_identifier.bind_tidy
    (fun _ _ => Solid.append_tidy)
  intro name
  apply (openedBy_enumValue?.local (by decide)
    local_signedInteger).bind_tidy (fun _ _ => Tidy.append)
  intro value
  apply local_separator.bind_tidy (fun _ _ => Tidy.append)
  intro _
  exact local_inlineComment.bind_tidy
    (fun _ _ => Tidy.append) fun _ => Scan.local_pure _

theorem local_function
    (order : Order)
    (before : List Comment) :
    (function order before).Local memberLooks Solid := by
  apply Scan.Local.labelled
  apply (local_idlType order).bind_solid
  intro returnType
  apply local_identifier.bind_solid
  intro name
  apply (local_symbol (by decide)).bind_solid
  intro _
  apply (local_members (local_field order)
    (by decide)).bind_tidy
    (fun _ _ => Solid.append_tidy)
  intro fields
  exact local_ending _

-- Definitions

/- A name and members in braces, whatever follows them. -/
theorem local_block
    {α : Type}
    {member : List Comment → Scan α}
    {consumes : ∀ before, (member before).Consumes}
    {looks : List Look}
    (hMember : ∀ before, (member before).Local looks Solid)
    (make : Text → List α × List Comment → Definition) :
    (do
      let name ← identifier
      symbol '\x7b'
      let found ← members member consumes '\x7d'
      pure (make name found) : Scan Definition).Local
        [] Solid := by
  apply local_identifier.bind_solid
  intro name
  apply (local_symbol (by decide)).bind_solid
  intro _
  exact (local_members hMember
    (by decide)).map (make name)

theorem local_definitionBody
    (order : Order)
    (before : List Comment)
    (kind : Kind) :
    (definitionBody order before kind).Local
      [.word] Solid := by
  cases kind with
  | nameSpace =>
      apply local_identifier.bind_solid
      intro scope
      exact local_identifier.map fun name =>
        Definition.nameSpace
          { scope, name, comments := before }
  | inclusion =>
      apply Scan.Local.mono _ (List.nil_subset _)
      exact local_stringLiteral.map fun path =>
        Definition.inclusion { path, comments := before }
  | struct =>
      apply Scan.Local.mono _ (List.nil_subset _)
      exact local_block (local_field order) _
  | enum =>
      apply Scan.Local.mono _ (List.nil_subset _)
      exact local_block local_enumMember _
  | service =>
      apply Scan.Local.mono _ (List.nil_subset _)
      exact local_block (local_function order) _

/- After a definition one looks for the end of a word. -/
theorem local_definition
    (order : Order)
    (before : List Comment)
    (kind : Kind) :
    (definition order before kind).Local [.word] Solid := by
  apply Scan.Local.labelled
  apply (local_keyword kind.isWord_word).bind_solid
  intro _
  exact local_definitionBody order before kind

end Idl

end ThriftTypings
