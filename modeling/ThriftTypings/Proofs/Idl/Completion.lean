import ThriftTypings.Proofs.Idl.Locality

/-
  This file proves that a scan which fails can be completed:
  after what it had taken, some text is put that it reads to
  the end.

  In a sequence, the parts after the one that fails are read
  from texts that they take whole. What the parts before it
  looked for stays unseen.

  Key definitions include:
    * `Scan.Completion`
    * `Scan.Viable`

  Key theorems include:
    * `viable_members`
    * `viable_definitionBody`
-/

namespace ThriftTypings

namespace Idl

variable {failure : Failure} {gap : Text} {c : Char}

-- Completing a Scan

namespace Scan

variable {α β : Type}

/- Some text that passes the looks is read to its end. -/
def Fills
    (looks : List Look)
    (scan : Scan α) : Prop :=
  ∃ more value, Passes looks more ∧
    scan more = .ok (value, [])

/-
  What stands in front of the rest can be completed to a
  text that is read to its end. What was looked for before
  stays unseen.
-/
def Completion
    (looks : List Look)
    (scan : Scan α)
    (text rest : Text) : Prop :=
  ∃ front more value, text = front ++ rest ∧
    Solid (front ++ more) ∧
    Replaces looks text (front ++ more) ∧
    scan (front ++ more) = .ok (value, [])

/- If the scan fails, there is a completion. -/
def CompletesAt
    (looks : List Look)
    (scan : Scan α)
    (text : Text) : Prop :=
  ∀ failure, scan text = .error failure →
    scan.Completion looks text failure.rest

/- The scan can be completed wherever it fails. -/
structure Viable
    (looks : List Look)
    (scan : Scan α) : Prop where
  fills : scan.Fills looks
  completes : ∀ text, scan.CompletesAt looks text

/- A sequence fails in its first part, or in its second. -/
theorem bind_eq_error_iff
    {first : Scan α}
    {next : α → Scan β}
    {text : Text}
    {failure : Failure} :
    (first >>= next) text = .error failure ↔
      first text = .error failure ∨
        ∃ value rest, first text = .ok (value, rest) ∧
          next value rest = .error failure := by
  rw [bind_apply]
  cases first text with
  | error found => simp
  | ok result =>
      rcases result with ⟨value, rest⟩
      simp

section Bind

variable {looks first_ second_ : List Look}
variable {extent : Text → Prop}
variable {first : Scan α} {next : α → Scan β}

/-
  The looks in front of a sequence see its first part, if
  that is solid, and the second one, if the first is empty.
-/
def Covers
    (looks second_ : List Look)
    (extent : Text → Prop) : Prop :=
  ∀ used, extent used →
    Solid used ∨ looks = [] ∨ used = [] ∧ looks ⊆ second_

theorem Covers.holds
    {used : Text}
    (h : Covers looks second_ extent)
    (hUsed : extent used)
    {rest other : Text}
    (hOther : Replaces second_ rest other) :
    Replaces looks (used ++ rest) (used ++ other) := by
  rcases h used hUsed with hSolid | rfl | ⟨rfl, hLooks⟩
  · exact hSolid.replaces looks rest other
  · exact replaces_nil
  · exact hOther.mono hLooks

theorem Fills.bind
    (hLocal : first.Local first_ extent)
    (hFirst : first.Fills looks)
    (hNext : ∀ value, (next value).Fills second_)
    (hLooks : first_ ⊆ second_)
    (hCovers : Covers looks second_ extent) :
    (first >>= next).Fills looks := by
  rcases hFirst with ⟨front, value, hFront, hRead⟩
  rcases hNext value with ⟨more, result, hMore, hGoesOn⟩
  rcases hLocal front value [] hRead with
    ⟨used, hUsed, hExtent, hReads⟩
  have hOther : Replaces second_ [] more :=
    fun look hMem _ => hMore look hMem
  refine ⟨used ++ more, result, fun look hMem => ?_, ?_⟩
  · apply hCovers.holds hExtent hOther look hMem
    exact hUsed ▸ hFront look hMem
  · exact bind_ok (hReads more (hOther.mono hLooks)) hGoesOn

/-
  If the first part fails, it is completed, and the second
  one filled. Otherwise the second one is completed.
-/
theorem CompletesAt.bind
    {text : Text}
    (hLocal : first.Local first_ extent)
    (hFirst : first.CompletesAt looks text)
    (hFills : ∀ value, (next value).Fills second_)
    (hNext : ∀ value rest, first text = .ok (value, rest) →
      (next value).CompletesAt second_ rest)
    (hLooks : first_ ⊆ second_)
    (hCovers : Covers looks second_ extent) :
    (first >>= next).CompletesAt looks text := by
  intro failure hFails
  rcases bind_eq_error_iff.mp hFails with
    hRead | ⟨value, rest, hRead, hRest⟩
  · rcases hFirst failure hRead with
      ⟨front, more, value, hText, hSolid, hSeen, hDone⟩
    rcases hFills value with ⟨fill, result, hFill, hEnds⟩
    rcases hLocal _ value [] hDone with
      ⟨used, hUsed, _, hReads⟩
    rw [List.append_nil] at hUsed
    have hAgain := hReads fill fun look hMem _ =>
      hFill look (hLooks hMem)
    rw [← hUsed, List.append_assoc] at hAgain
    refine ⟨front, more ++ fill, result, hText, ?_, ?_,
      bind_ok hAgain hEnds⟩
    · rw [← List.append_assoc]
      exact hSolid.append fill
    · intro look hMem hLook
      have hHolds := hSeen look hMem hLook
      rw [← List.append_nil (front ++ more)] at hHolds
      rw [← List.append_assoc]
      exact hSolid.holds fill hHolds
  · rcases hNext value rest hRead failure hRest with
      ⟨front, more, result, hRest, hSolid, hSeen, hDone⟩
    rcases hLocal text value rest hRead with
      ⟨used, hText, hUsed, hReads⟩
    have hAgain := hReads _ (hSeen.mono hLooks)
    refine ⟨used ++ front, more, result, ?_, ?_, ?_, ?_⟩
    · rw [hText, hRest, List.append_assoc]
    · rw [List.append_assoc]
      exact hSolid.prepend used
    · rw [List.append_assoc, hText]
      exact hCovers.holds hUsed hSeen
    · rw [List.append_assoc]
      exact bind_ok hAgain hDone

theorem Viable.bind
    (hLocal : first.Local first_ extent)
    (hFirst : first.Viable looks)
    (hNext : ∀ value, (next value).Viable second_)
    (hLooks : first_ ⊆ second_)
    (hCovers : Covers looks second_ extent) :
    (first >>= next).Viable looks := by
  have hFills (value : α) := (hNext value).fills
  constructor
  · exact hFirst.fills.bind hLocal hFills hLooks hCovers
  · intro text
    apply CompletesAt.bind hLocal (hFirst.completes text)
      hFills _ hLooks hCovers
    intro value rest _
    exact (hNext value).completes rest

/- After what is solid, only its own looks count. -/
theorem Viable.bind_solid
    (hFirst : first.Viable looks)
    (hLocal : first.Local first_ Solid)
    (hNext : ∀ value, (next value).Viable first_) :
    (first >>= next).Viable looks :=
  hFirst.bind hLocal hNext (List.Subset.refl first_)
    fun _ hSolid => .inl hSolid

/- Past what may be nothing, earlier looks count too. -/
theorem Viable.bind_tidy
    (hFirst : first.Viable looks)
    (hLocal : first.Local first_ Tidy)
    (hNext : ∀ value,
      (next value).Viable (looks ++ first_)) :
    (first >>= next).Viable looks := by
  apply hFirst.bind hLocal hNext
    (List.subset_append_right _ _)
  rintro used (hNone | hSolid)
  · exact .inr (.inr ⟨hNone, List.subset_append_left _ _⟩)
  · exact .inl hSolid

/- Without looks in front, the first part may be anything. -/
theorem Viable.bind_free
    (hFirst : first.Viable [])
    (hLocal : first.Local first_ extent)
    (hNext : ∀ value, (next value).Viable first_) :
    (first >>= next).Viable [] :=
  hFirst.bind hLocal hNext (List.Subset.refl first_)
    fun _ _ => .inr (.inl rfl)

end Bind

section Viable

variable {looks : List Look} {scan : Scan α}

/- A name for a production does not move its failures. -/
theorem error_of_labelled
    {label : Label}
    {text : Text}
    (h : Scan.labelled label scan text = .error failure) :
    ∃ found, scan text = .error found ∧
      failure = found.inside label := by
  unfold Scan.labelled at h
  split at h
  · next found hFound =>
      cases h
      exact ⟨found, hFound, rfl⟩
  · cases h

theorem Viable.labelled
    (h : scan.Viable looks)
    (label : Label) :
    (Scan.labelled label scan).Viable looks := by
  constructor
  · rcases h.fills with ⟨more, value, hMore, hRead⟩
    exact ⟨more, value, hMore, labelled_eq_ok_iff.mpr hRead⟩
  · intro text failure hFails
    rcases error_of_labelled hFails with ⟨found, hFound, rfl⟩
    rcases h.completes text found hFound with
      ⟨front, more, value, hText, hSolid, hSeen, hDone⟩
    exact ⟨front, more, value, hText, hSolid, hSeen,
      labelled_eq_ok_iff.mpr hDone⟩

/- Making a value of what was read does not fail. -/
theorem error_of_map
    {make : α → β}
    {text : Text}
    (h : (scan >>= fun value => pure (make value)) text =
      .error failure) :
    scan text = .error failure := by
  rcases bind_eq_error_iff.mp h with hScan | ⟨_, _, _, hPure⟩
  · exact hScan
  · cases hPure

/- A scan that never fails needs no completing. -/
theorem viable_of_total
    {value : α}
    (hTotal : ∀ text, ∃ result, scan text = .ok result)
    (hNil : scan [] = .ok (value, [])) :
    scan.Viable looks := by
  constructor
  · exact ⟨[], value, fun look _ => look.holds_nil, hNil⟩
  · intro text failure hFails
    rcases hTotal text with ⟨result, hRead⟩
    rw [hRead] at hFails
    cases hFails

theorem viable_pure
    (value : α) :
    (pure value : Scan α).Viable looks :=
  viable_of_total (fun text => ⟨(value, text), rfl⟩) rfl

theorem Viable.mono
    {more : List Look}
    (h : scan.Viable more)
    (hLooks : looks ⊆ more) :
    scan.Viable looks := by
  constructor
  · rcases h.fills with ⟨text, value, hText, hRead⟩
    exact ⟨text, value, fun look hMem =>
      hText look (hLooks hMem), hRead⟩
  · intro text failure hFailed
    rcases h.completes text failure hFailed with
      ⟨front, rest, value, hText, hSolid, hSeen, hDone⟩
    exact ⟨front, rest, value, hText, hSolid,
      hSeen.mono hLooks, hDone⟩

theorem Viable.map
    (h : scan.Viable looks)
    {first_ : List Look}
    (hLocal : scan.Local first_ Solid)
    (make : α → β) :
    (scan >>= fun value => pure (make value)).Viable looks :=
  h.bind_solid hLocal fun value => viable_pure (make value)

end Viable

end Scan

-- Lexemes

section Lexemes

variable {looks : List Look}

/-
  A lexeme that is not there can be put there, after the
  white space.
-/
theorem viable_of_lexeme
    {α : Type}
    {scan : Scan α}
    {fill : Text}
    {value : α}
    (hFails : ∀ text failure, scan text = .error failure →
      failure.rest = skipSpace text)
    (hFill : ∀ gap, IsGap gap →
      scan (gap ++ fill) = .ok (value, []))
    (hSolid : Solid fill)
    (hLooks : Passes looks fill) :
    scan.Viable looks := by
  constructor
  · exact ⟨fill, value, hLooks, hFill [] (by simp [IsGap])⟩
  · intro text failure hFailed
    rcases exists_gap text with ⟨gap, hGap, hText⟩
    rw [← hFails text failure hFailed] at hText
    refine ⟨gap, fill, value, hText, hSolid.prepend gap, ?_,
      hFill gap hGap⟩
    rw [hText]
    exact replaces_gap hGap hLooks failure.rest

theorem viable_symbol
    (h : IsMark c)
    (hLooks : Passes looks [c]) :
    (symbol c).Viable looks := by
  apply viable_of_lexeme _ _ h.solid hLooks
  · exact ()
  · intro text failure hFailed
    unfold symbol at hFailed
    split at hFailed
    · next hText =>
        cases hFailed
        exact hText.symm
    · next hText =>
        split at hFailed
        · cases hFailed
        · cases hFailed
          exact hText.symm
  · intro gap hGap
    apply symbol_eq_ok_iff.mpr
    rw [skipSpace_gap hGap, skipSpace_cons h.1]

theorem rest_of_run
    {belongs : Char → Bool}
    {cause : Cause}
    {text : Text}
    (h : run belongs cause text = .error failure) :
    failure.rest = skipSpace text := by
  unfold run at h
  dsimp only at h
  split at h
  · cases h
    rfl
  · cases h

/- A name that may stand where one is missing. -/
def someName : Text :=
  ['\n', 'x']

theorem solid_someName :
    Solid someName := by
  have hWord : IsWord ['x'] := by decide
  exact (Solid.of_isWord hWord).prepend ['\n']

theorem identifier_someName
    (h : IsGap gap) :
    identifier (gap ++ someName) = .ok (['x'], []) := by
  apply identifier_eq_ok_iff.mpr
  refine ⟨by decide, rfl, ?_⟩
  rw [skipSpace_gap h]
  rfl

theorem viable_identifier
    (hLooks : Passes looks someName) :
    identifier.Viable looks :=
  viable_of_lexeme (fun _ _ => rest_of_run)
    (fun _ => identifier_someName) solid_someName hLooks

theorem viable_integer
    (hLooks : Passes looks ['0']) :
    integer.Viable looks := by
  apply viable_of_lexeme (fun _ _ => rest_of_run) _
    (IsMark.solid (by decide)) hLooks
  · exact ['0']
  · intro gap hGap
    apply run_eq_ok_iff.mpr
    refine ⟨by simp, by simp [Stops], ?_⟩
    rw [skipSpace_gap hGap]
    rfl

theorem viable_quoted :
    quoted.Viable [] := by
  constructor
  · exact ⟨['"'], [], by simp [Passes], rfl⟩
  · intro text failure hFailed
    refine ⟨[], ['"'], [], ?_, IsMark.solid (by decide),
      replaces_nil, rfl⟩
    unfold quoted at hFailed
    split at hFailed
    · cases hFailed
      rfl
    · cases hFailed

theorem viable_stringLiteral
    (hLooks : Passes looks ['"']) :
    stringLiteral.Viable looks :=
  (viable_symbol (by decide)
    hLooks).bind_solid (local_symbol (by decide))
    fun _ => viable_quoted

theorem viable_separator :
    separator.Viable looks :=
  Scan.viable_of_total (fun _ => ⟨_, rfl⟩) rfl

theorem viable_inlineComment :
    inlineComment.Viable looks := by
  apply Scan.viable_of_total _ rfl
  intro text
  unfold inlineComment
  split
  · exact ⟨_, rfl⟩
  · exact ⟨_, rfl⟩

/- What a mark opens is completed after the mark. -/
theorem OpenedBy.viable
    {α : Type}
    {scan : Scan (Option α)}
    {inner : Scan α}
    (h : OpenedBy c inner scan)
    (hMark : IsMark c)
    {first_ : List Look}
    (hLocal : inner.Local first_ Solid)
    (hInner : inner.Viable []) :
    scan.Viable looks := by
  constructor
  · refine ⟨[], none, fun look _ => look.holds_nil, ?_⟩
    exact h.missing [] (Look.holds_nil _)
  · intro text failure hFailed
    rcases mark_cases c text with ⟨rest, hRest⟩ | hNone
    · rw [h.opened text rest hRest] at hFailed
      rcases exists_taken hRest hMark.solid with
        ⟨used, hText, hUsed, hTaken⟩
      have hSome := hInner.map hLocal some
      rcases hSome.completes rest failure hFailed with
        ⟨front, more, value, hSplit, hSolid, _, hDone⟩
      refine ⟨used ++ front, more, value, ?_, ?_, ?_, ?_⟩
      · rw [hText, hSplit, List.append_assoc]
      · rw [List.append_assoc]
        exact hUsed.append _
      · rw [List.append_assoc, hText]
        exact hUsed.replaces looks rest _
      · rw [List.append_assoc, h.opened _ _ (hTaken _)]
        exact hDone
    · rw [h.missing text hNone] at hFailed
      cases hFailed

end Lexemes

-- Repetition

namespace Scan

/-
  A repetition is completed by its last round, after rounds
  that are read as before.
-/
theorem completesAt_repeated
    {α β : Type}
    {step : Scan (Round α β)}
    {progress : Progresses step}
    {looks : List Look}
    (hMore : ∀ text value rest,
      step text = .ok (.more value, rest) →
        ∃ used, text = used ++ rest ∧ Solid used ∧
          ∀ other, Replaces looks rest other →
            step (used ++ other) = .ok (.more value, other))
    (hStep : ∀ text failure, step text = .error failure →
      (repeated step progress).Completion looks text
        failure.rest)
    (text : Text) :
    (repeated step progress).CompletesAt looks text := by
  -- each further round has less text in front of it
  induction hn : text.length using Nat.strongRecOn
    generalizing text with
  | ind n ih =>
      intro failure hFailed
      rw [repeated_eq] at hFailed
      split at hFailed
      · next hError =>
          cases hFailed
          exact hStep text failure hError
      · cases hFailed
      · next value rest hRound =>
          have hShorter := (progress _ _ _ hRound).2
          split at hFailed
          · next hRest =>
              cases hFailed
              rcases ih _ (hn ▸ hShorter) rest rfl _ hRest with
                ⟨front, more, ⟨values, final⟩, hSplit, hSolid,
                  hSeen, hDone⟩
              rcases hMore text value rest hRound with
                ⟨used, hText, hUsed, hReads⟩
              refine ⟨used ++ front, more,
                (value :: values, final), ?_, ?_, ?_, ?_⟩
              · rw [hText, hSplit, List.append_assoc]
              · rw [List.append_assoc]
                exact hUsed.append _
              · rw [List.append_assoc, hText]
                exact hUsed.replaces looks rest _
              · rw [List.append_assoc]
                exact repeated_more progress
                  (hReads _ hSeen) hDone
          · cases hFailed

end Scan

-- Annotations

section Annotations

variable {looks : List Look}

theorem viable_annot
    (hLooks : Passes looks someName) :
    annot.Viable looks := by
  apply (viable_identifier hLooks).bind_solid local_identifier
  intro name
  apply (viable_symbol (by decide)
    (by decide)).bind_solid
    (local_symbol (by decide))
  intro _
  exact (viable_stringLiteral (by decide)).map
    local_stringLiteral (Annot.mk name)

theorem viable_repeated_nextAnnot :
    (Scan.repeated nextAnnot progresses_nextAnnot).Viable
      [] := by
  constructor
  · refine ⟨[], ([], ()), by decide, ?_⟩
    exact Scan.repeated_last _
      (nextAnnot_of_none (Look.holds_nil _))
  · apply Scan.completesAt_repeated
    · intro text value rest hRound
      rcases nextAnnot_local hRound with
        ⟨used, hText, hUsed, hReads⟩
      exact ⟨used, hText, hUsed, fun other _ => hReads other⟩
    · intro text failure hFailed
      rcases mark_cases ',' text with ⟨rest, hRest⟩ | hNone
      · rw [nextAnnot_of_comma hRest] at hFailed
        rcases exists_taken hRest (IsMark.solid (by decide))
          with ⟨used, hText, hUsed, hTaken⟩
        have hAnnot := Scan.error_of_map hFailed
        have hViable : annot.Viable [] :=
          viable_annot (by decide)
        rcases hViable.completes rest failure hAnnot with
          ⟨front, more, value, hSplit, _, _, hDone⟩
        have hRound : nextAnnot (used ++ (front ++ more)) =
            .ok (.more value, []) := by
          rw [nextAnnot_of_comma (hTaken _)]
          exact Scan.bind_ok hDone rfl
        refine ⟨used ++ front, more, ([value], ()), ?_, ?_,
          replaces_nil, ?_⟩
        · rw [hText, hSplit, List.append_assoc]
        · rw [List.append_assoc]
          exact hUsed.append _
        · rw [List.append_assoc]
          apply Scan.repeated_more _ hRound
          exact Scan.repeated_last _
            (nextAnnot_of_none (Look.holds_nil _))
      · rw [nextAnnot_of_none hNone] at hFailed
        cases hFailed

theorem viable_annotList :
    annotList.Viable [] := by
  apply Scan.Viable.labelled
  apply (viable_annot (by decide)).bind_solid local_annot
  intro first
  apply viable_repeated_nextAnnot.bind_free
    local_repeated_nextAnnot
  intro more
  exact (viable_symbol (by decide)
    (by decide)).map (local_symbol (by decide))
    fun _ => first :: more.1

theorem viable_annotations? :
    annotations?.Viable looks :=
  openedBy_annotations?.viable (by decide) local_annotList
    viable_annotList

end Annotations

-- Types

section Types

variable {order : Order} {looks : List Look}

/- No keyword is the name that is put in. -/
theorem firstKeyword?_someName
    {α : Type}
    {word : α → Text}
    (hWords : ∀ choice, IsWord (word choice))
    (hOther : ∀ choice, word choice ≠ ['x'])
    (choices : List α)
    (hGap : IsGap gap) :
    firstKeyword? word choices (gap ++ someName) = none := by
  rcases identifier_eq_ok_iff.mp (identifier_someName hGap)
    with ⟨hName, hEnds, hText⟩
  exact firstKeyword?_eq_none (fun choice => (hWords choice).2)
    hName.2 hText hEnds hOther

theorem idlType_someName
    (order : Order)
    (hGap : IsGap gap) :
    idlType order (gap ++ someName) =
      .ok (.named ['x'], []) := by
  have hName := identifier_someName hGap
  rcases identifier_eq_ok_iff.mp hName with
    ⟨hWord, hEnds, hText⟩
  apply idlType_eq_ok_iff.mpr
  right
  refine ⟨firstKeyword?_someName Primitive.isWord_word
    (fun primitive => ?_) _ hGap, .inr ⟨?_, ['x'], hName, rfl⟩⟩
  · cases primitive <;> decide
  · exact firstGeneric?_eq_none hWord.2 hText hEnds
      (by simp [Stops, skipSpace])

theorem requiredness?_someName
    (order : Order)
    (hGap : IsGap gap) :
    requiredness? order (gap ++ someName) =
      .ok (none, gap ++ someName) := by
  apply requiredness?_eq_none_iff.mpr
  refine ⟨firstKeyword?_someName Requiredness.isWord_word
    (fun requiredness => ?_) _ hGap, rfl⟩
  cases requiredness <;> decide

/-
  A type that fails can be completed, and a requiredness
  that was not in front of it does not come up.
-/
def CompletesType
    (order : Order)
    (looks : List Look)
    (text : Text) : Prop :=
  ∀ failure, idlType order text = .error failure →
    ∃ front more type, text = front ++ failure.rest ∧
      Solid (front ++ more) ∧
      Replaces looks text (front ++ more) ∧
      idlType order (front ++ more) = .ok (type, []) ∧
      (requiredness? order text = .ok (none, text) →
        requiredness? order (front ++ more) =
          .ok (none, front ++ more))

theorem completesType_of_name
    (hLooks : Passes looks someName)
    {text rest : Text}
    (hRest : rest = skipSpace text) :
    ∃ front more type, text = front ++ rest ∧
      Solid (front ++ more) ∧
      Replaces looks text (front ++ more) ∧
      idlType order (front ++ more) = .ok (type, []) ∧
      requiredness? order (front ++ more) =
        .ok (none, front ++ more) := by
  rcases exists_gap text with ⟨gap, hGap, hText⟩
  refine ⟨gap, someName, _, hRest ▸ hText,
    solid_someName.prepend gap, ?_,
    idlType_someName order hGap, ?_⟩
  · rw [hText]
    exact replaces_gap hGap hLooks _
  · exact requiredness?_someName order hGap

theorem fills_idlType
    (order : Order)
    (hLooks : Passes looks someName) :
    (idlType order).Fills looks :=
  ⟨someName, _, hLooks, idlType_someName order
    (show IsGap [] by simp [IsGap])⟩

/- The last type in a composed one, and its bracket. -/
def closed
    (order : Order)
    (make : IdlType → IdlType) : Scan IdlType := do
  let type ← idlType order
  symbol '>'
  pure (make type)

theorem viable_bracket
    (type : IdlType) :
    (symbol '>' >>= fun _ => pure type).Viable
      [.word, .mark '<'] :=
  (viable_symbol (by decide)
    (by decide)).map (local_symbol (by decide))
    fun _ => type

theorem fills_closed
    (order : Order)
    (make : IdlType → IdlType) :
    (closed order make).Fills [] :=
  (fills_idlType order (by decide)).bind (local_idlType order)
    (fun type => (viable_bracket (make type)).fills)
    (List.Subset.refl _) fun _ hSolid => .inl hSolid

theorem completesAt_closed
    {text : Text}
    (h : (idlType order).CompletesAt [] text)
    (make : IdlType → IdlType) :
    (closed order make).CompletesAt [] text := by
  apply h.bind (local_idlType order)
    (fun type => (viable_bracket (make type)).fills) _
    (List.Subset.refl _) (fun _ hSolid => .inl hSolid)
  intro type rest _
  exact (viable_bracket (make type)).completes rest

theorem completesAt_composed
    {text : Text}
    (h : ∀ inner : Text, inner.length ≤ text.length →
      (idlType order).CompletesAt [] inner)
    (generic : Generic) :
    (composed (idlType order) generic).CompletesAt [] text := by
  have hHere := h text (Nat.le_refl _)
  cases generic with
  | list => exact completesAt_closed hHere IdlType.list
  | map =>
      have hMark : IsMark ',' := by decide
      have hComma : (symbol ',').Viable [.word, .mark '<'] :=
        viable_symbol hMark (by decide)
      have hFills (key : IdlType) :
          (symbol ',' >>= fun _ =>
            closed order (IdlType.map key)).Fills
              [.word, .mark '<'] :=
        hComma.fills.bind (local_symbol hMark)
          (fun _ => fills_closed order _)
          (List.Subset.refl _) fun _ hUsed => .inl hUsed
      apply hHere.bind (local_idlType order) hFills _
        (List.Subset.refl _) (fun _ hUsed => .inl hUsed)
      intro key afterKey hKey
      apply (hComma.completes afterKey).bind
        (local_symbol hMark) (fun _ => fills_closed order _) _
        (List.Subset.refl _) (fun _ hUsed => .inl hUsed)
      intro _ afterComma hRest
      have hKeyLength :=
        (consumes_idlType order _ _ _ hKey).2
      have hRestLength := (consumes_symbol _ _ _ _ hRest).2
      exact completesAt_closed (h afterComma (by omega)) _

/- A type fails where a name is missing, or inside. -/
theorem cases_of_idlType_error
    {text : Text}
    (h : idlType order text = .error failure) :
    failure.rest = skipSpace text ∨
      firstKeyword? Primitive.word order.primitives text =
          none ∧
        ∃ generic inner found,
          firstGeneric? order.generics text =
              some (generic, inner) ∧
            composed (idlType order) generic inner =
              .error found ∧
            failure.rest = found.rest := by
  rw [idlType_eq] at h
  rcases Scan.error_of_labelled h with ⟨found, hFound, rfl⟩
  split at hFound
  · cases hFound
  · next hNone =>
      split at hFound
      · next generic inner hOpen =>
          exact .inr ⟨hNone, generic, inner, found, hOpen,
            hFound, rfl⟩
      · have hName : identifier text = .error found :=
          Scan.error_of_map hFound
        left
        exact (rest_of_run hName : found.rest = skipSpace text)

theorem completesType
    (hLooks : Passes looks someName)
    (text : Text) :
    CompletesType order looks text := by
  -- the types inside are read from shorter texts
  induction hn : text.length using Nat.strongRecOn
    generalizing text looks with
  | ind n ih =>
      intro failure hFailed
      rcases cases_of_idlType_error hFailed with
        hRest | ⟨hNone, generic, inner, found, hOpen, hInner,
          hRest⟩
      · rcases completesType_of_name hLooks hRest with
          ⟨front, more, type, hText, hSolid, hSeen, hDone,
            hRequired⟩
        exact ⟨front, more, type, hText, hSolid, hSeen, hDone,
          fun _ => hRequired⟩
      · have hShorter := (firstGeneric?_suffix hOpen).2
        have hNested (shorter : Text)
            (hLength : shorter.length ≤ inner.length) :
            (idlType order).CompletesAt [] shorter := by
          intro failure hFailed
          rcases ih shorter.length (by omega)
            (show Passes [] someName by decide) shorter rfl
            failure hFailed with
            ⟨front, more, type, hText, hSolid, hSeen, hDone, _⟩
          exact ⟨front, more, type, hText, hSolid, hSeen, hDone⟩
        rcases completesAt_composed hNested generic found hInner
          with ⟨front, more, type, hSplit, hSolid, _, hDone⟩
        rcases exists_opening hNone hOpen with
          ⟨opening, hText, hOpening, hOpens⟩
        rcases hOpens (front ++ more) with ⟨hSame, hType⟩
        refine ⟨opening ++ front, more, type, ?_, ?_, ?_, ?_, ?_⟩
        · rw [hText, hSplit, hRest, List.append_assoc]
        · rw [List.append_assoc]
          exact hOpening.append _
        · rw [List.append_assoc, hText]
          exact hOpening.replaces looks inner _
        · rw [List.append_assoc]
          exact hType type [] hDone
        · intro hRequired
          rw [List.append_assoc]
          apply requiredness?_eq_none_iff.mpr
          exact ⟨hSame.firstKeyword?_eq_none
            Requiredness.isWord_word
            (requiredness?_eq_none_iff.mp hRequired).1, rfl⟩

theorem viable_idlType
    (order : Order)
    (hLooks : Passes looks someName) :
    (idlType order).Viable looks := by
  refine ⟨fills_idlType order hLooks, fun text => ?_⟩
  intro failure hFailed
  rcases completesType hLooks text failure hFailed with
    ⟨front, more, type, hText, hSolid, hSeen, hDone, _⟩
  exact ⟨front, more, type, hText, hSolid, hSeen, hDone⟩

theorem viable_typed
    (order : Order)
    (hLooks : Passes looks someName) :
    (typed order).Viable looks := by
  constructor
  · have hGap : IsGap [] := by simp [IsGap]
    refine ⟨someName, (none, .named ['x']), hLooks, ?_⟩
    apply Scan.bind_ok (requiredness?_someName order hGap)
    exact Scan.bind_ok (idlType_someName order hGap) rfl
  · intro text failure hFailed
    rcases Scan.bind_eq_error_iff.mp hFailed with
      hFound | ⟨required, after, hRequired, hRest⟩
    · unfold requiredness? at hFound
      split at hFound <;> cases hFound
    · have hType := Scan.error_of_map hRest
      cases required with
      | some found =>
          rcases requiredness?_local hRequired with
            ⟨hEnds, used, hText, hUsed, hFound⟩
          have hWord : CompletesType order [.word] after :=
            completesType (by decide) after
          rcases hWord failure hType with
            ⟨front, more, type, hSplit, _, hSeen, hDone, _⟩
          have hStops := hSeen.endsWord hEnds
          refine ⟨used ++ front, more, (some found, type),
            ?_, ?_, ?_, ?_⟩
          · rw [hText, hSplit, List.append_assoc]
          · rw [List.append_assoc]
            exact hUsed.append _
          · rw [List.append_assoc, hText]
            exact hUsed.replaces looks after _
          · rw [List.append_assoc]
            apply Scan.bind_ok (hFound _ hStops)
            exact Scan.bind_ok hDone rfl
      | none =>
          rcases requiredness?_eq_none_iff.mp hRequired with
            ⟨hNone, rfl⟩
          rcases completesType hLooks text failure hType with
            ⟨front, more, type, hText, hSolid, hSeen, hDone,
              hStill⟩
          refine ⟨front, more, (none, type), hText, hSolid,
            hSeen, ?_⟩
          apply Scan.bind_ok (hStill hRequired)
          exact Scan.bind_ok hDone rfl

end Types

-- Members

section Members

variable {α : Type} {member : List Comment → Scan α}
variable {closing : Char} {looks : List Look}

/-
  What the members of a block are like: each can be
  completed, starts with no slash, and may be followed by
  the closing symbol.
-/
structure Completable
    (looks : List Look)
    (member : List Comment → Scan α)
    (closing : Char) : Prop where
  stays : ∀ before, (member before).Local looks Solid
  viable : ∀ before, (member before).Viable []
  starts : ∀ before rest result,
    member before ('/' :: rest) ≠ .ok result
  passes : Passes looks ['\n', closing]
  mark : IsMark closing

section Completable

variable (h : Completable looks member closing)
variable (consumes : ∀ before, (member before).Consumes)
variable {text rest : Text} {before : List Comment}

include h

/- No members, and the closing symbol on its own line. -/
theorem Completable.members_none :
    members member consumes closing ['\n', closing] =
      .ok (([], []), []) := by
  apply Scan.repeated_last
  apply nextMember_eq_last_iff.mpr
  rw [comments_congr (skipSpace_cons_space rfl [closing])]
  exact comments_of_clear h.mark.clear

/- After comments the block can be closed. -/
theorem Completable.members_comments
    (hComments : comments text = .ok (before, rest)) :
    (members member consumes closing).Completion looks
      text rest := by
  rcases comments_local hComments with
    ⟨_, used, hText, hUsed, hReads⟩
  refine ⟨used, ['\n', closing], ([], before), hText, ?_, ?_, ?_⟩
  · exact (h.mark.solid.cons '\n').prepend used
  · rw [hText]
    rcases hUsed with hGap | hSolid
    · exact replaces_gap hGap h.passes rest
    · exact hSolid.replaces looks rest _
  · have hLine : Replaces [.line] rest ['\n', closing] := by
      simp [Replaces, Look.line, Look.Holds, Stops]
    apply Scan.repeated_last
    apply nextMember_eq_last_iff.mpr
    rw [hReads _ hLine,
      comments_congr (skipSpace_cons_space rfl [closing]),
      comments_of_clear h.mark.clear]
    simp [withComments, Except.map]

/- A member that fails is completed, and the block closed. -/
theorem Completable.members_member
    {front more : Text}
    (hComments : comments text =
      .ok (before, c :: front ++ rest))
    (hOpen : c ≠ closing)
    {value : α}
    (hDone : member before (c :: front ++ more) =
      .ok (value, [])) :
    (members member consumes closing).Completion looks
      text rest := by
  have hSlash : c ≠ '/' := by
    rintro rfl
    exact h.starts before _ _ hDone
  have hSpace : isSpace c = false :=
    (comments_local hComments).1.isSpace_eq_false
  have hSolid : Solid (c :: front) := .of_cons hSpace hSlash _
  rcases comments_before_solid hComments hSolid with
    ⟨used, hText, hReads⟩
  rcases h.stays before _ value [] hDone with
    ⟨taken, hTaken, _, hAgain⟩
  rw [List.append_nil] at hTaken
  have hMember := hAgain ['\n', closing] fun look hMem _ =>
    h.passes look hMem
  rw [← hTaken, List.append_assoc] at hMember
  have hRound : nextMember member closing
      (used ++ (c :: front ++ (more ++ ['\n', closing]))) =
        .ok (.more value, ['\n', closing]) :=
    nextMember_eq_more_iff.mpr
      ⟨before, c, _, hReads _, hOpen, hMember⟩
  refine ⟨used ++ c :: front, more ++ ['\n', closing],
    ([value], []), ?_, ?_, ?_, ?_⟩
  · rw [hText, List.append_assoc]
  · exact (hSolid.prepend used).append _
  · rw [hText, ← List.append_assoc]
    exact (hSolid.prepend used).replaces looks rest _
  · rw [List.append_assoc]
    exact Scan.repeated_more _ hRound
      (h.members_none consumes)

/- A round of members that fails is the last one. -/
theorem Completable.completion
    (hFailed : nextMember member closing text =
      .error failure) :
    (members member consumes closing).Completion looks
      text failure.rest := by
  rcases Scan.bind_eq_error_iff.mp hFailed with
    hOpened | ⟨found, after, hComments, hRest⟩
  · rcases comments_open hOpened with
      ⟨front, found, hText, hFront, hReads⟩
    refine ⟨front, ['*', '/', closing], ([], found), hText,
      hFront.append _, ?_, ?_⟩
    · rw [hText]
      exact hFront.replaces looks failure.rest _
    · apply Scan.repeated_last
      apply nextMember_eq_last_iff.mpr
      rw [hReads [closing], comments_of_clear h.mark.clear]
      simp [withComments, Except.map]
  · cases after with
    | nil =>
        cases hRest
        exact h.members_comments consumes hComments
    | cons c inner =>
        by_cases hOpen : c = closing
        · simp [hOpen] at hRest
        · simp only [hOpen, if_false] at hRest
          have hMember := Scan.error_of_map hRest
          rcases (h.viable found).completes _ failure
            hMember with
            ⟨front, more, value, hText, _, _, hDone⟩
          rw [hText] at hComments
          cases front with
          | nil => exact h.members_comments consumes hComments
          | cons d front =>
              cases hText
              exact h.members_member consumes hComments hOpen
                hDone

end Completable

theorem viable_members
    (h : Completable looks member closing)
    {consumes : ∀ before, (member before).Consumes} :
    (members member consumes closing).Viable looks := by
  constructor
  · exact ⟨['\n', closing], ([], []), h.passes,
      h.members_none consumes⟩
  · apply Scan.completesAt_repeated
    · intro text value rest hRound
      exact nextMember_local h.stays hRound
    · intro text failure hFailed
      exact h.completion consumes hFailed

end Members

theorem viable_ending
    {α : Type}
    {looks : List Look}
    (make : Option (List Annot) → List Comment → α) :
    (do
      let annotations ← annotations?
      separator
      let beside ← inlineComment
      pure (make annotations beside) : Scan α).Viable looks := by
  apply viable_annotations?.bind_tidy local_annotations?
  intro annotations
  apply viable_separator.bind_tidy local_separator
  intro _
  apply viable_inlineComment.bind_tidy local_inlineComment
  intro beside
  exact Scan.viable_pure _

theorem viable_field
    (order : Order)
    (before : List Comment) :
    (field order before).Viable [] := by
  have hColon : IsMark ':' := by decide
  rw [field_eq]
  apply Scan.Viable.labelled
  apply (viable_integer (by decide)).bind_solid local_integer
  intro id
  apply (viable_symbol hColon (by decide)).bind_solid
    (local_symbol hColon)
  intro _
  apply (viable_typed order (by decide)).bind_solid
    (local_typed order)
  intro type
  apply (viable_identifier (by decide)).bind_solid
    local_identifier
  intro name
  exact viable_ending _

theorem viable_signedInteger :
    signedInteger.Viable [] := by
  have hInteger : integer.Viable [] :=
    viable_integer (by decide)
  constructor
  · exact ⟨['0'], ['0'], by decide, by decide⟩
  · intro text failure hFailed
    rcases mark_cases '-' text with ⟨inner, hInner⟩ | hNone
    · rw [signedInteger_of_minus hInner] at hFailed
      rcases exists_taken hInner (IsMark.solid (by decide)) with
        ⟨used, hText, hUsed, hTaken⟩
      have hMinus := hInteger.map local_integer ('-' :: ·)
      rcases hMinus.completes inner failure hFailed with
        ⟨front, more, value, hSplit, _, _, hDone⟩
      refine ⟨used ++ front, more, value, ?_, ?_,
        replaces_nil, ?_⟩
      · rw [hText, hSplit, List.append_assoc]
      · rw [List.append_assoc]
        exact hUsed.append _
      · rw [List.append_assoc,
          signedInteger_of_minus (hTaken _)]
        exact hDone
    · rw [signedInteger_of_none hNone] at hFailed
      have hMinus : integer.Viable [.mark '-'] :=
        viable_integer (by decide)
      rcases hMinus.completes text failure hFailed with
        ⟨front, more, value, hText, hSolid, hSeen, hDone⟩
      refine ⟨front, more, value, hText, hSolid,
        replaces_nil, ?_⟩
      rw [signedInteger_of_none (hSeen _ (by simp) hNone)]
      exact hDone

theorem viable_enumMember
    (before : List Comment) :
    (enumMember before).Viable [] := by
  apply Scan.Viable.labelled
  apply (viable_identifier (by decide)).bind_solid
    local_identifier
  intro name
  have hMark : IsMark '=' := by decide
  apply (openedBy_enumValue?.viable hMark local_signedInteger
    viable_signedInteger).bind_tidy
    (openedBy_enumValue?.local hMark local_signedInteger)
  intro value
  apply viable_separator.bind_tidy local_separator
  intro _
  apply viable_inlineComment.bind_tidy local_inlineComment
  intro beside
  exact Scan.viable_pure _

/- No word and no number starts with a slash. -/
theorem run_slash
    {belongs : Char → Bool}
    (h : belongs '/' = false)
    {cause : Cause}
    {rest : Text}
    {result : Text × Text} :
    run belongs cause ('/' :: rest) ≠ .ok result := by
  intro hRead
  rcases result with ⟨word, left⟩
  rcases run_eq_ok_iff.mp hRead with
    ⟨⟨hNonempty, hWord⟩, _, hText⟩
  rw [skipSpace_cons (by decide)] at hText
  cases word with
  | nil => exact hNonempty rfl
  | cons c word =>
      have hSame : c = '/' := (List.cons.inj hText).1.symm
      have hSlash := hWord c List.mem_cons_self
      rw [hSame, h] at hSlash
      cases hSlash

theorem completable_field
    (order : Order)
    {closing : Char}
    (hClosing : closing = ')' ∨ closing = '\x7d') :
    Completable (.word :: memberLooks) (field order)
      closing where
  stays := local_field order
  viable := viable_field order
  starts before rest result hRead := by
    rw [field_eq] at hRead
    rcases Scan.bind_eq_ok_iff.mp
      (Scan.labelled_eq_ok_iff.mp hRead) with
      ⟨_, _, hNumber, _⟩
    exact run_slash (by decide) hNumber
  passes := by
    rcases hClosing with rfl | rfl <;> decide
  mark := by
    rcases hClosing with rfl | rfl <;> decide

theorem completable_enumMember :
    Completable valueLooks enumMember '\x7d' where
  stays := local_enumMember
  viable := viable_enumMember
  starts before rest result hRead := by
    rcases Scan.bind_eq_ok_iff.mp
      (Scan.labelled_eq_ok_iff.mp hRead) with
      ⟨_, _, hName, _⟩
    exact run_slash (by decide) hName
  passes := by decide
  mark := by decide

theorem viable_function
    (order : Order)
    (before : List Comment) :
    (function order before).Viable [] := by
  have hOpen : IsMark '(' := by decide
  have hFields := completable_field order (.inl rfl)
  apply Scan.Viable.labelled
  apply (viable_idlType order (by decide)).bind_solid
    (local_idlType order)
  intro returnType
  apply (viable_identifier (by decide)).bind_solid
    local_identifier
  intro name
  apply (viable_symbol hOpen (by decide)).bind_solid
    (local_symbol hOpen)
  intro _
  apply (viable_members (completable_field order
    (.inl rfl))).mono (List.nil_subset _) |>.bind_solid
    (local_members (local_field order) (by decide))
  intro fields
  exact viable_ending _

theorem completable_function
    (order : Order) :
    Completable memberLooks (function order) '\x7d' where
  stays := local_function order
  viable := viable_function order
  starts before rest result hRead := by
    rcases Scan.bind_eq_ok_iff.mp
      (Scan.labelled_eq_ok_iff.mp hRead) with
      ⟨type, left, hType, _⟩
    rcases staysType_of_idlType hType with
      ⟨used, _, _, hReads⟩
    rcases (hReads left fun _ _ hLook => hLook).2 with
      ⟨name, _, _, hName, _⟩
    exact run_slash (by decide) hName
  passes := by decide
  mark := by decide

-- Definitions

theorem viable_block
    {α : Type}
    {member : List Comment → Scan α}
    {consumes : ∀ before, (member before).Consumes}
    {looks : List Look}
    (h : Completable looks member '\x7d')
    (make : Text → List α × List Comment → Definition) :
    (do
      let name ← identifier
      symbol '\x7b'
      let found ← members member consumes '\x7d'
      pure (make name found) : Scan Definition).Viable
        [.word] := by
  have hOpen : IsMark '\x7b' := by decide
  apply (viable_identifier (by decide)).bind_solid
    local_identifier
  intro name
  apply (viable_symbol hOpen (by decide)).bind_solid
    (local_symbol hOpen)
  intro _
  exact ((viable_members h).mono (List.nil_subset _)).map
    (local_members h.stays h.mark) (make name)

theorem viable_definitionBody
    (order : Order)
    (before : List Comment)
    (kind : Kind) :
    (definitionBody order before kind).Viable [.word] := by
  cases kind with
  | nameSpace =>
      apply (viable_identifier (by decide)).bind_solid
        local_identifier
      intro scope
      exact (viable_identifier (by decide)).map
        local_identifier fun name =>
          Definition.nameSpace
            { scope, name, comments := before }
  | inclusion =>
      exact (viable_stringLiteral (by decide)).map
        local_stringLiteral fun path =>
          Definition.inclusion { path, comments := before }
  | struct =>
      exact viable_block (completable_field order (.inr rfl)) _
  | enum => exact viable_block completable_enumMember _
  | service => exact viable_block (completable_function order) _

end Idl

end ThriftTypings
