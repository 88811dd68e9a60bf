import ThriftTypings.Proofs.Idl.Viability

/-
  This file proves that documents can be put after each
  other. If a first source is accepted, then what a second
  one gives decides what the two give on different lines.

  The comments at the end of the first document go to the
  first definition of the second one. An error of the second
  source stays where it is, and only its line moves.

  Key definitions include:
    * `Definition.after`
    * `Document.followedBy`

  Key theorems include:
    * `documentFrom_followedBy`
    * `Document.parse_of_joined_sources`
-/

namespace ThriftTypings

namespace Idl

variable {before : List Comment}

-- Joined Documents

/- A definition with more comments in front of its own. -/
def Definition.after
    (before : List Comment) : Definition → Definition
  | .nameSpace found =>
      .nameSpace
        { found with comments := before ++ found.comments }
  | .inclusion found =>
      .inclusion
        { found with comments := before ++ found.comments }
  | .struct found =>
      .struct
        { found with comments := before ++ found.comments }
  | .enum found =>
      .enum { found with comments := before ++ found.comments }
  | .service found =>
      .service
        { found with comments := before ++ found.comments }

/- A document with more comments in front of it. -/
def Document.after
    (before : List Comment)
    (document : Document) : Document :=
  match document.body with
  | [] => ⟨[], before ++ document.trailing⟩
  | first :: more =>
      ⟨first.after before :: more, document.trailing⟩

/-
  One document and then another. The comments that end the
  first one stand in front of the second one.
-/
def Document.followedBy
    (first second : Document) : Document :=
  let joined := second.after first.trailing
  { joined with body := first.body ++ joined.body }

-- More Comments in Front

/- What a scan reads, with comments put in front of it. -/
def commented
    (before : List Comment)
    (scan : Scan Definition) : Scan Definition := do
  let found ← scan
  pure (found.after before)

theorem commented_apply
    (before : List Comment)
    (scan : Scan Definition)
    (text : Text) :
    commented before scan text =
      (scan text).map fun (found, rest) =>
        (found.after before, rest) := by
  unfold commented
  rw [Scan.bind_apply]
  cases scan text with
  | error failure => rfl
  | ok result => rfl

theorem labelled_commented
    (label : Label)
    (before : List Comment)
    (scan : Scan Definition) :
    Scan.labelled label (commented before scan) =
      commented before (Scan.labelled label scan) := by
  funext text
  simp only [Scan.labelled, commented_apply]
  cases scan text with
  | error failure => rfl
  | ok result => rfl

theorem definitionBody_append
    (order : Order)
    (before more : List Comment)
    (kind : Kind) :
    definitionBody order (before ++ more) kind =
      commented before (definitionBody order more kind) := by
  cases kind <;>
    simp only [definitionBody, commented, Scan.bind_assoc,
      Scan.pure_bind, Definition.after]

/- The comments in front change nothing but themselves. -/
theorem definition_append
    (order : Order)
    (before more : List Comment)
    (kind : Kind) :
    definition order (before ++ more) kind =
      commented before (definition order more kind) := by
  unfold definition
  rw [definitionBody_append, ← labelled_commented]
  simp only [commented, Scan.bind_assoc]

theorem tryEach_commented
    {κ : Type}
    (scan : κ → Scan Definition)
    (before : List Comment)
    (text : Text)
    (choices : List κ)
    (earlier : Option Failure) :
    tryEach (fun choice => commented before (scan choice))
        text choices earlier =
      { tryEach scan text choices earlier with
        result :=
          (tryEach scan text choices earlier).result.map
            fun (found, rest) => (found.after before, rest) } := by
  induction choices generalizing earlier with
  | nil => rfl
  | cons choice more ih =>
      simp only [tryEach, commented_apply]
      cases scan choice text with
      | error failure => exact ih _
      | ok result => rfl

theorem topDefinition_append
    (order : Order)
    (before more : List Comment)
    (earlier : Option Failure)
    (text : Text) :
    topDefinition order (before ++ more) earlier text =
      (topDefinition order more earlier text).map
        fun ((found, rest), furthest) =>
          ((found.after before, rest), furthest) := by
  have hEach : definition order (before ++ more) =
      fun kind => commented before (definition order more kind) :=
    funext fun kind => definition_append order before more kind
  unfold topDefinition
  rw [hEach, tryEach_commented]
  rcases tryEach (definition order more) text order.kinds
    earlier with ⟨result, furthest⟩
  cases result with
  | none => rfl
  | some found => rfl

/-
  Comments that are read in front of a document go to what
  it starts with.
-/
theorem documentFrom_withComments
    {order : Order}
    {text inner : Text}
    (h : comments text =
      withComments before (comments inner)) :
    documentFrom order none text =
      (documentFrom order none inner).map
        fun (document, rest) => (document.after before, rest) := by
  cases hInner : comments inner with
  | error failure =>
      rw [hInner] at h
      rw [documentFrom_eq, documentFrom_eq order none inner, h,
        hInner]
      rfl
  | ok found =>
      rcases found with ⟨more, rest⟩
      rw [hInner] at h
      have hText : comments text = .ok (before ++ more, rest) := h
      cases rest with
      | nil =>
          rw [documentFrom_of_comments hText,
            documentFrom_of_comments hInner]
          rfl
      | cons c rest =>
          have hTop := topDefinition_append order before more
            none (c :: rest)
          cases hFound :
              topDefinition order more none (c :: rest) with
          | error failure =>
              rw [hFound] at hTop
              rw [documentFrom_of_top_error hText (by simp) hTop,
                documentFrom_of_top_error hInner (by simp)
                  hFound]
              rfl
          | ok result =>
              rcases result with ⟨⟨first, after⟩, furthest⟩
              rw [hFound] at hTop
              rw [documentFrom_of_top hText hTop,
                documentFrom_of_top hInner hFound]
              cases documentFrom order furthest after with
              | error failure => rfl
              | ok result => rfl

-- Failures That Lie Behind

/- The failure is not further on than where the text starts. -/
def Behind
    (earlier : Option Failure)
    (text : Text) : Prop :=
  ∀ failure, earlier = some failure →
    text.length ≤ failure.rest.length

theorem behind_none
    (text : Text) :
    Behind none text := by
  intro failure hNone
  cases hNone

theorem Behind.mono
    {earlier : Option Failure}
    {text rest : Text}
    (h : Behind earlier text)
    (hLength : rest.length ≤ text.length) :
    Behind earlier rest :=
  fun failure hFailure =>
    Nat.le_trans hLength (h failure hFailure)

theorem Behind.further_eq
    {earlier : Option Failure}
    {text : Text}
    (h : Behind earlier text)
    {later : Failure}
    (hLater : later.rest.length ≤ text.length) :
    Failure.further earlier later = later := by
  cases earlier with
  | none => rfl
  | some failure =>
      have hLength := Nat.le_trans hLater (h failure rfl)
      exact if_pos hLength

theorem length_of_definition_error
    {order : Order}
    {kind : Kind}
    {text : Text}
    {failure : Failure}
    (h : definition order before kind text =
      .error failure) :
    failure.rest.length ≤ text.length := by
  rcases definition_completes h with
    hRest | ⟨front, _, _, hText, _⟩
  · rw [hRest]
    exact (skipSpace_suffix text).length_le
  · rw [hText, List.length_append]
    omega

/- A failure that lies behind gives way to any other. -/
theorem tryEach_behind
    {α κ : Type}
    {scan : κ → Scan α}
    {text : Text}
    (hScan : ∀ choice failure,
      scan choice text = .error failure →
        failure.rest.length ≤ text.length)
    {earlier : Option Failure}
    (h : Behind earlier text)
    (choices : List κ) :
    tryEach scan text choices earlier =
        tryEach scan text choices none ∨
      ∃ result,
        tryEach scan text choices earlier =
            ⟨result, earlier⟩ ∧
          tryEach scan text choices none =
            ⟨result, none⟩ := by
  cases choices with
  | nil => exact .inr ⟨none, rfl, rfl⟩
  | cons choice more =>
      simp only [tryEach]
      cases hChoice : scan choice text with
      | ok result => exact .inr ⟨some result, rfl, rfl⟩
      | error failure =>
          left
          have hLater := h.further_eq
            (hScan choice failure hChoice)
          simp only [hLater]
          rfl

theorem behind_of_cases
    {earlier furthest : Option Failure}
    {text rest : Text}
    (h : ∀ failure, furthest = some failure →
      earlier = some failure ∨ failure.rest = text)
    (hEarlier : Behind earlier rest)
    (hLength : rest.length ≤ text.length) :
    Behind furthest rest := by
  intro failure hFailure
  rcases h failure hFailure with hBefore | hHere
  · exact hEarlier failure hBefore
  · rw [hHere]
    exact hLength

section Behind

variable {order : Order} {earlier : Option Failure}
variable {text : Text}

theorem topDefinition_behind
    {failure : Failure}
    (h : Behind earlier text)
    (hFailed : topDefinition order before none text =
      .error failure) :
    topDefinition order before earlier text =
      .error failure := by
  have hEach (kind : Kind) (failure : Failure)
      (hKind : definition order before kind text =
        .error failure) :=
    length_of_definition_error hKind
  unfold topDefinition at *
  rcases tryEach_behind hEach h order.kinds with
    hSame | ⟨result, hEarlier, hNone⟩
  · rw [hSame]
    exact hFailed
  · rw [hNone] at hFailed
    rw [hEarlier]
    cases result with
    | some found => cases hFailed
    | none =>
        cases hFailed
        exact congrArg Except.error
          (h.further_eq (Nat.le_refl text.length))

/- What failed behind the text does not count. -/
theorem documentFrom_behind
    (h : Behind earlier text) :
    documentFrom order earlier text =
      documentFrom order none text := by
  -- each definition leaves less text for the others
  induction hn : text.length using Nat.strongRecOn
    generalizing text earlier with
  | ind n ih =>
      cases hComments : comments text with
      | error failure =>
          rcases comments_open hComments with
            ⟨front, _, hText, _⟩
          have hLength :
              failure.rest.length ≤ text.length := by
            rw [hText, List.length_append]
            omega
          rw [documentFrom_eq, documentFrom_eq order none,
            hComments]
          exact congrArg Except.error (h.further_eq hLength)
      | ok found =>
          rcases found with ⟨before, inner⟩
          have hInner :=
            (advances_comments _ _ _ hComments).length_le
          cases inner with
          | nil =>
              rw [documentFrom_of_comments hComments,
                documentFrom_of_comments hComments]
          | cons c rest =>
              cases hTop : topDefinition order before none
                  (c :: rest) with
              | error failure =>
                  have hSame := topDefinition_behind
                    (h.mono hInner) hTop
                  rw [documentFrom_of_top_error hComments
                      (by simp) hSame,
                    documentFrom_of_top_error hComments
                      (by simp) hTop]
              | ok result =>
                  rcases result with ⟨⟨first, after⟩, _⟩
                  have hAfter := (topDefinition_suffix hTop).2
                  rcases (cases_of_topDefinition hTop).1 with
                    ⟨kind, hKind, hFound⟩
                  have hRest (e : Option Failure)
                      (hBehind : Behind e text) :
                      documentFrom order e text =
                        (documentFrom order none after).map
                          (fun (document, left) =>
                            (document.cons first, left)) := by
                    rcases documentFrom_of_definition hKind
                      hComments hFound e with
                      ⟨furthest, hDocument, hFurthest⟩
                    have hStill : Behind furthest after := by
                      apply behind_of_cases hFurthest
                        (hBehind.mono (by omega))
                      omega
                    rw [hDocument,
                      ih after.length (by omega) hStill rfl]
                  rw [hRest earlier h,
                    hRest none (behind_none text)]

end Behind

-- Joined Sources

section Joined

variable {order : Order}

/- A word ends where a line does. -/
theorem replaces_newline
    (rest second : Text) :
    Replaces [.word] rest (rest ++ '\n' :: second) := by
  intro look hMem hLook
  rcases List.mem_singleton.mp hMem with rfl
  cases rest with
  | nil => exact Look.holds_word_iff.mpr rfl
  | cons c rest => exact hLook

/-
  After a document that was read, the next lines are read as
  a document of their own, which follows the first one.
-/
theorem documentFrom_followedBy
    {earlier : Option Failure}
    {text : Text}
    {document : Document}
    {left : Text}
    (h : documentFrom order earlier text =
      .ok (document, left))
    (second : Text) :
    documentFrom order none (text ++ '\n' :: second) =
      (documentFrom order none second).map
        fun (next, rest) => (document.followedBy next, rest) := by
  rcases document with ⟨body, trailing⟩
  induction body generalizing text earlier with
  | nil =>
      rcases comments_local (cases_of_documentFrom h).1 with
        ⟨_, used, hText, _, hReads⟩
      rw [List.append_nil] at hText
      have hLine : Replaces [.line] [] ('\n' :: second) := by
        simp [Replaces, Look.line, Look.Holds, Stops]
      have hJoined := hReads _ hLine
      rw [comments_congr (skipSpace_cons_space rfl second),
        ← hText] at hJoined
      exact documentFrom_withComments hJoined
  | cons found more ih =>
      rcases cases_of_documentFrom h with
        ⟨before, inner, after, furthest, hComments, hTop,
          hRest⟩
      rcases (cases_of_topDefinition hTop).1 with
        ⟨kind, hKind, hFound⟩
      rcases local_definition order before kind _ _ _ hFound
        with ⟨used, hInner, hUsed, hReads⟩
      rw [hInner] at hComments
      rcases comments_before_solid hComments hUsed with
        ⟨front, hText, hAgain⟩
      have hDefinition := hReads (after ++ '\n' :: second)
        (replaces_newline after second)
      rcases documentFrom_of_definition hKind (hAgain _)
        hDefinition none with
        ⟨reached, hDocument, hReached⟩
      have hStill : Behind reached
          (after ++ '\n' :: second) := by
        apply behind_of_cases hReached (behind_none _)
        exact (List.suffix_append used _).length_le
      have hJoined : text ++ '\n' :: second =
          front ++ (used ++ (after ++ '\n' :: second)) := by
        simp [hText]
      rw [hJoined, hDocument, documentFrom_behind hStill,
        ih hRest]
      cases documentFrom order none second with
      | error failure => rfl
      | ok result => rfl

end Joined

-- Joined Documents

/- Columns are counted from the last line feed. -/
theorem afterLast_append_mark
    (mark : Char)
    (before text : Text) :
    Text.afterLast mark (before ++ mark :: text) =
      Text.afterLast mark text := by
  have hMark : (mark :: before.reverse).takeWhile
      (· != mark) = [] := by
    simp
  unfold Text.afterLast
  rw [List.reverse_append, List.reverse_cons,
    List.append_assoc, List.singleton_append,
    List.takeWhile_append, hMark, List.append_nil]
  split
  · next hAll =>
      have hSame := (List.takeWhile_prefix _).eq_of_length hAll
      rw [hSame]
  · rfl

/- The error further down, after lines of another source. -/
def ParseError.below
    (error : ParseError)
    (lines : Nat) : ParseError :=
  { error with line := error.line + lines }

theorem Failure.consumed_append
    (failure : Failure)
    (front : Text) :
    failure.consumed (front ++ failure.rest) = front := by
  simp [Failure.consumed]

theorem Failure.report_joined
    (failure : Failure)
    (first front : Text)
    (file : Option Text) :
    failure.report
        (first ++ '\n' :: (front ++ failure.rest)) file =
      (failure.report (front ++ failure.rest) file).below
        (first.count '\n' + 1) := by
  have hJoined :
      failure.consumed
          (first ++ '\n' :: (front ++ failure.rest)) =
        first ++ '\n' :: front := by
    rw [← List.cons_append, ← List.append_assoc]
    exact failure.consumed_append _
  have hLines :
      ((first ++ '\n' :: front).count '\n' + 1 : Nat) =
        front.count '\n' + 1 + (first.count '\n' + 1) := by
    rw [List.count_append, List.count_cons_self]
    omega
  unfold Failure.report ParseError.below
  simp only [hJoined, Failure.consumed_append,
    afterLast_append_mark, hLines]
  simp

theorem Document.parse_eq
    (source : Text)
    (file : Option Text) :
    Document.parse source file =
      match documentFrom Order.usual none source with
      | .ok (document, _) => .ok document
      | .error failure =>
          .error ((failure.inside .document).report source
            file) := by
  unfold Document.parse Document.read Scan.labelled
  cases documentFrom Order.usual none source with
  | error failure => rfl
  | ok result => rfl

/-
  A source on the lines after an accepted one is accepted if
  it would be alone, and fails as it would alone. Comments
  at the end of the first document stand in front of the
  second one.
-/
theorem Document.parse_of_joined_sources
    (first second : Text)
    (file : Option Text)
    (before : Document)
    (h : Document.parse first file = .ok before) :
    Document.parse (first ++ '\n' :: second) file =
      match Document.parse second file with
      | .ok next => .ok (before.followedBy next)
      | .error error =>
          .error (error.below (first.count '\n' + 1)) := by
  rw [Document.parse_eq] at h
  split at h
  · next document left hFirst =>
      cases h
      have hJoined := documentFrom_followedBy hFirst second
      rw [Document.parse_eq, Document.parse_eq second, hJoined]
      cases hSecond : documentFrom Order.usual none second with
      | ok result => rfl
      | error failure =>
          rcases documentFrom_completes hSecond with
            hNone | ⟨front, _, hText, _⟩
          · cases hNone
          · subst hText
            exact congrArg Except.error
              ((failure.inside .document).report_joined first
                front file)
  · cases h

/- A namespace, and a comment at the end of the source. -/
def remarkedSource : Text :=
  "namespace a b\n// t".toList

def remarkedDocument : Document where
  body := [.nameSpace ⟨['a'], ['b'], []⟩]
  trailing := [.line ['t']]

theorem parse_remarkedSource :
    Document.parse remarkedSource none =
      .ok remarkedDocument := by
  have hStart : comments remarkedSource =
      .ok ([], remarkedSource) :=
    comments_of_clear ⟨rfl, by decide, by decide⟩
  have hTop : topDefinition Order.usual [] none
      remarkedSource =
        .ok ((.nameSpace ⟨['a'], ['b'], []⟩,
          "\n// t".toList), none) :=
    rfl
  have hEnd : comments "\n// t".toList =
      .ok ([.line ['t']], []) :=
    comments_cons rfl comments_end
  rw [Document.parse_eq, documentFrom_of_top hStart hTop,
    documentFrom_of_comments hEnd]
  rfl

theorem parse_included :
    Document.parse "include \"c\"".toList none =
      .ok ⟨[.inclusion ⟨['c'], []⟩], []⟩ := by
  have hStart : comments "include \"c\"".toList =
      .ok ([], "include \"c\"".toList) :=
    comments_of_clear ⟨rfl, by decide, by decide⟩
  have hTop : topDefinition Order.usual [] none
      "include \"c\"".toList =
        .ok ((.inclusion ⟨['c'], []⟩, []),
          some ⟨.noKeyword "namespace".toList,
            [.definition .nameSpace],
            "include \"c\"".toList⟩) :=
    rfl
  rw [Document.parse_eq, documentFrom_of_top hStart hTop,
    documentFrom_of_comments comments_end]
  rfl

theorem parse_unopenedStruct_alone :
    Document.parse unopenedStruct none =
      .error { unopenedError with line := 1 } := by
  rw [Document.parse_eq, documentFrom_unopenedStruct]
  rfl

theorem Document.parse_of_joined_remarks :
    Document.parse remarkedSource none =
        .ok remarkedDocument ∧
      Document.parse
          (remarkedSource ++ '\n' :: "include \"c\"".toList)
          none =
        .ok ⟨[.nameSpace ⟨['a'], ['b'], []⟩,
          .inclusion ⟨['c'], [.line ['t']]⟩], []⟩ ∧
      Document.parse
          (remarkedSource ++ '\n' :: unopenedStruct) none =
        .error { unopenedError with line := 3 } := by
  refine ⟨parse_remarkedSource, ?_, ?_⟩
  · rw [Document.parse_of_joined_sources remarkedSource _ none
      remarkedDocument parse_remarkedSource, parse_included]
    rfl
  · rw [Document.parse_of_joined_sources remarkedSource _ none
      remarkedDocument parse_remarkedSource,
      parse_unopenedStruct_alone]
    rfl

end Idl

end ThriftTypings
