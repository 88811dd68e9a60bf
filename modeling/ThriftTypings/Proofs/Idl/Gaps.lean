import ThriftTypings.Proofs.Idl.RoundTrip
import ThriftTypings.Proofs.Idl.Tokens

/-
  This file defines the texts that tokens are spelled with,
  whatever the white space between them, and proves that
  single tokens are read from such texts.

  There is no lexer. Each scan finds by itself where a token
  starts and where it ends, and what ends a word differs. So
  each lemma says which tokens may follow what is read.

  Key definitions include:
    * `IsGap` and `Spells`
    * `Follows`

  Key theorems include:
    * `ReadsAs.bind`
    * `readsAs_identifier`
-/

namespace ThriftTypings

namespace Idl

variable {number : Text}

-- Spaced Tokens

/- White space, maybe none. -/
def IsGap
    (gap : Text) : Prop :=
  ∀ c ∈ gap, isSpace c = true

instance (gap : Text) : Decidable (IsGap gap) :=
  List.decidableBAll _ gap

/-
  The texts of tokens, with gaps before, between and after
  them, given whether a word comes before. Between two words
  the gap is not empty. In a slot there is nothing, or one
  separator after a gap.
-/
inductive Spells : Bool → List Token → Text → Prop where
  | ends
      {after : Bool} {gap : Text}
      (gapped : IsGap gap) :
      Spells after [] gap
  | word
      {after : Bool} {word gap rest : Text}
      {tokens : List Token}
      (gapped : IsGap gap)
      (apart : after = true → gap ≠ [])
      (more : Spells true tokens rest) :
      Spells after (.word word :: tokens)
        (gap ++ (word ++ rest))
  | mark
      {after : Bool} {c : Char} {gap rest : Text}
      {tokens : List Token}
      (gapped : IsGap gap)
      (more : Spells false tokens rest) :
      Spells after (.mark c :: tokens) (gap ++ c :: rest)
  | literal
      {after : Bool} {value gap rest : Text}
      {tokens : List Token}
      (gapped : IsGap gap)
      (more : Spells false tokens rest) :
      Spells after (.literal value :: tokens)
        (gap ++ (inQuotes value ++ rest))
  | skips
      {after : Bool} {text : Text}
      {tokens : List Token}
      (more : Spells after tokens text) :
      Spells after (.slot :: tokens) text
  | fills
      {after : Bool} {gap rest : Text}
      {tokens : List Token}
      (separator : Separator)
      (gapped : IsGap gap)
      (more : Spells false tokens rest) :
      Spells after (.slot :: tokens)
        (gap ++ separator.mark :: rest)

theorem skipSpace_gap
    {gap : Text}
    (h : IsGap gap)
    (rest : Text) :
    skipSpace (gap ++ rest) = skipSpace rest := by
  induction gap with
  | nil => rfl
  | cons c more ih =>
      rcases List.forall_mem_cons.mp h with ⟨hFirst, hMore⟩
      rw [List.cons_append, skipSpace_cons_space hFirst]
      exact ih hMore

section First

variable {after : Bool} {text : Text} {tokens : List Token}

/- A word stands there after a gap. -/
theorem Spells.of_word
    {word : Text}
    (hWord : IsWord word)
    (h : Spells after (.word word :: tokens) text) :
    ∃ rest, skipSpace text = word ++ rest ∧
      Spells true tokens rest := by
  cases h with
  | @word _ _ gap rest _ hGap _ hMore =>
      refine ⟨rest, ?_, hMore⟩
      rw [skipSpace_gap hGap]
      exact (hWord.startsWord.append rest).skipSpace_eq

theorem Spells.of_mark
    {c : Char}
    (hMark : isSpace c = false)
    (h : Spells after (.mark c :: tokens) text) :
    ∃ rest, skipSpace text = c :: rest ∧
      Spells false tokens rest := by
  cases h with
  | @mark _ _ gap rest _ hGap hMore =>
      refine ⟨rest, ?_, hMore⟩
      rw [skipSpace_gap hGap, skipSpace_cons hMark]

theorem Spells.of_literal
    {value : Text}
    (h : Spells after (.literal value :: tokens) text) :
    ∃ rest, skipSpace text = inQuotes value ++ rest ∧
      Spells false tokens rest := by
  cases h with
  | @literal _ _ gap rest _ hGap hMore =>
      refine ⟨rest, ?_, hMore⟩
      rw [skipSpace_gap hGap]
      exact skipSpace_cons (by decide) _

theorem Spells.of_slot
    (h : Spells after (.slot :: tokens) text) :
    Spells after tokens text ∨
      ∃ separator : Separator, ∃ rest,
        skipSpace text = separator.mark :: rest ∧
          Spells false tokens rest := by
  cases h with
  | skips hMore => exact .inl hMore
  | @fills _ gap rest _ separator hGap hMore =>
      refine .inr ⟨separator, rest, ?_, hMore⟩
      rw [skipSpace_gap hGap]
      cases separator <;> exact skipSpace_cons (by decide) _

end First

-- What Follows

/-
  May the tokens follow a word, and does their text start
  with no mark of a class?
-/
def Follows
    (bars : Char → Bool) : List Token → Prop
  | [] => True
  | .word word :: _ => IsWord word
  | .mark c :: _ =>
      isDelimiter c = true ∧ isSpace c = false ∧
        bars c = false
  | .literal _ :: _ => bars '"' = false
  | .slot :: more =>
      (∀ separator : Separator,
        bars separator.mark = false) ∧
        Follows bars more

/- May the tokens follow a word, whatever it is? -/
def FollowsWord
    (tokens : List Token) : Prop :=
  Follows (fun _ => false) tokens

section Follows

variable {bars : Char → Bool} {tokens : List Token}
variable {after : Bool} {text : Text}

theorem Follows.mono
    {fewer : Char → Bool}
    (hFewer : ∀ c, fewer c = true → bars c = true)
    (h : Follows bars tokens) :
    Follows fewer tokens := by
  have hFree (c : Char) (hBars : bars c = false) :
      fewer c = false := by
    cases hCase : fewer c with
    | false => rfl
    | true =>
        rw [hFewer c hCase] at hBars
        cases hBars
  induction tokens with
  | nil => trivial
  | cons first more ih =>
      cases first with
      | word word => exact h
      | mark c => exact ⟨h.1, h.2.1, hFree c h.2.2⟩
      | literal value => exact hFree _ h
      | slot =>
          exact ⟨fun separator => hFree _ (h.1 separator),
            ih h.2⟩

theorem Follows.word
    (h : Follows bars tokens) :
    FollowsWord tokens := by
  apply h.mono
  intro c hNone
  cases hNone

theorem endsWord_of_gap
    {gap : Text}
    (h : IsGap gap)
    {rest : Text}
    (hRest : gap ≠ [] ∨ endsWord rest = true) :
    endsWord (gap ++ rest) = true := by
  cases gap with
  | nil => exact hRest.resolve_left (fun hGap => hGap rfl)
  | cons c more =>
      exact isDelimiter_of_isSpace (h c (by simp))

/- A word ends where such tokens follow. -/
theorem Spells.endsWord
    (h : Spells after tokens text)
    (hAfter : after = true)
    (hFollows : FollowsWord tokens) :
    endsWord text = true := by
  induction h with
  | @ends _ gap hGap =>
      rw [← List.append_nil gap]
      exact endsWord_of_gap hGap (.inr rfl)
  | word hGap hApart _ _ =>
      exact endsWord_of_gap hGap (.inl (hApart hAfter))
  | mark hGap _ _ =>
      exact endsWord_of_gap hGap (.inr hFollows.1)
  | literal hGap _ _ =>
      exact endsWord_of_gap hGap (.inr rfl)
  | skips _ ih => exact ih hAfter hFollows.2
  | fills separator hGap _ _ =>
      apply endsWord_of_gap hGap
      cases separator <;> exact .inr rfl

/- What they start with is not of the class. -/
theorem Spells.stops
    (hBars : ∀ c, bars c = true → isDelimiter c = true)
    (h : Spells after tokens text)
    (hFollows : Follows bars tokens) :
    Stops bars (skipSpace text) := by
  induction h with
  | @ends _ gap hGap =>
      rw [← List.append_nil gap, skipSpace_gap hGap]
      intro c hHead
      cases hHead
  | word hGap _ _ _ =>
      rw [skipSpace_gap hGap]
      exact (hFollows.startsWord.append _).stops hBars
  | mark hGap _ _ =>
      rw [skipSpace_gap hGap, skipSpace_cons hFollows.2.1]
      intro c hHead
      cases hHead
      exact hFollows.2.2
  | literal hGap _ _ =>
      rw [skipSpace_gap hGap]
      intro c hHead
      cases hHead
      exact hFollows
  | skips _ ih => exact ih hFollows.2
  | fills separator hGap _ _ =>
      rw [skipSpace_gap hGap]
      have hSpace : isSpace separator.mark = false := by
        cases separator <;> decide
      rw [skipSpace_cons hSpace]
      intro c hHead
      cases hHead
      exact hFollows.1 separator

/- The white space in front of them may be passed over. -/
theorem Spells.skipSpace
    (h : Spells after tokens text)
    (hFollows : Follows bars tokens) :
    Spells false tokens (skipSpace text) := by
  have hNone : IsGap [] := by
    intro c hMem
    cases hMem
  induction h with
  | @ends _ gap hGap =>
      rw [← List.append_nil gap, skipSpace_gap hGap]
      exact .ends hNone
  | word hGap _ hMore _ =>
      rw [skipSpace_gap hGap,
        (hFollows.startsWord.append _).skipSpace_eq]
      exact .word hNone (fun hAfter => by cases hAfter) hMore
  | mark hGap hMore _ =>
      rw [skipSpace_gap hGap, skipSpace_cons hFollows.2.1]
      exact .mark hNone hMore
  | literal hGap hMore _ =>
      rw [skipSpace_gap hGap]
      exact .literal hNone hMore
  | skips _ ih => exact .skips (ih hFollows.2)
  | fills separator hGap hMore _ =>
      rw [skipSpace_gap hGap]
      have hSpace : isSpace separator.mark = false := by
        cases separator <;> decide
      rw [skipSpace_cons hSpace]
      exact .fills separator hNone hMore

end Follows

-- Scans of Tokens

/-
  A scan reads a value from its tokens and leaves what comes
  after them, if that is something that may follow.
-/
def ReadsAs
    {α : Type}
    (scan : Scan α)
    (value : α)
    (tokens : List Token)
    (follow : List Token → Prop) : Prop :=
  ∀ after more text,
    follow more →
    Spells after (tokens ++ more) text →
      ∃ word rest,
        scan text = .ok (value, rest) ∧
          Spells word more rest

namespace ReadsAs

variable {α β : Type} {value : α} {result : β}
variable {first : Scan α} {next : α → Scan β}
variable {tokens others : List Token}
variable {follow further : List Token → Prop}

theorem pure
    (value : α)
    (follow : List Token → Prop) :
    ReadsAs (Pure.pure value) value [] follow := by
  intro after more text _ hText
  exact ⟨after, text, rfl, hText⟩

/- One scan after the other reads tokens after tokens. -/
theorem bind
    (hFirst : ReadsAs first value tokens follow)
    (hNext : ReadsAs (next value) result others further)
    (hFollow : ∀ more, further more →
      follow (others ++ more)) :
    ReadsAs (first >>= next) result (tokens ++ others)
      further := by
  intro after more text hMore hText
  rw [List.append_assoc] at hText
  rcases hFirst after _ text (hFollow more hMore) hText with
    ⟨word, rest, hRead, hRest⟩
  rcases hNext word more rest hMore hRest with
    ⟨last, left, hLast, hLeft⟩
  exact ⟨last, left, Scan.bind_ok hRead hLast, hLeft⟩

theorem labelled
    (h : ReadsAs first value tokens follow)
    (label : Label) :
    ReadsAs (Scan.labelled label first) value tokens
      follow := by
  intro after more text hMore hText
  rcases h after more text hMore hText with
    ⟨word, rest, hRead, hRest⟩
  exact ⟨word, rest, Scan.labelled_eq_ok_iff.mpr hRead, hRest⟩

end ReadsAs

theorem readsAs_symbol
    {c : Char}
    (h : isSpace c = false) :
    ReadsAs (symbol c) () [.mark c] (fun _ => True) := by
  intro after more text _ hText
  rcases hText.of_mark h with ⟨rest, hMark, hRest⟩
  exact ⟨false, rest, symbol_eq_ok_iff.mpr hMark, hRest⟩

theorem readsAs_identifier
    {name : Text}
    (h : IsWord name) :
    ReadsAs identifier name [.word name] FollowsWord := by
  intro after more text hMore hText
  rcases hText.of_word h with ⟨rest, hName, hRest⟩
  refine ⟨true, rest, identifier_eq_ok_iff.mpr ?_, hRest⟩
  exact ⟨h, hRest.endsWord rfl hMore, hName⟩

theorem IsDigits.isWord
    (h : IsDigits number) :
    IsWord number :=
  ⟨h.1, fun c hMem => isDelimiter_of_isDigit (h.2 c hMem)⟩

theorem readsAs_integer
    (h : IsDigits number) :
    ReadsAs integer number [.word number] FollowsWord := by
  intro after more text hMore hText
  rcases hText.of_word h.isWord with ⟨rest, hNumber, hRest⟩
  refine ⟨true, rest, integer_text h hNumber ?_, hRest⟩
  exact stops_isDigit_of_endsWord (hRest.endsWord rfl hMore)

/- A colon ends a number, but no other word. -/
theorem readsAs_id
    (h : IsDigits number) :
    ReadsAs integer number [.word number]
      (fun more => ∃ others, more = .mark ':' :: others) := by
  intro after more text hMore hText
  rcases hMore with ⟨others, hOthers⟩
  rcases hText.of_word h.isWord with ⟨rest, hNumber, hRest⟩
  refine ⟨true, rest, integer_text h hNumber ?_, hRest⟩
  rw [hOthers] at hRest
  cases hRest with
  | @mark _ _ gap _ _ hGap _ =>
      cases gap with
      | nil =>
          intro c hHead
          cases hHead
          rfl
      | cons c others =>
          apply stops_isDigit_of_endsWord
          exact isDelimiter_of_isSpace (hGap c (by simp))

theorem readsAs_stringLiteral
    {value : Text}
    (h : '"' ∉ value) :
    ReadsAs stringLiteral value [.literal value]
      (fun _ => True) := by
  intro after more text _ hText
  rcases hText.of_literal with ⟨rest, hValue, hRest⟩
  exact ⟨false, rest, stringLiteral_text h hValue, hRest⟩

end Idl

end ThriftTypings
