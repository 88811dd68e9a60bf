import ThriftTypings.Proofs.Idl.Gaps

/-
  This file says how far a scan looks. What it reads depends
  on the part of the text that it takes, and on a few looks
  at what comes after: where a word ends, or whether a mark
  follows. A text that passes the same looks may stand in
  place of the rest.

  What a scan takes is solid if every look stays inside it.
  So only the last part of a sequence looks further.

  Key definitions include:
    * `Look` and `Replaces`
    * `Solid`

  Key theorems include:
    * `OpenedBy.local`
    * `local_idlType` and `local_typed`
-/

namespace ThriftTypings

namespace Idl

variable {belongs : Char → Bool}

-- Looks

/-
  The looks that a scan takes at the text after what it has
  read: at the next character, at the next one after white
  space, or for a comment on the same line.
-/
inductive Look where
  | next (belongs : Char → Bool)
  | sight (belongs : Char → Bool)
  | remark

namespace Look

/- A look holds of a text that lets the scan end here. -/
def Holds : Look → Text → Prop
  | .next belongs, text => Stops belongs text
  | .sight belongs, text => Stops belongs (skipSpace text)
  | .remark, text =>
      ¬ ['/', '/'] <+: text.dropWhile isLineSpace

/- A word goes on. -/
def word : Look :=
  .next fun c => !isDelimiter c

/- A number goes on. -/
def digit : Look :=
  .next Char.isDigit

/- A line goes on. -/
def line : Look :=
  .next (· != '\n')

/- White space goes on. -/
def blank : Look :=
  .next isSpace

/- A mark follows. -/
def mark
    (c : Char) : Look :=
  .sight (· == c)

/- The end of a text stops everything. -/
theorem holds_nil
    (look : Look) :
    look.Holds [] := by
  cases look with
  | next belongs => simp [Holds, Stops]
  | sight belongs => simp [Holds, Stops, skipSpace]
  | remark => simp [Holds]

theorem holds_word_iff
    {text : Text} :
    word.Holds text ↔ endsWord text = true :=
  stops_iff_endsWord

end Look

instance
    (belongs : Char → Bool)
    (text : Text) : Decidable (Stops belongs text) :=
  decidable_of_iff (text.head?.all (!belongs ·) = true)
    (by cases text <;> simp [Stops])

instance
    (look : Look)
    (text : Text) : Decidable (look.Holds text) :=
  match look with
  | .next belongs =>
      inferInstanceAs (Decidable (Stops belongs text))
  | .sight belongs =>
      inferInstanceAs
        (Decidable (Stops belongs (skipSpace text)))
  | .remark =>
      inferInstanceAs (Decidable
        (¬ ['/', '/'] <+: text.dropWhile isLineSpace))

/- All looks hold of the text. -/
def Passes
    (looks : List Look)
    (text : Text) : Prop :=
  ∀ look ∈ looks, look.Holds text

instance
    (looks : List Look)
    (text : Text) : Decidable (Passes looks text) :=
  List.decidableBAll _ looks

/- Looks that hold of the rest hold of the other text. -/
def Replaces
    (looks : List Look)
    (rest other : Text) : Prop :=
  ∀ look ∈ looks, look.Holds rest → look.Holds other

section Replaces

variable {looks more : List Look} {rest other : Text}

theorem replaces_nil :
    Replaces [] rest other := by
  intro look hMem
  exact absurd hMem (by simp)

theorem Replaces.mono
    (h : Replaces more rest other)
    (hLooks : looks ⊆ more) :
    Replaces looks rest other :=
  fun look hMem => h look (hLooks hMem)

/- A look at the next character stays behind any text. -/
theorem Replaces.next_append
    (h : Replaces [.next belongs] rest other)
    (used : Text) :
    Replaces [.next belongs] (used ++ rest)
      (used ++ other) := by
  cases used with
  | nil => exact h
  | cons c used =>
      intro look hMem hLook
      rcases List.mem_singleton.mp hMem with rfl
      exact hLook

end Replaces

-- Gaps

/- A text is a gap and what comes after white space. -/
theorem exists_gap
    (text : Text) :
    ∃ gap, IsGap gap ∧ text = gap ++ skipSpace text := by
  refine ⟨text.takeWhile isSpace, ?_, ?_⟩
  · intro c hMem
    exact List.mem_takeWhile_imp hMem
  · exact List.takeWhile_append_dropWhile.symm

theorem stops_append
    {used : Text}
    (h : used ≠ [])
    {rest : Text}
    (other : Text)
    (hStops : Stops belongs (used ++ rest)) :
    Stops belongs (used ++ other) := by
  cases used with
  | nil => exact absurd rfl h
  | cons c more => exact hStops

/- White space that ends the line hides its comment. -/
theorem holds_remark_cons_iff
    {c : Char}
    (h : isSpace c = true)
    {text : Text} :
    Look.remark.Holds (c :: text) ↔
      (isLineSpace c = true → Look.remark.Holds text) := by
  cases hLine : isLineSpace c with
  | true =>
      simp only [Look.Holds,
        List.dropWhile_cons_of_pos hLine, true_implies]
  | false =>
      have hSlash : '/' ≠ c := by
        intro hSame
        rw [← hSame] at h
        exact absurd h (by decide)
      simp [Look.Holds, hLine, List.cons_prefix_cons, hSlash]

/- After a gap, looks see what they would see after none. -/
theorem holds_gap
    {gap : Text}
    (hGap : IsGap gap)
    {rest other : Text}
    {look : Look}
    (hRest : look.Holds (gap ++ rest))
    (hOther : look.Holds other) :
    look.Holds (gap ++ other) := by
  cases look with
  | next belongs =>
      cases gap with
      | nil => exact hOther
      | cons c gap => exact hRest
  | sight belongs =>
      simpa only [Look.Holds, skipSpace_gap hGap] using hOther
  | remark =>
      induction gap with
      | nil => exact hOther
      | cons c gap ih =>
          rcases List.forall_mem_cons.mp hGap with
            ⟨hSpace, hMore⟩
          rw [List.cons_append, holds_remark_cons_iff hSpace]
            at *
          intro hLine
          exact ih hMore (hRest hLine)

theorem replaces_gap
    {looks : List Look}
    {gap other : Text}
    (hGap : IsGap gap)
    (hOther : Passes looks other)
    (rest : Text) :
    Replaces looks (gap ++ rest) (gap ++ other) :=
  fun look hMem hRest =>
    holds_gap hGap hRest (hOther look hMem)

-- Solid Texts

/-
  A text is solid if no look at its start reaches beyond it.
  It is not only white space, and a slash that comes first
  is not its last character.
-/
def Solid
    (text : Text) : Prop :=
  ∃ gap c more,
    text = gap ++ c :: more ∧ IsGap gap ∧
      isSpace c = false ∧ (c = '/' → more ≠ [])

namespace Solid

variable {text : Text}

theorem ne_nil
    (h : Solid text) :
    text ≠ [] := by
  rcases h with ⟨gap, c, more, hText, _⟩
  simp [hText]

theorem append
    (h : Solid text)
    (rest : Text) :
    Solid (text ++ rest) := by
  rcases h with ⟨gap, c, more, hText, hGap, hSpace, hSlash⟩
  refine ⟨gap, c, more ++ rest, ?_, hGap, hSpace, ?_⟩
  · simp [hText]
  · intro hSame
    simp [hSlash hSame]

theorem cons
    (h : Solid text)
    (c : Char) :
    Solid (c :: text) := by
  cases hSpace : isSpace c with
  | false =>
      exact ⟨[], c, text, rfl, by simp [IsGap], hSpace,
        fun _ => h.ne_nil⟩
  | true =>
      rcases h with ⟨gap, d, more, hText, hGap, hRest⟩
      refine ⟨c :: gap, d, more, ?_, ?_, hRest⟩
      · simp [hText]
      · exact List.forall_mem_cons.mpr ⟨hSpace, hGap⟩

theorem prepend
    (front : Text)
    (h : Solid text) :
    Solid (front ++ text) := by
  induction front with
  | nil => exact h
  | cons c front ih => exact ih.cons c

theorem of_cons
    {c : Char}
    (hSpace : isSpace c = false)
    (hSlash : c ≠ '/')
    (more : Text) :
    Solid (c :: more) :=
  ⟨[], c, more, rfl, by simp [IsGap], hSpace,
    fun hSame => absurd hSame hSlash⟩

theorem of_isWord
    {name : Text}
    (h : IsWord name) :
    Solid name := by
  rcases h.startsWord with ⟨c, more, rfl, hChar⟩
  apply of_cons (isSpace_of_not_isDelimiter hChar)
  intro hSlash
  rw [hSlash] at hChar
  exact absurd hChar (by decide)

theorem holds_remark
    (h : Solid text)
    {rest : Text}
    (other : Text)
    (hLook : Look.remark.Holds (text ++ rest)) :
    Look.remark.Holds (text ++ other) := by
  rcases h with ⟨gap, c, more, rfl, hGap, hSpace, hSlash⟩
  induction gap with
  | nil =>
      have hLine : isLineSpace c = false := by
        simp only [isSpace, Bool.or_eq_false_iff] at hSpace
        simp [isLineSpace, hSpace.1.1]
      cases more with
      | nil =>
          have hOther : '/' ≠ c :=
            fun hSame => hSlash hSame.symm rfl
          simp [Look.Holds, hLine, List.cons_prefix_cons,
            hOther]
      | cons d more =>
          simpa [Look.Holds, hLine, List.cons_prefix_cons]
            using hLook
  | cons d gap ih =>
      rcases List.forall_mem_cons.mp hGap with
        ⟨hFirst, hMore⟩
      simp only [List.cons_append,
        holds_remark_cons_iff hFirst] at hLook ⊢
      intro hLine
      exact ih (hLook hLine) hMore

/- What looks see of a solid text is in the text. -/
theorem holds
    (h : Solid text)
    {rest : Text}
    (other : Text)
    {look : Look}
    (hLook : look.Holds (text ++ rest)) :
    look.Holds (text ++ other) := by
  cases look with
  | next belongs => exact stops_append h.ne_nil other hLook
  | sight belongs =>
      rcases h with ⟨gap, c, more, rfl, hGap, hSpace, _⟩
      simpa only [Look.Holds, List.append_assoc,
        skipSpace_gap hGap, List.cons_append,
        skipSpace_cons hSpace, Stops, List.head?_cons]
        using hLook
  | remark => exact h.holds_remark other hLook

theorem replaces
    (h : Solid text)
    (looks : List Look)
    (rest other : Text) :
    Replaces looks (text ++ rest) (text ++ other) :=
  fun _ _ hLook => h.holds other hLook

end Solid

/- Nothing, or a solid text. -/
def Tidy
    (text : Text) : Prop :=
  text = [] ∨ Solid text

theorem Solid.append_tidy
    {text rest : Text}
    (h : Solid text)
    (_ : Tidy rest) :
    Solid (text ++ rest) :=
  h.append rest

theorem Tidy.append
    {text rest : Text}
    (h : Tidy text)
    (hRest : Tidy rest) :
    Tidy (text ++ rest) := by
  rcases h with rfl | hSolid
  · exact hRest
  · exact .inr (hSolid.append rest)

-- Local Scans

namespace Scan

variable {α β : Type}

/-
  What the scan reads from a text, it reads from the part
  that it takes, whatever passes the looks after that. The
  extent says what it takes.
-/
def LocalAt
    (looks : List Look)
    (extent : Text → Prop)
    (scan : Scan α)
    (text : Text) : Prop :=
  ∀ value rest, scan text = .ok (value, rest) →
    ∃ used, text = used ++ rest ∧ extent used ∧
      ∀ other, Replaces looks rest other →
        scan (used ++ other) = .ok (value, other)

def Local
    (looks : List Look)
    (extent : Text → Prop)
    (scan : Scan α) : Prop :=
  ∀ text, scan.LocalAt looks extent text

/- Sequences may be grouped in either way. -/
theorem bind_assoc
    {γ : Type}
    (first : Scan α)
    (next : α → Scan β)
    (last : β → Scan γ) :
    first >>= next >>= last =
      first >>= fun value => next value >>= last := by
  funext text
  simp only [bind_apply]
  cases first text with
  | error failure => rfl
  | ok result => rfl

theorem pure_bind
    (value : α)
    (next : α → Scan β) :
    pure value >>= next = next value :=
  rfl

section Bind

variable {looks first_ second_ : List Look}
variable {extent early late : Text → Prop}
variable {first : Scan α} {next : α → Scan β}

/-
  In a sequence the first part looks at what the second one
  takes, unless that is nothing.
-/
theorem LocalAt.bind
    {text : Text}
    (hFirst : first.LocalAt first_ early text)
    (hNext : ∀ value rest, first text = .ok (value, rest) →
      (next value).LocalAt second_ late rest)
    (hEarly : ∀ used, late used →
      Solid used ∨ used = [] ∧ first_ ⊆ looks)
    (hLate : second_ ⊆ looks)
    (hExtent : ∀ used more, early used → late more →
      extent (used ++ more)) :
    (first >>= next).LocalAt looks extent text := by
  intro value rest h
  rcases bind_eq_ok_iff.mp h with
    ⟨middle, between, hMiddle, hValue⟩
  rcases hFirst middle between hMiddle with
    ⟨used, hText, hUsed, hReads⟩
  rcases hNext middle between hMiddle value rest hValue with
    ⟨more, hBetween, hMore, hGoesOn⟩
  refine ⟨used ++ more, ?_, hExtent _ _ hUsed hMore, ?_⟩
  · rw [hText, hBetween, List.append_assoc]
  · intro other hOther
    have hSeen :
        Replaces first_ between (more ++ other) := by
      rcases hEarly more hMore with hSolid | ⟨rfl, hLooks⟩
      · rw [hBetween]
        exact hSolid.replaces first_ rest other
      · rw [hBetween]
        exact hOther.mono hLooks
    rw [List.append_assoc]
    exact bind_ok (hReads _ hSeen)
      (hGoesOn other (hOther.mono hLate))

/- After the first part comes something solid. -/
theorem LocalAt.bind_solid
    {text : Text}
    (hFirst : first.LocalAt first_ early text)
    (hNext : ∀ value rest, first text = .ok (value, rest) →
      (next value).LocalAt looks Solid rest) :
    (first >>= next).LocalAt looks Solid text := by
  apply hFirst.bind hNext
  · exact fun _ hSolid => .inl hSolid
  · exact List.Subset.refl looks
  · exact fun used _ _ hSolid => hSolid.prepend used

theorem Local.bind_solid
    (hFirst : first.Local first_ early)
    (hNext : ∀ value, (next value).Local looks Solid) :
    (first >>= next).Local looks Solid :=
  fun text => (hFirst text).bind_solid fun value rest _ =>
    hNext value rest

/- After the first part comes something, or nothing. -/
theorem Local.bind_tidy
    (hExtent : ∀ used more, extent used → Tidy more →
      extent (used ++ more))
    (hFirst : first.Local first_ extent)
    (hNext : ∀ value, (next value).Local second_ Tidy) :
    (first >>= next).Local (first_ ++ second_) extent := by
  intro text
  apply (hFirst text).bind (fun value rest _ =>
    hNext value rest)
  · rintro used (hNone | hSolid)
    · exact .inr ⟨hNone, List.subset_append_left _ _⟩
    · exact .inl hSolid
  · exact List.subset_append_right _ _
  · exact hExtent

end Bind

theorem local_pure
    (value : α) :
    (pure value : Scan α).Local [] Tidy := by
  intro text result rest h
  cases h
  exact ⟨[], rfl, .inl rfl, fun other _ => rfl⟩

theorem Local.mono
    {looks more : List Look}
    {extent : Text → Prop}
    {scan : Scan α}
    (h : scan.Local looks extent)
    (hLooks : looks ⊆ more) :
    scan.Local more extent := by
  intro text value rest hRead
  rcases h text value rest hRead with
    ⟨used, hText, hUsed, hReads⟩
  exact ⟨used, hText, hUsed, fun other hOther =>
    hReads other (hOther.mono hLooks)⟩

/- A value made of what was read changes nothing. -/
theorem Local.map
    {looks : List Look}
    {scan : Scan α}
    (h : scan.Local looks Solid)
    (make : α → β) :
    (scan >>= fun value => pure (make value)).Local
      looks Solid := by
  have hPure := h.bind_tidy (fun _ _ => Solid.append_tidy)
    fun value => local_pure (make value)
  rwa [List.append_nil] at hPure

theorem LocalAt.labelled
    {looks : List Look}
    {extent : Text → Prop}
    {scan : Scan α}
    {text : Text}
    (h : scan.LocalAt looks extent text)
    (label : Label) :
    (Scan.labelled label scan).LocalAt looks extent text := by
  intro value rest hValue
  rcases h value rest (labelled_eq_ok_iff.mp hValue) with
    ⟨used, hText, hUsed, hReads⟩
  exact ⟨used, hText, hUsed, fun other hOther =>
    labelled_eq_ok_iff.mpr (hReads other hOther)⟩

theorem Local.labelled
    {looks : List Look}
    {extent : Text → Prop}
    {scan : Scan α}
    (h : scan.Local looks extent)
    (label : Label) :
    (Scan.labelled label scan).Local looks extent :=
  fun text => (h text).labelled label

end Scan

-- Lexemes

/- What stands after white space is taken with it. -/
theorem exists_taken
    {text word rest : Text}
    (hText : skipSpace text = word ++ rest)
    (hWord : Solid word) :
    ∃ used, text = used ++ rest ∧ Solid used ∧
      ∀ other, skipSpace (used ++ other) = word ++ other := by
  rcases exists_gap text with ⟨gap, hGap, hSplit⟩
  rw [hText, ← List.append_assoc] at hSplit
  refine ⟨gap ++ word, hSplit, hWord.prepend gap, ?_⟩
  intro other
  rw [List.append_assoc, skipSpace_gap hGap]
  cases word with
  | nil => exact absurd rfl hWord.ne_nil
  | cons c more =>
      have hHead := stops_dropWhile isSpace text
      rw [← skipSpace, hText] at hHead
      exact skipSpace_cons (hHead c rfl) (more ++ other)

/- A mark follows, or a look finds that it does not. -/
theorem mark_cases
    (c : Char)
    (text : Text) :
    (∃ rest, skipSpace text = [c] ++ rest) ∨
      (Look.mark c).Holds text := by
  cases hText : skipSpace text with
  | nil =>
      right
      simp [Look.Holds, Look.mark, Stops, hText]
  | cons d rest =>
      by_cases hSame : d = c
      · left
        exact ⟨rest, by rw [hSame]; rfl⟩
      · right
        simpa [Look.Holds, Look.mark, Stops, hText] using hSame

/- A character that stands for itself. -/
def IsMark
    (c : Char) : Prop :=
  isSpace c = false ∧ c ≠ '/'

instance
    (c : Char) : Decidable (IsMark c) :=
  inferInstanceAs (Decidable (_ ∧ _))

theorem IsMark.solid
    {c : Char}
    (h : IsMark c) :
    Solid [c] :=
  Solid.of_cons h.1 h.2 []

theorem local_symbol
    {c : Char}
    (h : IsMark c) :
    (symbol c).Local [] Solid := by
  intro text value rest hRead
  rcases exists_taken (symbol_eq_ok_iff.mp hRead) h.solid with
    ⟨used, hText, hUsed, hTaken⟩
  refine ⟨used, hText, hUsed, fun other _ => ?_⟩
  exact symbol_eq_ok_iff.mpr (hTaken other)

theorem local_run
    (h : ∀ c, belongs c = true → isDelimiter c = false)
    (cause : Cause) :
    (run belongs cause).Local [.next belongs] Solid := by
  intro text word rest hRead
  rcases run_eq_ok_iff.mp hRead with ⟨hRun, hStops, hText⟩
  have hWord : IsWord word :=
    ⟨hRun.1, fun c hMem => h c (hRun.2 c hMem)⟩
  rcases exists_taken hText (.of_isWord hWord) with
    ⟨used, hSplit, hUsed, hTaken⟩
  refine ⟨used, hSplit, hUsed, fun other hOther => ?_⟩
  apply run_eq_ok_iff.mpr
  exact ⟨hRun, hOther _ List.mem_cons_self hStops,
    hTaken other⟩

theorem local_identifier :
    identifier.Local [.word] Solid :=
  local_run (by simp) _

theorem local_integer :
    integer.Local [.digit] Solid :=
  local_run (fun _ => isDelimiter_of_isDigit) _

theorem local_quoted :
    quoted.Local [] Solid := by
  intro text value rest hRead
  rcases quoted_eq_ok_iff.mp hRead with ⟨hValue, hText⟩
  refine ⟨value ++ ['"'], ?_, ?_, ?_⟩
  · simp [hText]
  · exact (IsMark.solid (by decide)).prepend value
  · intro other _
    apply quoted_eq_ok_iff.mpr
    exact ⟨hValue, by simp⟩

theorem local_stringLiteral :
    stringLiteral.Local [] Solid :=
  (local_symbol (by decide)).bind_solid
    fun _ => local_quoted

theorem local_keyword
    {word : Text}
    (h : IsWord word) :
    (keyword word).Local [.word] Solid := by
  intro text value rest hRead
  rcases keyword_eq_ok_iff.mp hRead with ⟨hText, hEnds⟩
  rcases exists_taken hText (.of_isWord h) with
    ⟨used, hSplit, hUsed, hTaken⟩
  refine ⟨used, hSplit, hUsed, fun other hOther => ?_⟩
  apply keyword_eq_ok_iff.mpr
  refine ⟨hTaken other, Look.holds_word_iff.mp ?_⟩
  exact hOther _ List.mem_cons_self
    (Look.holds_word_iff.mpr hEnds)

theorem skipSeparator_of_mark
    {text rest : Text}
    {c : Char}
    (hMark : c = ',' ∨ c = ';')
    (h : skipSpace text = [c] ++ rest) :
    skipSeparator text = rest := by
  unfold skipSeparator
  rcases hMark with rfl | rfl
  · simp only [h, List.singleton_append]
  · simp only [h, List.singleton_append]

theorem skipSeparator_of_none
    {text : Text}
    (hComma : (Look.mark ',').Holds text)
    (hSemicolon : (Look.mark ';').Holds text) :
    skipSeparator text = text := by
  unfold skipSeparator
  split
  · next hText =>
      exact absurd (hComma ',' (by simp [hText])) (by simp)
  · next hText =>
      exact absurd (hSemicolon ';' (by simp [hText])) (by simp)
  · rfl

theorem local_separator :
    separator.Local [.mark ',', .mark ';'] Tidy := by
  intro text value rest hRead
  have hRest : skipSeparator text = rest := by
    cases hRead
    rfl
  have hMarked (c : Char) (hMark : c = ',' ∨ c = ';')
      (hSelf : IsMark c)
      (hFound : ∃ more, skipSpace text = [c] ++ more) :
      ∃ used, text = used ++ rest ∧ Tidy used ∧
        ∀ other, Replaces [.mark ',', .mark ';'] rest other →
          separator (used ++ other) = .ok (value, other) := by
    rcases hFound with ⟨more, hMore⟩
    have hSame := skipSeparator_of_mark hMark hMore
    rcases exists_taken hMore hSelf.solid with
      ⟨used, hText, hUsed, hTaken⟩
    rw [← hRest, hSame]
    refine ⟨used, hText, .inr hUsed, fun other _ => ?_⟩
    rw [separator, Scan.passing,
      skipSeparator_of_mark hMark (hTaken other)]
  rcases mark_cases ',' text with hComma | hComma
  · exact hMarked ',' (.inl rfl) (by decide) hComma
  · rcases mark_cases ';' text with hSemicolon | hSemicolon
    · exact hMarked ';' (.inr rfl) (by decide) hSemicolon
    · rw [skipSeparator_of_none hComma hSemicolon] at hRest
      refine ⟨[], hRest, .inl rfl, fun other hOther => ?_⟩
      rw [List.nil_append, separator, Scan.passing,
        skipSeparator_of_none
          (hOther _ (by simp) (hRest ▸ hComma))
          (hOther _ (by simp) (hRest ▸ hSemicolon))]

section Optional

variable {α : Type} {c : Char}
variable {scan : Scan (Option α)} {inner : Scan α}

/-
  What a mark opens is looked for by the mark: without it
  there is nothing, and the text stays as it is.
-/
structure OpenedBy
    (c : Char)
    (inner : Scan α)
    (scan : Scan (Option α)) : Prop where
  opened : ∀ text rest, skipSpace text = [c] ++ rest →
    scan text = (inner >>= fun value => pure (some value)) rest
  missing : ∀ text, (Look.mark c).Holds text →
    scan text = .ok (none, text)

theorem OpenedBy.local
    (h : OpenedBy c inner scan)
    (hMark : IsMark c)
    {looks : List Look}
    (hInner : inner.Local looks Solid) :
    scan.Local (.mark c :: looks) Tidy := by
  intro text value rest hRead
  rcases mark_cases c text with ⟨more, hMore⟩ | hNone
  · rw [h.opened text more hMore] at hRead
    rcases exists_taken hMore hMark.solid with
      ⟨front, hText, hFront, hTaken⟩
    rcases hInner.map some more value rest hRead with
      ⟨used, hSplit, hUsed, hReads⟩
    refine ⟨front ++ used, ?_, .inr (hFront.append used), ?_⟩
    · rw [hText, hSplit, List.append_assoc]
    · intro other hOther
      rw [List.append_assoc,
        h.opened _ (used ++ other) (hTaken (used ++ other))]
      apply hReads
      exact hOther.mono (List.subset_cons_self _ _)
  · rw [h.missing text hNone] at hRead
    cases hRead
    refine ⟨[], rfl, .inl rfl, fun other hOther => ?_⟩
    exact h.missing other (hOther _ List.mem_cons_self hNone)

end Optional

-- Types

theorem localAt_composed
    {nested : Scan IdlType}
    {text : Text}
    (hAdvances : nested.Advances)
    (h : ∀ inner : Text, inner.length ≤ text.length →
      nested.LocalAt [.word, .mark '<'] Solid inner)
    (generic : Generic) :
    (composed nested generic).LocalAt [] Solid text := by
  have hClose (type : IdlType) :
      (symbol '>' >>= fun _ => pure type).Local [] Solid :=
    (local_symbol (by decide)).map fun _ => type
  cases generic with
  | list =>
      apply (h text (Nat.le_refl _)).bind_solid
      intro element rest _
      exact hClose (.list element) rest
  | map =>
      apply (h text (Nat.le_refl _)).bind_solid
      intro key afterKey hKey
      apply Scan.LocalAt.bind_solid
        (local_symbol (by decide) afterKey)
      intro _ afterComma hComma
      have hKeyLength := (hAdvances _ _ _ hKey).length_le
      have hCommaLength := (consumes_symbol _ _ _ _ hComma).2
      apply (h afterComma (by omega)).bind_solid
      intro value rest _
      exact hClose (.map key value) rest

/- Two texts that start with the same word. -/
def SameWord
    (text other : Text) : Prop :=
  ∃ name rest left,
    identifier text = .ok (name, rest) ∧
      identifier other = .ok (name, left)

/- A keyword is read by the first word of a text. -/
theorem SameWord.firstKeyword?_eq_none
    {text other : Text}
    (h : SameWord text other)
    {α : Type}
    {word : α → Text}
    (hWords : ∀ choice, IsWord (word choice))
    {choices : List α}
    (hNone : firstKeyword? word choices text = none) :
    firstKeyword? word choices other = none := by
  rcases h with ⟨name, rest, left, hText, hOther⟩
  rcases identifier_eq_ok_iff.mp hOther with
    ⟨hName, hEnds, hLeft⟩
  apply firstKeyword?_eq_none_iff.mpr
  intro choice hMem
  have hDiffers := ne_of_keyword?_eq_none hText
    (firstKeyword?_eq_none_iff.mp hNone choice hMem)
  exact keyword?_eq_none (hWords choice).2 hName.2 hLeft hEnds
    hDiffers

section Types

variable {order : Order} {text rest : Text} {type : IdlType}

/-
  A type is read from what it takes, and whatever follows
  it, the text starts with the same word.
-/
def StaysType
    (order : Order)
    (text : Text)
    (type : IdlType)
    (rest : Text) : Prop :=
  ∃ used, text = used ++ rest ∧ Solid used ∧
    ∀ other, Replaces [.word, .mark '<'] rest other →
      idlType order (used ++ other) = .ok (type, other) ∧
        SameWord text (used ++ other)

theorem Replaces.endsWord
    {looks : List Look}
    {other : Text}
    (h : Replaces (.word :: looks) rest other)
    (hRest : endsWord rest = true) :
    endsWord other = true :=
  Look.holds_word_iff.mp (h _ List.mem_cons_self
    (Look.holds_word_iff.mpr hRest))

theorem staysType_of_primitive
    {primitive : Primitive}
    (h : firstKeyword? Primitive.word order.primitives text =
      some (primitive, rest)) :
    StaysType order text (.primitive primitive) rest := by
  rcases spelled_of_firstKeyword? h with ⟨hMem, hText, hRest⟩
  have hWord := primitive.isWord_word
  rcases exists_taken hText (.of_isWord hWord) with
    ⟨used, hSplit, hUsed, hTaken⟩
  refine ⟨used, hSplit, hUsed, fun other hOther => ?_⟩
  have hEnds := hOther.endsWord hRest
  constructor
  · apply idlType_eq_ok_iff.mpr
    left
    refine ⟨primitive, ?_, rfl⟩
    exact firstKeyword?_eq_some
      (fun choice => choice.isWord_word.2)
      Primitive.word_injective hMem (hTaken other) hEnds
  · refine ⟨primitive.word, rest, other, ?_, ?_⟩
    · exact identifier_eq_ok_iff.mpr ⟨hWord, hRest, hText⟩
    · exact identifier_eq_ok_iff.mpr
        ⟨hWord, hEnds, hTaken other⟩

/- A composed type opens there whatever is inside it. -/
theorem exists_opening
    (hNone : firstKeyword? Primitive.word order.primitives
      text = none)
    {generic : Generic}
    {inner : Text}
    (h : firstGeneric? order.generics text =
      some (generic, inner)) :
    ∃ opening, text = opening ++ inner ∧ Solid opening ∧
      ∀ other, SameWord text (opening ++ other) ∧
        ∀ type left,
          composed (idlType order) generic other =
              .ok (type, left) →
            idlType order (opening ++ other) =
              .ok (type, left) := by
  rcases spelled_of_firstGeneric? h with
    ⟨hMem, after, hText, hOpen⟩
  have hWord := generic.isWord_word
  rcases exists_taken hText (.of_isWord hWord) with
    ⟨front, hSplit, hFront, hTaken⟩
  rcases exists_taken
    (show skipSpace after = ['<'] ++ inner from hOpen)
    (IsMark.solid (by decide)) with
    ⟨bracket, hAfter, _, hBracketed⟩
  refine ⟨front ++ bracket, ?_, hFront.append bracket, ?_⟩
  · rw [hSplit, hAfter, List.append_assoc]
  · intro other
    have hWhole := hTaken (bracket ++ other)
    have hBehind := hBracketed other
    rw [List.append_assoc]
    have hSame : SameWord text (front ++ (bracket ++ other)) := by
      refine ⟨generic.word, after, bracket ++ other, ?_, ?_⟩
      · exact identifier_eq_ok_iff.mpr ⟨hWord,
          endsWord_of_skipSpace hOpen (by decide), hText⟩
      · exact identifier_eq_ok_iff.mpr ⟨hWord,
          endsWord_of_skipSpace hBehind (by decide), hWhole⟩
    refine ⟨hSame, fun type left hInner => ?_⟩
    apply idlType_eq_ok_iff.mpr
    right
    refine ⟨hSame.firstKeyword?_eq_none
      Primitive.isWord_word hNone, .inl ?_⟩
    exact ⟨generic, other,
      firstGeneric?_eq_some hMem hWhole hBehind, hInner⟩

theorem staysType_of_composed
    (hNone : firstKeyword? Primitive.word order.primitives
      text = none)
    {generic : Generic}
    {inner : Text}
    (hFound : firstGeneric? order.generics text =
      some (generic, inner))
    (hInner : composed (idlType order) generic inner =
      .ok (type, rest))
    (hLocal : (composed (idlType order) generic).LocalAt
      [] Solid inner) :
    StaysType order text type rest := by
  rcases exists_opening hNone hFound with
    ⟨opening, hText, hOpening, hOpens⟩
  rcases hLocal type rest hInner with
    ⟨used, hUsed, _, hReads⟩
  refine ⟨opening ++ used, ?_, hOpening.append used, ?_⟩
  · rw [hText, hUsed, List.append_assoc]
  · intro other _
    rcases hOpens (used ++ other) with ⟨hSame, hType⟩
    rw [List.append_assoc]
    exact ⟨hType type other (hReads other replaces_nil), hSame⟩

theorem staysType_of_name
    (hNone : firstKeyword? Primitive.word order.primitives
      text = none)
    (hOpen : firstGeneric? order.generics text = none)
    {name : Text}
    (hName : identifier text = .ok (name, rest)) :
    StaysType order text (.named name) rest := by
  rcases identifier_eq_ok_iff.mp hName with
    ⟨hWord, hRest, hText⟩
  rcases exists_taken hText (.of_isWord hWord) with
    ⟨used, hSplit, hUsed, hTaken⟩
  refine ⟨used, hSplit, hUsed, fun other hOther => ?_⟩
  have hEnds := hOther.endsWord hRest
  have hAgain : identifier (used ++ other) = .ok (name, other) :=
    identifier_eq_ok_iff.mpr ⟨hWord, hEnds, hTaken other⟩
  have hSame : SameWord text (used ++ other) :=
    ⟨name, rest, other, hName, hAgain⟩
  refine ⟨?_, hSame⟩
  apply idlType_eq_ok_iff.mpr
  right
  refine ⟨hSame.firstKeyword?_eq_none
    Primitive.isWord_word hNone, .inr ⟨?_, name, hAgain, rfl⟩⟩
  -- a bracket after the name would have been there before
  apply firstGeneric?_eq_none_iff.mpr
  intro generic hMem
  cases hGeneric : generic? generic (used ++ other) with
  | none => rfl
  | some inner =>
      rcases generic?_eq_some_iff.mp hGeneric with
        ⟨after, hAfter, hBracket⟩
      have hStops := endsWord_of_skipSpace hBracket (by decide)
      rw [hTaken other] at hAfter
      rcases word_unique hWord.2 generic.isWord_word.2 hEnds
        hStops hAfter with ⟨hSameName, hSameRest⟩
      rcases mark_cases '<' rest with ⟨more, hMore⟩ | hClear
      · have hBefore : generic? generic text = some more :=
          generic?_eq_some_iff.mpr
            ⟨rest, hSameName ▸ hText, hMore⟩
        rw [firstGeneric?_eq_none_iff.mp hOpen generic hMem]
          at hBefore
        cases hBefore
      · have hStill : (Look.mark '<').Holds other :=
          hOther _ (by simp) hClear
        rw [hSameRest] at hStill
        exact absurd (hStill '<' (by simp [hBracket]))
          (by simp)

theorem staysType_of_idlType
    (hRead : idlType order text = .ok (type, rest)) :
    StaysType order text type rest := by
  -- the types inside are read from shorter texts
  induction hn : text.length using Nat.strongRecOn
    generalizing text type rest with
  | ind n ih =>
      rcases idlType_eq_ok_iff.mp hRead with
        ⟨primitive, hFound, rfl⟩ | ⟨hNone, hComposed | hNamed⟩
      · exact staysType_of_primitive hFound
      · rcases hComposed with ⟨generic, inner, hFound, hInner⟩
        have hShorter := (firstGeneric?_suffix hFound).2
        apply staysType_of_composed hNone hFound hInner
        apply localAt_composed (consumes_idlType order).advances
        intro shorter hLength value left hValue
        rcases ih shorter.length (by omega) hValue rfl with
          ⟨used, hText, hUsed, hReads⟩
        exact ⟨used, hText, hUsed, fun other hOther =>
          (hReads other hOther).1⟩
      · rcases hNamed with ⟨hOpen, name, hName, rfl⟩
        exact staysType_of_name hNone hOpen hName

theorem local_idlType
    (order : Order) :
    (idlType order).Local [.word, .mark '<'] Solid := by
  intro text type rest hRead
  rcases staysType_of_idlType hRead with
    ⟨used, hText, hUsed, hReads⟩
  exact ⟨used, hText, hUsed, fun other hOther =>
    (hReads other hOther).1⟩

/- Reads a requiredness, if there is one, and a type. -/
def typed
    (order : Order) :
    Scan (Option Requiredness × IdlType) := do
  let requiredness ← requiredness? order
  let type ← idlType order
  pure (requiredness, type)

theorem requiredness?_local
    {found : Requiredness}
    (h : requiredness? order text = .ok (some found, rest)) :
    endsWord rest = true ∧
      ∃ used, text = used ++ rest ∧ Solid used ∧
        ∀ other, endsWord other = true →
          requiredness? order (used ++ other) =
            .ok (some found, other) := by
  unfold requiredness? at h
  split at h
  · next hFound =>
      cases h
      rcases spelled_of_firstKeyword? hFound with
        ⟨hMem, hText, hEnds⟩
      rcases exists_taken hText
        (.of_isWord found.isWord_word) with
        ⟨used, hSplit, hUsed, hTaken⟩
      refine ⟨hEnds, used, hSplit, hUsed,
        fun other hOther => ?_⟩
      have hAgain := firstKeyword?_eq_some
        (fun choice => choice.isWord_word.2)
        Requiredness.word_injective hMem (hTaken other) hOther
      rw [requiredness?, hAgain]
  · cases h

/-
  A requiredness that was not there does not come up with
  another text after the type.
-/
theorem local_typed
    (order : Order) :
    (typed order).Local [.word, .mark '<'] Solid := by
  intro text value rest hRead
  rcases Scan.bind_eq_ok_iff.mp hRead with
    ⟨requiredness, after, hRequired, hTyped⟩
  rcases Scan.bind_eq_ok_iff.mp hTyped with
    ⟨type, _, hType, hPure⟩
  cases hPure
  rcases staysType_of_idlType hType with
    ⟨used, hAfter, hUsed, hReads⟩
  cases requiredness with
  | some found =>
      rcases requiredness?_local hRequired with
        ⟨hEnds, front, hSplit, hFront, hFound⟩
      refine ⟨front ++ used, ?_, hFront.append used, ?_⟩
      · rw [hSplit, hAfter, List.append_assoc]
      · intro other hOther
        have hStops : endsWord (used ++ other) = true := by
          rw [hAfter, ← Look.holds_word_iff] at hEnds
          exact Look.holds_word_iff.mp
            (hUsed.holds other hEnds)
        rw [List.append_assoc]
        apply Scan.bind_ok (hFound _ hStops)
        exact Scan.bind_ok (hReads other hOther).1 rfl
  | none =>
      rcases requiredness?_eq_none_iff.mp hRequired with
        ⟨hNone, rfl⟩
      refine ⟨used, hAfter, hUsed, fun other hOther => ?_⟩
      rcases hReads other hOther with ⟨hAgain, hSame⟩
      have hStill := hSame.firstKeyword?_eq_none
        Requiredness.isWord_word hNone
      apply Scan.bind_ok
        (requiredness?_eq_none_iff.mpr ⟨hStill, rfl⟩)
      exact Scan.bind_ok hAgain rfl

end Types

end Idl

end ThriftTypings
