import Mathlib.Data.List.DropRight
import Mathlib.Data.List.TakeWhile
import ThriftTypings.Text.Blank

/-
  This file proves that cutting a text at a separator and
  joining parts with it undo one another, what the cut at
  the last occurrence of a character gives, and what is left
  of a text without the blanks at its ends.

  Key theorems include:
    * `Text.throughLast_joined` and `Text.afterLast_joined`
    * `Text.strip_strip`
-/

namespace ThriftTypings

namespace Text

variable {separator : Char} {mark : Char} {text : Text}
variable {last : Text}

-- Pieces

/- There is always a first piece. -/
theorem exists_pieces
    (separator : Char)
    (text : Text) :
    ∃ first more, pieces separator text = first :: more := by
  cases text with
  | nil => exact ⟨[], [], rfl⟩
  | cons c rest =>
      simp only [pieces]
      split
      · exact ⟨_, _, rfl⟩
      · split <;> exact ⟨_, _, rfl⟩

theorem pieces_cons
    {separator c : Char}
    {rest first : Text}
    {more : List Text}
    (h : pieces separator rest = first :: more) :
    pieces separator (c :: rest) =
      if c = separator then [] :: first :: more
      else (c :: first) :: more := by
  simp only [pieces, h]

/- No piece holds the separator. -/
theorem not_mem_of_mem_pieces
    {text piece : Text}
    (h : piece ∈ pieces separator text) :
    separator ∉ piece := by
  induction text generalizing piece with
  | nil =>
      rcases List.mem_singleton.mp h with rfl
      exact List.not_mem_nil
  | cons c rest ih =>
      rcases exists_pieces separator rest with
        ⟨first, more, hRest⟩
      rw [pieces_cons hRest] at h
      rw [hRest] at ih
      split at h
      · rcases List.mem_cons.mp h with rfl | hMem
        · exact List.not_mem_nil
        · exact ih hMem
      · next hOther =>
          rcases List.mem_cons.mp h with rfl | hMem
          · have hFirst := ih List.mem_cons_self
            simp [Ne.symm hOther, hFirst]
          · exact ih (List.mem_cons_of_mem _ hMem)

/- The first piece stands at the front of the text. -/
theorem prefix_of_pieces
    {text first : Text}
    {more : List Text}
    (h : pieces separator text = first :: more) :
    first <+: text := by
  induction text generalizing first more with
  | nil =>
      cases h
      exact List.prefix_rfl
  | cons c rest ih =>
      rcases exists_pieces separator rest with
        ⟨start, others, hRest⟩
      rw [pieces_cons hRest] at h
      split at h
      · cases h
        exact List.nil_prefix
      · cases h
        exact List.cons_prefix_cons.mpr ⟨rfl, ih hRest⟩

theorem infix_of_mem_pieces
    {text piece : Text}
    (h : piece ∈ pieces separator text) :
    piece <:+: text := by
  induction text generalizing piece with
  | nil =>
      rcases List.mem_singleton.mp h with rfl
      exact List.nil_infix
  | cons c rest ih =>
      rcases exists_pieces separator rest with
        ⟨first, more, hRest⟩
      rw [pieces_cons hRest] at h
      rw [hRest] at ih
      split at h
      · rcases List.mem_cons.mp h with rfl | hMem
        · exact List.nil_infix
        · exact List.infix_cons (ih hMem)
      · rcases List.mem_cons.mp h with rfl | hMem
        · exact (List.cons_prefix_cons.mpr
            ⟨rfl, prefix_of_pieces hRest⟩).isInfix
        · exact List.infix_cons
            (ih (List.mem_cons_of_mem _ hMem))

theorem pieces_of_not_mem
    (h : separator ∉ text) :
    pieces separator text = [text] := by
  induction text with
  | nil => rfl
  | cons c rest ih =>
      simp only [List.mem_cons, not_or] at h
      rw [pieces_cons (ih h.2), if_neg (Ne.symm h.1)]

/- The first piece ends at the first separator. -/
theorem pieces_append_cons
    {first : Text}
    (h : separator ∉ first)
    (rest : Text) :
    pieces separator (first ++ separator :: rest) =
      first :: pieces separator rest := by
  induction first with
  | nil =>
      rcases exists_pieces separator rest with
        ⟨start, others, hRest⟩
      rw [List.nil_append, pieces_cons hRest, if_pos rfl, hRest]
  | cons c more ih =>
      simp only [List.mem_cons, not_or] at h
      rw [List.cons_append, pieces_cons (ih h.2),
        if_neg (Ne.symm h.1)]

-- Joining

@[simp] theorem joined_nil
    (between : Text) :
    joined between [] = [] :=
  rfl

@[simp] theorem joined_singleton
    (between part : Text) :
    joined between [part] = part := by
  simp [joined]

theorem joined_cons_cons
    (between first second : Text)
    (more : List Text) :
    joined between (first :: second :: more) =
      first ++ between ++ joined between (second :: more) := by
  simp [joined, List.intercalate_cons_cons]

theorem joined_cons
    (between first : Text)
    (more : List Text) :
    joined between (first :: more) =
      first ++ more.flatMap (between ++ ·) := by
  induction more generalizing first with
  | nil => simp
  | cons second more ih =>
      rw [joined_cons_cons, ih]
      simp

theorem joined_append_singleton
    (between last : Text)
    {parts : List Text}
    (h : parts ≠ []) :
    joined between (parts ++ [last]) =
      joined between parts ++ between ++ last := by
  induction parts with
  | nil => exact absurd rfl h
  | cons first rest ih =>
      cases rest with
      | nil => simp [joined_cons_cons]
      | cons second more =>
          have hRest := ih (by simp)
          simp only [List.cons_append] at hRest ⊢
          rw [joined_cons_cons, hRest, joined_cons_cons]
          simp [List.append_assoc]

/- Joined parts are cut into these parts again. -/
theorem pieces_joined
    {parts : List Text}
    (hParts : parts ≠ [])
    (h : ∀ part ∈ parts, separator ∉ part) :
    pieces separator (joined [separator] parts) = parts := by
  induction parts with
  | nil => exact absurd rfl hParts
  | cons first rest ih =>
      have hFirst := h first (by simp)
      cases rest with
      | nil =>
          rw [joined_singleton]
          exact pieces_of_not_mem hFirst
      | cons second more =>
          rw [joined_cons_cons, List.append_assoc,
            List.singleton_append, pieces_append_cons hFirst]
          rw [ih (by simp) fun part hPart =>
            h part (by simp [hPart])]

/- The pieces of a text make it up again. -/
theorem joined_pieces
    (separator : Char)
    (text : Text) :
    joined [separator] (pieces separator text) = text := by
  induction text with
  | nil => rfl
  | cons c rest ih =>
      rcases exists_pieces separator rest with
        ⟨first, more, hRest⟩
      rw [pieces_cons hRest]
      rw [hRest] at ih
      by_cases hSame : c = separator
      · rw [if_pos hSame, joined_cons_cons, ih, hSame]
        rfl
      · rw [if_neg hSame]
        cases more with
        | nil => simpa using ih
        | cons second more =>
            rw [joined_cons_cons] at ih ⊢
            simp only [List.cons_append, ih]

-- The Last Occurrence

theorem ne_of_mem_reverse
    (h : mark ∉ text) :
    ∀ c ∈ text.reverse, (c != mark) = true := by
  intro c hc
  have hMem := List.mem_reverse.mp hc
  refine bne_iff_ne.mpr ?_
  rintro rfl
  exact h hMem

theorem afterLast_of_not_mem
    (h : mark ∉ text) :
    afterLast mark text = text := by
  have hAll :=
    List.takeWhile_eq_self_iff.mpr (ne_of_mem_reverse h)
  rw [afterLast, hAll, List.reverse_reverse]

theorem throughLast_of_not_mem
    (h : mark ∉ text) :
    throughLast mark text = [] := by
  have hNone :=
    List.dropWhile_eq_nil_iff.mpr (ne_of_mem_reverse h)
  rw [throughLast, hNone, List.reverse_nil]

theorem afterLast_append_cons
    (h : mark ∉ last)
    (before : Text) :
    afterLast mark (before ++ mark :: last) = last := by
  have hTake :
      (last.reverse ++ mark :: before.reverse).takeWhile
          (· != mark) =
        last.reverse := by
    rw [List.takeWhile_append_of_pos (ne_of_mem_reverse h)]
    simp
  simp [afterLast, hTake]

theorem throughLast_append_cons
    (h : mark ∉ last)
    (before : Text) :
    throughLast mark (before ++ mark :: last) =
      before ++ [mark] := by
  have hDrop :
      (last.reverse ++ mark :: before.reverse).dropWhile
          (· != mark) =
        mark :: before.reverse := by
    rw [List.dropWhile_append_of_pos (ne_of_mem_reverse h)]
    simp
  simp [throughLast, hDrop]

/- The last part follows the last separator. -/
theorem afterLast_joined
    (h : separator ∉ last)
    (parts : List Text) :
    afterLast separator
        (joined [separator] (parts ++ [last])) =
      last := by
  by_cases hParts : parts = []
  · subst hParts
    rw [List.nil_append, joined_singleton]
    exact afterLast_of_not_mem h
  · rw [joined_append_singleton _ _ hParts,
      List.append_assoc, List.singleton_append]
    exact afterLast_append_cons h _

/- Another last part may follow in its place. -/
theorem throughLast_joined
    (h : separator ∉ last)
    (parts : List Text)
    (other : Text) :
    throughLast separator
          (joined [separator] (parts ++ [last])) ++
        other =
      joined [separator] (parts ++ [other]) := by
  by_cases hParts : parts = []
  · subst hParts
    rw [List.nil_append, List.nil_append, joined_singleton,
      joined_singleton, throughLast_of_not_mem h,
      List.nil_append]
  · rw [joined_append_singleton _ _ hParts,
      joined_append_singleton _ _ hParts,
      List.append_assoc, List.singleton_append,
      throughLast_append_cons h]

-- Blanks at the Ends

theorem stripEnd_isPrefix
    (text : Text) :
    stripEnd text <+: text := by
  rw [stripEnd, ← List.reverse_suffix,
    List.reverse_reverse]
  exact List.dropWhile_suffix _

theorem stripEnd_append_cons
    (first : Text)
    {c : Char}
    (hInk : isBlank c = false)
    (rest : Text) :
    stripEnd (first ++ c :: rest) =
      first ++ c :: stripEnd rest := by
  have hFirst :
      (c :: first.reverse).dropWhile isBlank =
        c :: first.reverse := by
    simp [hInk]
  simp only [stripEnd, List.reverse_append,
    List.reverse_cons, List.append_assoc,
    List.singleton_append, List.dropWhile_append, hFirst]
  split
  · next hEmpty =>
      have hNone := List.isEmpty_iff.mp hEmpty
      simp [hNone]
  · simp

theorem strip_infix
    (text : Text) :
    strip text <:+: text :=
  (stripEnd_isPrefix _).isInfix.trans
    (List.dropWhile_suffix _).isInfix

theorem strip_cons_blank
    {c : Char}
    (h : isBlank c = true)
    (text : Text) :
    strip (c :: text) = strip text := by
  simp [strip, h]

/- A stripped text has no blanks to strip. -/
theorem strip_strip
    (text : Text) :
    strip (strip text) = strip text := by
  have hHead := List.head?_dropWhile_not isBlank text
  have hEnd : stripEnd (strip text) = strip text := by
    simp only [strip, stripEnd, List.reverse_reverse,
      List.dropWhile_idempotent]
  rcases stripEnd_isPrefix (text.dropWhile isBlank) with
    ⟨after, hAfter⟩
  rw [← hAfter, ← strip] at hHead
  cases hStrip : strip text with
  | nil => rfl
  | cons c rest =>
      rw [hStrip] at hHead hEnd
      have hInk : isBlank c = false := by
        simpa using hHead
      rw [strip, List.dropWhile_cons_of_neg (by simp [hInk]),
        hEnd]

end Text

end ThriftTypings
