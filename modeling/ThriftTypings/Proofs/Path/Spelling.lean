import ThriftTypings.Proofs.Path.Containment
import ThriftTypings.Proofs.Path.Course

/-
  This file proves what the spellings of paths say about
  them: which path is spelled, and which spelling starts
  another one.

  A path is plain if some text spells it, so it may still
  hold steps up. A spelling starts another one if its
  segments do, but also if only its last segment is longer
  there.

  Key definitions include:
    * `Path.IsPlain`

  Key theorems include:
    * `Text.prefix_iff_pieces`
    * `Path.IsPlain.ofText_text`
-/

namespace ThriftTypings

-- Parts

namespace Text

variable {separator : Char}

/- What stands in front goes to the first piece. -/
theorem pieces_append
    {front rest first : Text}
    {more : List Text}
    (hFront : separator ∉ front)
    (hRest : pieces separator rest = first :: more) :
    pieces separator (front ++ rest) =
      (front ++ first) :: more := by
  induction front with
  | nil => exact hRest
  | cons c front ih =>
      simp only [List.mem_cons, not_or] at hFront
      rw [List.cons_append, pieces_cons (ih hFront.2),
        if_neg (Ne.symm hFront.1), List.cons_append]

/- Each part with the separator after it is a piece. -/
theorem pieces_flatMap_append
    {front : List Text}
    (hFront : ∀ part ∈ front, separator ∉ part)
    (rest : Text) :
    pieces separator
        (front.flatMap (· ++ [separator]) ++ rest) =
      front ++ pieces separator rest := by
  induction front with
  | nil => rfl
  | cons part front ih =>
      rcases List.forall_mem_cons.mp hFront with
        ⟨hPart, hMore⟩
      rw [List.flatMap_cons, List.append_assoc,
        List.append_assoc, List.singleton_append,
        pieces_append_cons hPart, ih hMore, List.cons_append]

theorem joined_append_cons
    (front : List Text)
    (part : Text)
    (more : List Text) :
    joined [separator] (front ++ part :: more) =
      front.flatMap (· ++ [separator]) ++
        joined [separator] (part :: more) := by
  induction front with
  | nil => rfl
  | cons first front ih =>
      rw [List.flatMap_cons, List.append_assoc, ← ih]
      cases front with
      | nil => exact joined_cons_cons _ _ _ _
      | cons second front => exact joined_cons_cons _ _ _ _

theorem pieces_replicate_append
    (count : Nat)
    (rest : Text) :
    pieces separator
        (List.replicate count separator ++ rest) =
      List.replicate count [] ++ pieces separator rest := by
  induction count with
  | zero => rfl
  | succ count ih =>
      have hFirst := pieces_append_cons
        (List.not_mem_nil (a := separator))
        (List.replicate count separator ++ rest)
      rw [ih] at hFirst
      exact hFirst

/-
  A text starts another one if all its pieces but the last
  are first pieces of it, and the last one starts the next.
-/
theorem prefix_iff_pieces
    {start text last : Text}
    {front : List Text}
    (h : pieces separator start = front ++ [last]) :
    start <+: text ↔
      ∃ longer rest,
        pieces separator text = front ++ longer :: rest ∧
          last <+: longer := by
  have hFree : ∀ part ∈ front ++ [last],
      separator ∉ part := by
    rw [← h]
    exact fun part => not_mem_of_mem_pieces
  rcases List.forall_mem_append.mp hFree with
    ⟨hFront, hLast⟩
  have hStart : start =
      front.flatMap (· ++ [separator]) ++ last := by
    rw [← joined_pieces separator start, h,
      joined_append_cons, joined_singleton]
  rw [hStart]
  constructor
  · rintro ⟨after, rfl⟩
    rcases exists_pieces separator after with
      ⟨first, more, hMore⟩
    refine ⟨last ++ first, more, ?_,
      List.prefix_append _ _⟩
    rw [List.append_assoc, pieces_flatMap_append hFront,
      pieces_append (hLast last (by simp)) hMore]
  · rintro ⟨longer, rest, hText, hLonger⟩
    rw [← joined_pieces separator text, hText,
      joined_append_cons, joined_cons]
    apply (List.prefix_append_right_inj _).mpr
    exact hLonger.trans (List.prefix_append _ _)

end Text

-- Plain Paths

namespace Path

/- Is the path one that a text may spell? -/
structure IsPlain
    (path : Path) : Prop where
  slashes : path.slashes ≤ 2
  nonempty : ∀ segment ∈ path.segments, segment ≠ []
  notHere : ∀ segment ∈ path.segments, segment ≠ here
  unslashed : ∀ segment ∈ path.segments, '/' ∉ segment

theorem leading_le_two
    (text : Text) :
    leading text ≤ 2 := by
  unfold leading
  split <;> omega

theorem isPlain_ofText
    (text : Text) :
    (ofText text).IsPlain where
  slashes := leading_le_two text
  nonempty _ hMem := (mem_segments_ofText hMem).1
  notHere _ hMem := (mem_segments_ofText hMem).2.1
  unslashed _ hMem := (mem_segments_ofText hMem).2.2

theorem IsCanonical.isPlain
    {path : Path}
    (h : path.IsCanonical)
    (hSlashes : path.slashes ≤ 2) :
    path.IsPlain where
  slashes := hSlashes
  nonempty segment hMem := (h.names segment hMem).nonempty
  notHere segment hMem := (h.names segment hMem).notHere
  unslashed segment hMem := (h.names segment hMem).unslashed

/- Up to two slashes are counted as they stand. -/
theorem leading_replicate_append
    {count : Nat}
    (hCount : count ≤ 2)
    {rest : Text}
    (hRest : rest.head? ≠ some '/') :
    leading (List.replicate count '/' ++ rest) = count := by
  cases rest with
  | nil =>
      match count with
      | 0 => rfl
      | 1 => rfl
      | 2 => rfl
  | cons c rest =>
      have hChar : c ≠ '/' := by
        intro hSame
        apply hRest
        rw [hSame, List.head?_cons]
      match count with
      | 0 => exact leading_eq_zero_iff.mpr hRest
      | 1 => simp [leading, hChar]
      | 2 => simp [leading, hChar]

/- Only the empty path is spelled in a way of its own. -/
theorem text_of_ne
    (path : Path)
    (h : ¬ (path.slashes = 0 ∧ path.segments = [])) :
    path.text =
      List.replicate path.slashes '/' ++
        Text.joined ['/'] path.segments := by
  rw [text, if_neg h]

namespace IsPlain

variable {root path : Path}

/- No slash stands in front of the segments. -/
theorem head?_joined
    (h : path.IsPlain) :
    (Text.joined ['/'] path.segments).head? ≠ some '/' := by
  cases hSegments : path.segments with
  | nil => simp
  | cons first more =>
      have hMem : first ∈ path.segments := by
        simp [hSegments]
      rw [Text.joined_cons, List.head?_append_of_ne_nil _
        (h.nonempty first hMem)]
      intro hHead
      exact h.unslashed first hMem
        (List.mem_of_mem_head? hHead)

/- A plain path is the one that its text spells. -/
theorem ofText_text
    (h : path.IsPlain) :
    ofText path.text = path := by
  by_cases hEmpty : path.slashes = 0 ∧ path.segments = []
  · rw [text, if_pos hEmpty]
    rcases path with ⟨slashes, segments⟩
    exact congrArg₂ Path.mk hEmpty.1.symm hEmpty.2.symm
  · have hText := path.text_of_ne hEmpty
    have hLeading : leading path.text = path.slashes := by
      rw [hText]
      exact leading_replicate_append h.slashes h.head?_joined
    have hPlain : path.segments.filter (fun segment =>
        segment ≠ [] ∧ segment ≠ here) = path.segments := by
      refine List.filter_eq_self.mpr fun segment hMem => ?_
      simp [h.nonempty segment hMem, h.notHere segment hMem]
    have hSegments : (Text.pieces '/' path.text).filter
        (fun segment => segment ≠ [] ∧ segment ≠ here) =
          path.segments := by
      rw [hText, Text.pieces_replicate_append,
        List.filter_append]
      by_cases hNone : path.segments = []
      · simp [hNone, Text.pieces]
      · rw [Text.pieces_joined hNone h.unslashed, hPlain]
        simp
    rw [ofText, hLeading, hSegments]

end IsPlain

end Path

end ThriftTypings
