import ThriftTypings.Proofs.Path.Canonical

/-
  This file proves what the spellings of canonical paths say
  about the paths: which one is spelled, and which one lies
  below which.

  A canonical path is spelled in one way only. Its spelling
  followed by a slash starts the spelling of another path
  just if that one lies strictly below it and is written
  with as many leading slashes.

  Key theorems include:
    * `Path.IsCanonical.text_prefix`
    * `Path.IsCanonical.stripped_text`
-/

namespace ThriftTypings

-- Joined Parts

namespace Text

variable {separator : Char} {first second : List Text}

theorem joined_append
    (between : Text)
    (hFirst : first ≠ [])
    (hSecond : second ≠ []) :
    joined between (first ++ second) =
      joined between first ++ between ++
        joined between second := by
  induction first with
  | nil => exact absurd rfl hFirst
  | cons part more ih =>
      cases more with
      | nil =>
          cases second with
          | nil => exact absurd rfl hSecond
          | cons other others =>
              simp [joined_cons_cons]
      | cons next others =>
          have hMore := ih (by simp)
          rw [List.cons_append, List.cons_append,
            joined_cons_cons, joined_cons_cons,
            ← List.cons_append, hMore]
          simp only [List.append_assoc]

/- The parts of a text come first among its pieces. -/
theorem pieces_joined_append
    (hParts : first ≠ [])
    (h : ∀ part ∈ first, separator ∉ part)
    (rest : Text) :
    pieces separator
        (joined [separator] first ++ separator :: rest) =
      first ++ pieces separator rest := by
  induction first with
  | nil => exact absurd rfl hParts
  | cons part more ih =>
      have hPart := h part (by simp)
      cases more with
      | nil =>
          rw [joined_singleton]
          exact pieces_append_cons hPart rest
      | cons next others =>
          have hMore := ih (by simp) fun other hMem =>
            h other (by simp [hMem])
          rw [joined_cons_cons, List.append_assoc,
            List.append_assoc, List.singleton_append,
            pieces_append_cons hPart, hMore]
          simp

theorem joined_injective
    (hFirst : first ≠ [])
    (hSecond : second ≠ [])
    (hFirstFree : ∀ part ∈ first, separator ∉ part)
    (hSecondFree : ∀ part ∈ second, separator ∉ part)
    (h : joined [separator] first =
      joined [separator] second) :
    first = second := by
  rw [← pieces_joined hFirst hFirstFree, h,
    pieces_joined hSecond hSecondFree]

/- Where parts and a separator start a text of parts. -/
theorem joined_prefix_iff
    (hFirst : first ≠ [])
    (hFirstFree : ∀ part ∈ first, separator ∉ part)
    (hSecondFree : ∀ part ∈ second, separator ∉ part) :
    joined [separator] first ++ [separator] <+:
        joined [separator] second ↔
      first <+: second ∧ first ≠ second := by
  constructor
  · intro hPrefix
    rcases hPrefix with ⟨rest, hRest⟩
    rw [List.append_assoc, List.singleton_append] at hRest
    have hSecond : second ≠ [] := by
      intro hNil
      simp [hNil] at hRest
    have hPieces :=
      pieces_joined_append hFirst hFirstFree rest
    rw [hRest, pieces_joined hSecond hSecondFree] at hPieces
    rcases exists_pieces separator rest with
      ⟨start, others, hOthers⟩
    rw [hPieces, hOthers]
    exact ⟨List.prefix_append _ _, by simp⟩
  · intro hParts
    rcases hParts with ⟨⟨below, hBelow⟩, hOther⟩
    subst hBelow
    have hNonempty : below ≠ [] := by
      intro hNil
      apply hOther
      rw [hNil, List.append_nil]
    rw [joined_append _ hFirst hNonempty]
    exact List.prefix_append _ _

/- The number of marks in front of a text is settled. -/
theorem replicate_append_inj
    {mark : Char}
    {left right : Text}
    (hLeft : ∀ c ∈ left.head?, c ≠ mark)
    (hRight : ∀ c ∈ right.head?, c ≠ mark)
    {m n : Nat}
    (h : List.replicate m mark ++ left =
      List.replicate n mark ++ right) :
    m = n ∧ left = right := by
  induction m generalizing n with
  | zero =>
      cases n with
      | zero => exact ⟨rfl, by simpa using h⟩
      | succ n =>
          have hHead : left.head? = some mark := by
            simpa [List.replicate_succ] using
              congrArg List.head? h
          exact absurd rfl (hLeft mark hHead)
  | succ m ih =>
      cases n with
      | zero =>
          have hHead : right.head? = some mark := by
            simpa [List.replicate_succ] using
              (congrArg List.head? h).symm
          exact absurd rfl (hRight mark hHead)
      | succ n =>
          simp only [List.replicate_succ, List.cons_append,
            List.cons.injEq, true_and] at h
          rcases ih h with ⟨hCount, hText⟩
          exact ⟨by rw [hCount], hText⟩

end Text

-- Spellings of Canonical Paths

namespace Path

variable {root path : Path}

theorem IsCanonical.text_eq
    (h : path.IsCanonical) :
    path.text =
      List.replicate path.slashes '/' ++
        Text.joined ['/'] path.segments := by
  have hAbsolute := h.absolute
  rw [text, if_neg]
  omega

theorem IsCanonical.unslashed
    (h : path.IsCanonical) :
    ∀ segment ∈ path.segments, '/' ∉ segment := by
  intro segment hMem
  exact (h.names segment hMem).unslashed

/- After its leading slashes a path goes on with a name. -/
theorem IsCanonical.head?_joined
    (h : path.IsCanonical)
    (rest : Text)
    (hRest : path.segments = [] →
      ∀ c ∈ rest.head?, c ≠ '/') :
    ∀ c ∈ (Text.joined ['/'] path.segments ++
      rest).head?, c ≠ '/' := by
  cases hSegments : path.segments with
  | nil => simpa using hRest hSegments
  | cons first more =>
      have hName := h.names first (by simp [hSegments])
      rw [Text.joined_cons]
      cases first with
      | nil => exact absurd rfl hName.nonempty
      | cons c others =>
          intro d hHead
          simp only [List.cons_append, List.head?_cons,
            Option.mem_def, Option.some.injEq] at hHead
          rw [← hHead]
          intro hSlash
          apply hName.unslashed
          simp [hSlash]

/- A canonical path is spelled in one way only. -/
theorem IsCanonical.text_inj
    (hRoot : root.IsCanonical)
    (hPath : path.IsCanonical)
    (h : root.text = path.text) :
    root = path := by
  have hHead (other : Path) (hOther : other.IsCanonical) :
      ∀ c ∈ (Text.joined ['/'] other.segments).head?,
        c ≠ '/' := by
    have hStart := hOther.head?_joined [] (by simp)
    rwa [List.append_nil] at hStart
  have hNil (other : Path) (hOther : other.IsCanonical)
      (hEmpty : Text.joined ['/'] other.segments = []) :
      other.segments = [] := by
    cases hSegments : other.segments with
    | nil => rfl
    | cons first more =>
        have hName := hOther.names first (by simp [hSegments])
        rw [hSegments, Text.joined_cons] at hEmpty
        exact absurd (List.append_eq_nil_iff.mp hEmpty).1
          hName.nonempty
  rw [hRoot.text_eq, hPath.text_eq] at h
  rcases Text.replicate_append_inj (hHead root hRoot)
      (hHead path hPath) h with
    ⟨hSlashes, hJoined⟩
  have hSegments : root.segments = path.segments := by
    by_cases hEmpty : root.segments = []
    · rw [hEmpty, Text.joined_nil] at hJoined
      rw [hEmpty, hNil path hPath hJoined.symm]
    · apply Text.joined_injective hEmpty _ hRoot.unslashed
        hPath.unslashed hJoined
      intro hOther
      rw [hOther, Text.joined_nil] at hJoined
      exact hEmpty (hNil root hRoot hJoined)
  cases root
  cases path
  exact congrArg₂ Path.mk hSlashes hSegments

/- What starts with a path and a slash lies below it. -/
theorem IsCanonical.text_prefix_iff
    (hRoot : root.IsCanonical)
    (hPath : path.IsCanonical)
    (hSegments : root.segments ≠ []) :
    root.text ++ ['/'] <+: path.text ↔
      root.slashes = path.slashes ∧
        root.segments <+: path.segments ∧
          root.segments ≠ path.segments := by
  have hJoined := Text.joined_prefix_iff hSegments
    hRoot.unslashed hPath.unslashed
  rw [hRoot.text_eq, hPath.text_eq, List.append_assoc]
  constructor
  · intro hPrefix
    rcases hPrefix with ⟨rest, hRest⟩
    rw [List.append_assoc, List.append_assoc] at hRest
    have hLeft := hRoot.head?_joined (['/'] ++ rest)
      (fun hNil => absurd hNil hSegments)
    have hRight := hPath.head?_joined [] (by simp)
    rw [List.append_nil] at hRight
    rcases Text.replicate_append_inj hLeft hRight hRest with
      ⟨hSlashes, hText⟩
    refine ⟨hSlashes, hJoined.mp ⟨rest, ?_⟩⟩
    rw [List.append_assoc, hText]
  · intro hBelow
    rcases hBelow with ⟨hSlashes, hParts⟩
    rw [hSlashes]
    exact (List.prefix_append_right_inj _).mpr
      (hJoined.mpr hParts)

/- What lies above is spelled in front. -/
theorem IsCanonical.text_prefix
    (hRoot : root.IsCanonical)
    (hPath : path.IsCanonical)
    (hSlashes : root.slashes = path.slashes)
    (hSegments : root.segments <+: path.segments) :
    root.text <+: path.text := by
  rw [hRoot.text_eq, hPath.text_eq, hSlashes]
  apply (List.prefix_append_right_inj _).mpr
  rcases hSegments with ⟨below, hBelow⟩
  rw [← hBelow]
  by_cases hFirst : root.segments = []
  · rw [hFirst, Text.joined_nil]
    exact List.nil_prefix
  · by_cases hSecond : below = []
    · simp only [hSecond, List.append_nil, List.prefix_rfl]
    · rw [Text.joined_append _ hFirst hSecond,
        List.append_assoc]
      exact List.prefix_append _ _

/- Below the root of all, no spelling ends with a slash. -/
theorem IsCanonical.stripped_text
    (h : path.IsCanonical)
    (hSegments : path.segments ≠ []) :
    (path.text.reverse.dropWhile (· == '/')).reverse =
      path.text := by
  rcases List.eq_nil_or_concat path.segments with
    hNil | ⟨before, last, hSplit⟩
  · exact absurd hNil hSegments
  · have hName := h.names last (by simp [hSplit])
    rcases List.eq_nil_or_concat last with
      hEmpty | ⟨start, c, hLast⟩
    · exact absurd hEmpty hName.nonempty
    · have hChar : c ≠ '/' := by
        intro hSlash
        apply hName.unslashed
        simp [hLast, hSlash]
      have hText : ∃ front, path.text = front ++ [c] := by
        rw [h.text_eq, hSplit, List.concat_eq_append]
        by_cases hBefore : before = []
        · refine ⟨List.replicate path.slashes '/' ++ start,
            ?_⟩
          simp [hBefore, hLast]
        · refine ⟨List.replicate path.slashes '/' ++
            (Text.joined ['/'] before ++ ['/'] ++ start), ?_⟩
          rw [Text.joined_append_singleton _ _ hBefore]
          simp [hLast]
      rcases hText with ⟨front, hFront⟩
      rw [hFront]
      simp [hChar]

/- The root of all is spelled with slashes only. -/
theorem IsCanonical.stripped_root
    (h : path.IsCanonical)
    (hSegments : path.segments = []) :
    (path.text.reverse.dropWhile (· == '/')).reverse =
      [] := by
  rw [h.text_eq, hSegments, Text.joined_nil,
    List.append_nil, List.reverse_replicate]
  simp

end Path

end ThriftTypings
