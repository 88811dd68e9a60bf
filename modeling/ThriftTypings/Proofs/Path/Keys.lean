import ThriftTypings.Proofs.Path.Relative

/-
  This file proves that the paths by which a build tells its
  sources apart are canonical: a source has one key, however
  and wherever it is mentioned.

  Where a mention leads is said by a walk over its segments,
  one by one and as they are spelled.

  Key definitions include:
    * `Path.onward` and `Path.arrival`
    * `Path.spelledIn` and `Path.keptSlashes`

  Key theorems include:
    * `Path.segments_resolve` and `Path.slashes_resolve`
    * `Mention.keys_are_canonical`
-/

namespace ThriftTypings

namespace Path

-- Walks

/- One segment further from a place, as it is spelled. -/
def onward
    (place : List Text)
    (segment : Text) : List Text :=
  if segment = [] ∨ segment = here then place
  else if segment = above then place.dropLast
  else place ++ [segment]

/- Where a text leads from a place, or else from the root. -/
def arrival
    (place : List Text)
    (text : Text) : List Text :=
  (Text.pieces '/' text).foldl onward
    (if text.head? = some '/' then [] else place)

/- Segments are walked one by one, and backwards. -/
theorem walk_eq_foldl
    {place : List Text}
    (h : above ∉ place)
    (pieces : List Text) :
    walk true place.reverse
        (pieces.filter fun segment =>
          segment ≠ [] ∧ segment ≠ here) =
      (pieces.foldl onward place).reverse := by
  induction pieces generalizing place with
  | nil => simp [walk]
  | cons segment more ih =>
      rw [List.foldl_cons]
      by_cases hSkipped : segment = [] ∨ segment = here
      · rw [onward, if_pos hSkipped,
          List.filter_cons_of_neg
            (by simpa [or_iff_not_imp_left] using hSkipped)]
        exact ih h
      have hKept := not_or.mp hSkipped
      rw [onward, if_neg hSkipped,
        List.filter_cons_of_pos (by simpa using hKept)]
      by_cases hAbove : segment = above
      · rw [if_pos hAbove, hAbove]
        rcases List.eq_nil_or_concat' place with
          rfl | ⟨front, last, rfl⟩
        · exact ih h
        · simp only [List.mem_append, List.mem_singleton,
            not_or] at h
          rw [List.dropLast_concat, ← ih h.1]
          simp [walk, Ne.symm h.2]
      · have hPlace : above ∉ place ++ [segment] := by
          simp [h, Ne.symm hAbove]
        rw [if_neg hAbove, ← ih hPlace]
        simp [walk, hAbove]

theorem isAbsolute_ofText_iff
    {text : Text} :
    (ofText text).isAbsolute = true ↔
      text.head? = some '/' := by
  have hZero := @leading_eq_zero_iff text
  simp only [isAbsolute, ofText, decide_eq_true_eq,
    Nat.pos_iff_ne_zero, ne_eq, hZero, not_not]

/- A resolved text is where the walk over it leads. -/
theorem segments_resolve
    {directory : Path}
    (h : directory.IsCanonical)
    (text : Text) :
    (resolve directory text).segments =
      arrival directory.segments text := by
  have hNames : above ∉ directory.segments := fun hMem =>
    (h.names above hMem).notAbove rfl
  unfold arrival
  by_cases hHead : text.head? = some '/'
  · have hAbsolute := isAbsolute_ofText_iff.mpr hHead
    have hWalk := walk_eq_foldl List.not_mem_nil
      (Text.pieces '/' text)
    rw [if_pos hHead, resolve_of_absolute _ hAbsolute, normal,
      hAbsolute]
    exact List.reverse_eq_iff.mpr hWalk
  · have hRelative := mt isAbsolute_ofText_iff.mp hHead
    have hWalk := walk_eq_foldl hNames
      (Text.pieces '/' text)
    have hAbsolute (segments : List Text) :
        isAbsolute ⟨directory.slashes, segments⟩ = true :=
      decide_eq_true h.absolute
    rw [if_neg hHead, resolve, join, if_neg hRelative, normal,
      hAbsolute, walk_append, walk_names true [] hNames,
      List.append_nil]
    exact List.reverse_eq_iff.mpr hWalk

-- Leading Slashes

/- A text put behind a directory, if it is not absolute. -/
def spelledIn
    (directory text : Text) : Text :=
  if text.head? = some '/' then text
  else if directory.getLast? = some '/' then
    directory ++ text
  else
    directory ++ '/' :: text

/- The slashes of an absolute path: just two are kept. -/
def keptSlashes
    (text : Text) : Nat :=
  if "//".toList <+: text ∧ ¬ "///".toList <+: text then 2
  else 1

theorem leading_eq_keptSlashes
    {text : Text}
    (h : text.head? = some '/') :
    leading text = keptSlashes text := by
  obtain ⟨rest, rfl⟩ := List.head?_eq_some_iff.mp h
  match rest with
  | [] => decide
  | [c] =>
      by_cases hSecond : c = '/'
      · rw [hSecond]
        decide
      · simp [leading, keptSlashes, hSecond, Ne.symm hSecond]
  | c :: d :: more =>
      by_cases hSecond : c = '/'
      · by_cases hThird : d = '/'
        · simp [leading, keptSlashes, hSecond, hThird]
        · simp [leading, keptSlashes, hSecond, hThird,
            Ne.symm hThird]
      · simp [leading, keptSlashes, hSecond, Ne.symm hSecond]

/- A resolved text has the slashes of its spelling. -/
theorem slashes_resolve
    {directory : Path}
    (h : directory.IsCanonical)
    (hSlashes : directory.slashes ≤ 2)
    (text : Text) :
    (resolve directory text).slashes =
      keptSlashes (spelledIn directory.text text) := by
  unfold spelledIn
  by_cases hHead : text.head? = some '/'
  · rw [if_pos hHead, ← leading_eq_keptSlashes hHead,
      resolve_of_absolute _ (isAbsolute_ofText_iff.mpr hHead)]
    rfl
  · rw [if_neg hHead, resolve, join,
      if_neg (mt isAbsolute_ofText_iff.mp hHead)]
    -- what follows the slashes does not begin with one
    have hKept {rest : Text}
        (hRest : directory.segments = [] →
          rest.head? ≠ some '/') :
        directory.slashes =
          keptSlashes (directory.text ++ rest) := by
      have hStart := h.head?_joined rest fun hNone c hc hSlash =>
        hRest hNone (hSlash ▸ hc)
      have hCount := leading_replicate_append hSlashes
        (fun hSlash => hStart '/' hSlash rfl)
      rw [← List.append_assoc, ← h.text_eq] at hCount
      rw [← leading_eq_keptSlashes, hCount]
      by_contra hOther
      have hZero := leading_eq_zero_iff.mpr hOther
      have hAbsolute := h.absolute
      omega
    split
    · exact hKept fun _ => hHead
    · next hEnd =>
        refine hKept fun hNone => absurd ?_ hEnd
        have hSome := h.absolute.ne'
        rw [h.text_eq, hNone, Text.joined_nil, List.append_nil,
          List.getLast?_replicate, if_neg hSome]

-- Directories of Files

/- A directory in front of a file ends with a slash. -/
theorem throughLast_append
    {front last : Text}
    (hFront : front.getLast? = some '/')
    (hLast : '/' ∉ last) :
    Text.throughLast '/' (front ++ last) = front := by
  obtain ⟨start, rfl⟩ := List.getLast?_eq_some_iff.mp hFront
  rw [List.append_assoc, List.singleton_append]
  exact Text.throughLast_append_cons hLast start

/- The directory of a canonical path, by its spelling. -/
theorem IsCanonical.directoryOf_text
    {path : Path}
    (h : path.IsCanonical)
    (hSlashes : path.slashes ≤ 2) :
    directoryOf path.text = path.parent := by
  have hSplit : ∃ last, '/' ∉ last ∧
      Text.joined ['/'] path.segments =
        path.parent.segments.flatMap (· ++ ['/']) ++ last := by
    rcases List.eq_nil_or_concat' path.segments with
      hNone | ⟨front, last, hLast⟩
    · exact ⟨[], by simp [Path.parent, hNone]⟩
    · refine ⟨last, h.unslashed last (by simp [hLast]), ?_⟩
      rw [Path.parent, hLast, List.dropLast_concat,
        Text.joined_append_cons, Text.joined_singleton]
  rcases hSplit with ⟨last, hLast, hJoined⟩
  have hEnd : (List.replicate path.slashes '/' ++
      path.parent.segments.flatMap (· ++ ['/'])).getLast? =
        some '/' := by
    rcases List.eq_nil_or_concat' path.parent.segments with
      hNone | ⟨front, name, hSome⟩
    · simp [hNone, List.getLast?_replicate, h.absolute.ne']
    · simp [hSome]
  have hHead : (path.parent.segments.flatMap
      (· ++ ['/'])).head? ≠ some '/' := by
    cases hFront : path.parent.segments with
    | nil => simp
    | cons name more =>
        have hName := h.parent.names name (by simp [hFront])
        rw [List.flatMap_cons, List.append_assoc,
          List.head?_append_of_ne_nil _ hName.nonempty]
        exact fun hSlash =>
          hName.unslashed (List.mem_of_mem_head? hSlash)
  have hPieces := Text.pieces_flatMap_append
    h.parent.unslashed []
  rw [List.append_nil] at hPieces
  rw [directoryOf, h.text_eq, hJoined, ← List.append_assoc,
    throughLast_append hEnd hLast, ofText,
    leading_replicate_append hSlashes hHead,
    Text.pieces_replicate_append, hPieces, List.filter_append,
    List.filter_append, filter_names h.parent.names]
  simp [Text.pieces, Path.parent]

end Path

-- Mentions

/-
  A mention of a source, by a text: as an entry, meant in a
  source root, or as an include, meant where the file is.
-/
inductive Mention where
  | entry (root text : Text)
  | inclusion (file text : Text)
  deriving DecidableEq, Repr

namespace Mention

open ThriftTypings.Path

/- The path that the text is read against. -/
def base : Mention → Text
  | .entry root _ => root
  | .inclusion file _ => file

def text : Mention → Text
  | .entry _ text => text
  | .inclusion _ text => text

/- The directory that the text is meant in. -/
def directory : Mention → Path
  | .entry root _ => ofText root
  | .inclusion file _ => (ofText file).parent

/- The key of the source: the path that is meant, spelled. -/
def key : Mention → Text
  | .entry root text => (resolve (ofText root) text).text
  | .inclusion file text =>
      (resolve (directoryOf file) text).text

/- The path that a build takes the source for. -/
def source : Mention → Path
  | .entry root text => resolve (ofText root) text
  | .inclusion file text => (ofText file).included text

/- Where the walk over the text leads. -/
def arrival
    (mention : Mention) : List Text :=
  Path.arrival mention.directory.segments mention.text

/- The slashes of the text with its directory in front. -/
def slashes
    (mention : Mention) : Nat :=
  keptSlashes
    (spelledIn mention.directory.text mention.text)

variable {mention other : Mention}

/- The key spells the path that a build goes by. -/
theorem text_source
    (h : IsNormalised mention.base) :
    mention.source.text = mention.key := by
  cases mention with
  | entry root text => rfl
  | inclusion file text =>
      have hFile : IsNormalised file := h
      have hParent := hFile.isCanonical.directoryOf_text
        (leading_le_two file)
      rw [hFile.text_ofText] at hParent
      rw [key, hParent]
      rfl

/- That path is canonical, and is where the walk leads. -/
theorem source_spec
    (h : IsNormalised mention.base) :
    mention.source.IsCanonical ∧
      mention.source.segments = mention.arrival ∧
      mention.source.slashes = mention.slashes := by
  have hSource : mention.source =
      resolve mention.directory mention.text := by
    cases mention <;> rfl
  have hDirectory : mention.directory.IsCanonical ∧
      mention.directory.slashes ≤ 2 := by
    cases mention with
    | entry root text =>
        exact ⟨h.isCanonical, leading_le_two root⟩
    | inclusion file text =>
        exact ⟨h.isCanonical.parent, leading_le_two file⟩
  rw [hSource]
  exact ⟨hDirectory.1.resolve _,
    segments_resolve hDirectory.1 _,
    slashes_resolve hDirectory.1 hDirectory.2 _⟩

/-
  Let sources be mentioned against normalised paths. A key
  is one slash, or two if the text with its directory in
  front begins with just two, and then the segments that the
  walk leads to, which are all names. So two keys are the
  same just if their walks lead to the same segments with as
  many slashes, and the paths that a build goes by tell the
  same sources apart. A key is normalised again, and so may
  itself be the file of further mentions.
-/
theorem keys_are_canonical
    (h : IsNormalised mention.base)
    (hOther : IsNormalised other.base) :
    mention.key =
        List.replicate mention.slashes '/' ++
          Text.joined ['/'] mention.arrival ∧
      (∀ segment ∈ mention.arrival, IsName segment) ∧
      (mention.key = other.key ↔
        mention.arrival = other.arrival ∧
          mention.slashes = other.slashes) ∧
      (mention.source = other.source ↔
        mention.key = other.key) ∧
      IsNormalised mention.key ∧
      (ofText mention.key).normal.text = mention.key := by
  rcases source_spec h with ⟨hFirst, hArrival, hSlashes⟩
  rcases source_spec hOther with
    ⟨hSecond, hOtherArrival, hOtherSlashes⟩
  have hSame : mention.source = other.source ↔
      mention.key = other.key := by
    rw [← text_source h, ← text_source hOther]
    exact ⟨congrArg Path.text, hFirst.text_inj hSecond⟩
  have hKey : IsNormalised mention.key := by
    rw [← text_source h]
    refine hFirst.isNormalised ?_
    rw [hSlashes, slashes, keptSlashes]
    split <;> omega
  refine ⟨?_, ?_, ?_, hSame, hKey, hKey.fixed⟩
  · rw [← text_source h, hFirst.text_eq, hSlashes, hArrival]
  · rw [← hArrival]
    exact hFirst.names
  · rw [← hSame, ← hArrival, ← hSlashes, ← hOtherArrival,
      ← hOtherSlashes]
    cases mention.source
    cases other.source
    simp [and_comm]

/- An entry and an include of one source, and of another. -/
theorem keys_of_entry_and_includes :
    let first := Mention.entry "/idl".toList
      "c/..//b.thrift".toList
    let second := Mention.inclusion "/idl/c/d.thrift".toList
      "../../../../idl/./b.thrift".toList
    let third := Mention.inclusion "//idl/c/d.thrift".toList
      "../b.thrift".toList
    IsNormalised first.base ∧ IsNormalised second.base ∧
      IsNormalised third.base ∧
      first.key = second.key ∧ first.key ≠ third.key := by
  intro first second third
  have hFirst : IsNormalised first.base := by decide
  have hSecond : IsNormalised second.base := by decide
  have hThird : IsNormalised third.base := by decide
  refine ⟨hFirst, hSecond, hThird, ?_, ?_⟩
  · exact (keys_are_canonical hFirst hSecond).2.2.1.mpr
      (by decide)
  · exact mt (keys_are_canonical hFirst hThird).2.2.1.mp
      (by decide)

end Mention

end ThriftTypings
