import Mathlib.Data.List.Induction
import ThriftTypings.Path.Source
import ThriftTypings.Proofs.Text.Pieces
import ThriftTypings.FileTree.Lookup

/-
  This file proves that the paths of a build are canonical:
  absolute, without steps up and without empty segments, so
  that a file has the place in a tree that its segments
  spell.

  Key definitions include:
    * `Path.IsName` and `Path.IsCanonical`
    * `Path.moduleName`

  Key theorems include:
    * `Path.output_joined`
    * `Path.IsLegal.parent`
-/

namespace ThriftTypings

namespace Path

variable {name : Text} {path : Path}

-- Canonical Paths

/- Is the segment the name of something in a directory? -/
structure IsName
    (segment : Text) : Prop where
  nonempty : segment ≠ []
  notHere : segment ≠ here
  notAbove : segment ≠ above
  unslashed : '/' ∉ segment

/- Is the path absolute, and are all its segments names? -/
structure IsCanonical
    (path : Path) : Prop where
  absolute : 0 < path.slashes
  names : ∀ segment ∈ path.segments, IsName segment

instance
    (segment : Text) :
    Decidable (IsName segment) :=
  decidable_of_iff
    (segment ≠ [] ∧ segment ≠ here ∧ segment ≠ above ∧
      '/' ∉ segment)
    ⟨fun h => ⟨h.1, h.2.1, h.2.2.1, h.2.2.2⟩,
      fun h =>
        ⟨h.nonempty, h.notHere, h.notAbove, h.unslashed⟩⟩

instance
    (path : Path) :
    Decidable path.IsCanonical :=
  decidable_of_iff
    (0 < path.slashes ∧
      ∀ segment ∈ path.segments, IsName segment)
    ⟨fun h => ⟨h.1, h.2⟩, fun h => ⟨h.absolute, h.names⟩⟩

theorem mem_segments_ofText
    {text segment : Text}
    (h : segment ∈ (ofText text).segments) :
    segment ≠ [] ∧ segment ≠ here ∧ '/' ∉ segment := by
  simp only [ofText, List.mem_filter, decide_eq_true_eq] at h
  rcases h with ⟨hPiece, hNonempty, hHere⟩
  exact ⟨hNonempty, hHere, Text.not_mem_of_mem_pieces hPiece⟩

/- A walk from the root passes names only. -/
theorem isName_of_mem_walk
    {place segments : List Text}
    (hPlace : ∀ segment ∈ place, IsName segment)
    (hSegments : ∀ segment ∈ segments,
      segment ≠ above → IsName segment) :
    ∀ segment ∈ walk true place segments,
      IsName segment := by
  induction segments generalizing place with
  | nil =>
      simpa only [walk] using hPlace
  | cons first more ih =>
      have hMore : ∀ segment ∈ more,
          segment ≠ above → IsName segment :=
        fun segment hMem => hSegments segment (by simp [hMem])
      simp only [walk]
      split
      · split
        · exact ih (by simp) hMore
        · next last rest =>
            have hLast := (hPlace last (by simp)).notAbove
            rw [if_neg hLast]
            exact ih (fun segment hMem =>
              hPlace segment (by simp [hMem])) hMore
      · next hFirst =>
          refine ih ?_ hMore
          intro segment hMem
          rcases List.mem_cons.mp hMem with rfl | hRest
          · exact hSegments segment (by simp) hFirst
          · exact hPlace segment hRest

/- What is meant in a canonical directory is canonical. -/
theorem IsCanonical.resolve
    {directory : Path}
    (h : directory.IsCanonical)
    (text : Text) :
    (resolve directory text).IsCanonical := by
  have hOfText : ∀ segment ∈ (ofText text).segments,
      segment ≠ above → IsName segment := by
    intro segment hMem hAbove
    rcases mem_segments_ofText hMem with
      ⟨hNonempty, hHere, hSlash⟩
    exact ⟨hNonempty, hHere, hAbove, hSlash⟩
  have hJoin : 0 < (directory.join (ofText text)).slashes ∧
      ∀ segment ∈ (directory.join (ofText text)).segments,
        segment ≠ above → IsName segment := by
    unfold join
    split
    · next hAbsolute =>
        refine ⟨by simpa [isAbsolute] using hAbsolute, ?_⟩
        exact hOfText
    · refine ⟨h.absolute, fun segment hMem hAbove => ?_⟩
      rcases List.mem_append.mp hMem with hBase | hText
      · exact h.names segment hBase
      · exact hOfText segment hText hAbove
  refine ⟨hJoin.1, ?_⟩
  intro segment hMem
  have hWalk := List.mem_reverse.mp hMem
  rw [isAbsolute, decide_eq_true hJoin.1] at hWalk
  exact isName_of_mem_walk (by simp) hJoin.2 segment hWalk

/- A directory is above what stands in it. -/
theorem parent_isPrefix
    (path : Path) :
    path.parent.segments <+: path.segments :=
  List.dropLast_prefix _

theorem IsCanonical.parent
    (h : path.IsCanonical) :
    path.parent.IsCanonical :=
  ⟨h.absolute, fun segment hMem =>
    h.names segment (List.dropLast_subset _ hMem)⟩

theorem IsCanonical.included
    {file : Path}
    (h : file.IsCanonical)
    (include_ : Text) :
    (file.included include_).IsCanonical :=
  h.parent.resolve include_

-- Places Below a Root

theorem after?_eq_some_iff
    {above path below : List Text} :
    after? above path = some below ↔
      path = above ++ below := by
  induction above generalizing path with
  | nil => simp [after?, eq_comm]
  | cons first more ih =>
      cases path with
      | nil => simp [after?]
      | cons segment rest =>
          by_cases hSame : first = segment
          · subst hSame
            simp [after?, ih]
          · simp [after?, hSame, Ne.symm hSame]

theorem below?_eq_some_iff
    {root path : Path}
    {below : List Text} :
    below? root path = some below ↔
      below ≠ [] ∧
        path.segments = root.segments ++ below := by
  unfold below?
  constructor
  · intro h
    split at h
    · next hAfter =>
        cases h
        exact ⟨by simp, after?_eq_some_iff.mp hAfter⟩
    · cases h
  · rintro ⟨hBelow, hSegments⟩
    rw [after?_eq_some_iff.mpr hSegments]
    cases below with
    | nil => exact absurd rfl hBelow
    | cons segment more => rfl

-- Places of Modules

/- No name is left out of a path. -/
theorem filter_names
    {segments : List Text}
    (h : ∀ segment ∈ segments, IsName segment) :
    (segments.filter fun segment =>
      segment ≠ [] ∧ segment ≠ here) = segments := by
  refine List.filter_eq_self.mpr fun segment hMem => ?_
  have hName := h segment hMem
  simp [hName.nonempty, hName.notHere]

theorem ofText_joined
    {segments : List Text}
    (hSegments : segments ≠ [])
    (hNames : ∀ segment ∈ segments, IsName segment) :
    ofText (Text.joined ['/'] segments) = ⟨0, segments⟩ := by
  have hLeading :
      leading (Text.joined ['/'] segments) = 0 := by
    cases segments with
    | nil => exact absurd rfl hSegments
    | cons first more =>
        have hFirst := hNames first (by simp)
        cases first with
        | nil => exact absurd rfl hFirst.nonempty
        | cons c rest =>
            have hSlash : c ≠ '/' := by
              rintro rfl
              exact hFirst.unslashed (by simp)
            cases more with
            | nil => simp [leading, hSlash]
            | cons second others =>
                simp [Text.joined_cons_cons, leading, hSlash]
  have hPieces := Text.pieces_joined hSegments
    fun segment hMem => (hNames segment hMem).unslashed
  simp only [ofText, hLeading, hPieces, filter_names hNames]

/- The name of the module of a source of a given name. -/
def moduleName
    (name : Text) : Text :=
  moduleStem name ++ outputExtension

theorem moduleStem_cases
    (h : '/' ∉ name) :
    moduleStem name = name ∨
      (moduleStem name ≠ [] ∧ moduleStem name <+: name) := by
  simp only [moduleStem, Text.afterLast_of_not_mem h]
  split
  · exact .inl rfl
  · next hStem =>
      refine .inr ⟨by simpa using hStem, ?_⟩
      have hThrough : Text.throughLast '.' name <+: name := by
        rw [Text.throughLast, ← List.reverse_suffix,
          List.reverse_reverse]
        exact List.dropWhile_suffix _
      exact (List.dropLast_prefix _).trans hThrough

/- Without slashes, a module has a name whatever it is of. -/
theorem isName_moduleName_of_unslashed
    (h : '/' ∉ name) :
    IsName (moduleName name) := by
  have hStem : '/' ∉ moduleStem name := by
    rcases moduleStem_cases h with hSame | hShort
    · rw [hSame]
      exact h
    · exact fun hMem => h (hShort.2.subset hMem)
  have hLength : 3 ≤ (moduleName name).length := by
    simp only [moduleName, outputExtension,
      List.length_append]
    have hExtension : ".ts".toList.length = 3 := rfl
    omega
  refine ⟨?_, ?_, ?_, ?_⟩
  · intro hNil
    simp [hNil] at hLength
  · intro hHere
    simp [hHere, here] at hLength
  · intro hAbove
    simp [hAbove, above] at hLength
  · simp [moduleName, outputExtension, hStem]

/- The module of a source has a name again. -/
theorem isName_moduleName
    (h : IsName name) :
    IsName (moduleName name) :=
  isName_moduleName_of_unslashed h.unslashed

/- A module goes where its source is, under another name. -/
theorem output_joined
    {root : Path}
    {directories : List Text}
    (hDirectories : ∀ segment ∈ directories, IsName segment)
    (hName : IsName name) :
    root.output
        (Text.joined ['/'] (directories ++ [name])) =
      { root with
        segments :=
          root.segments ++
            (directories ++ [moduleName name]) } := by
  have hNames (last : Text) (hLast : IsName last) :
      ∀ segment ∈ directories ++ [last], IsName segment := by
    intro segment hMem
    rcases List.mem_append.mp hMem with hBefore | hEnd
    · exact hDirectories segment hBefore
    · rw [List.mem_singleton.mp hEnd]
      exact hLast
  have hSpelled :
      (ofText (Text.joined ['/']
          (directories ++ [name]))).text =
        Text.joined ['/'] (directories ++ [name]) := by
    rw [ofText_joined (by simp) (hNames name hName)]
    simp [text]
  have hReplaced :
      replaceExtension
          (Text.joined ['/'] (directories ++ [name])) =
        Text.joined ['/']
          (directories ++ [moduleName name]) := by
    unfold replaceExtension
    rw [Text.afterLast_joined hName.unslashed,
      List.append_assoc]
    exact Text.throughLast_joined hName.unslashed _ _
  unfold output
  rw [hSpelled, hReplaced, ofText_joined (by simp)
    (hNames _ (isName_moduleName hName))]
  simp [join, isAbsolute]

-- Legal Paths

/- Is the path short enough for the file system? -/
def IsShort
    (path : Path) : Prop :=
  (Utf8.encode path.text).length ≤ pathLimit

/- May the path be asked for, whatever is there? -/
structure IsLegal
    (path : Path) : Prop where
  unnulled : '\x00' ∉ path.text
  short : path.IsShort
  named : ∀ segment ∈ path.segments,
    (Utf8.encode segment).length ≤ nameLimit

/- A canonical path starts as the directory it lies in. -/
theorem IsCanonical.text_parent_prefix
    (h : path.IsCanonical) :
    path.parent.text <+: path.text := by
  have hText (other : Path) (hOther : 0 < other.slashes) :
      other.text =
        List.replicate other.slashes '/' ++
          Text.joined ['/'] other.segments := by
    rw [text, if_neg]
    omega
  rw [hText _ h.absolute, hText _ h.parent.absolute]
  refine (List.prefix_append_right_inj _).mpr ?_
  by_cases hSegments : path.segments = []
  · simp [Path.parent, hSegments]
  · have hLast := List.dropLast_concat_getLast hSegments
    by_cases hParent : path.segments.dropLast = []
    · simp [Path.parent, hParent]
    · rw [← hLast,
        Text.joined_append_singleton _ _ hParent,
        List.append_assoc]
      exact List.prefix_append _ _

theorem length_encode_le
    {first second : Text}
    (h : first <+: second) :
    (Utf8.encode first).length ≤
      (Utf8.encode second).length := by
  rcases h with ⟨rest, rfl⟩
  simp only [Utf8.encode, List.flatMap_append,
    List.length_append]
  omega

/- What may be asked for lies in what may be asked for. -/
theorem IsLegal.parent
    (hCanonical : path.IsCanonical)
    (h : path.IsLegal) :
    path.parent.IsLegal := by
  have hPrefix := hCanonical.text_parent_prefix
  refine ⟨fun hNull => h.unnulled (hPrefix.subset hNull),
    (length_encode_le hPrefix).trans h.short, ?_⟩
  intro segment hMem
  exact h.named segment (List.dropLast_subset _ hMem)

/- The same for all that is above. -/
theorem IsLegal.of_prefix
    {path root : Path}
    (hCanonical : path.IsCanonical)
    (h : path.IsLegal)
    (hSlashes : root.slashes = path.slashes)
    (hSegments : root.segments <+: path.segments) :
    root.IsLegal := by
  rcases hSegments with ⟨below, hBelow⟩
  induction below using List.reverseRecOn
    generalizing path with
  | nil =>
      have hSame : root = path := by
        cases root
        cases path
        simp_all
      exact hSame ▸ h
  | append_singleton below name ih =>
      refine ih hCanonical.parent (h.parent hCanonical)
        hSlashes ?_
      rw [Path.parent, ← hBelow, ← List.append_assoc,
        List.dropLast_concat]

end Path

end ThriftTypings
