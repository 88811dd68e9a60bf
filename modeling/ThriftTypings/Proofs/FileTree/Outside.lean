import ThriftTypings.Proofs.FileTree.Growth

/-
  This file proves that a tree matters only by what stands
  where, says what is left of a tree without what stands at
  a path, and which places a path stands for.

  Key definitions include:
    * `FileTree.Same`
    * `FileTree.outside` and `FileTree.AgreeOutside`

  Key theorems include:
    * `FileTree.clears_erase`
    * `FileTree.Spot.Grows.covers_or_liesOver`
-/

namespace ThriftTypings

namespace FileTree

variable {tree one two : FileTree} {place : Place}
variable {path : Path}

-- Trees with the Same Entries

/- Does the same stand everywhere in two trees? -/
def Same
    (one two : FileTree) : Prop :=
  ∀ place, one.get? place = two.get? place

theorem Same.symm
    (h : Same one two) :
    Same two one :=
  fun place => (h place).symm

/- What is put at the root changes nothing. -/
theorem get?_put_root
    (tree : FileTree)
    (entry : Entry)
    (other : Place) :
    (tree.put [] entry).get? other = tree.get? other := by
  by_cases hOther : other = []
  · rw [hOther]
    rfl
  · have hFilter := lookup_filter (fun found => found != [])
      tree.entries other
    have hKept : (other != []) = true := by
      simpa using hOther
    have hNot : (other == []) = false := by
      simpa using hOther
    simp only [hKept, if_true] at hFilter
    simp only [get?, put, List.lookup_cons, hNot, hFilter,
      hOther, if_false]

namespace Same

variable (h : Same one two)
include h

theorem put
    (place : Place)
    (entry : Entry) :
    Same (one.put place entry) (two.put place entry) := by
  intro other
  by_cases hRoot : place = []
  · rw [hRoot, get?_put_root, get?_put_root]
    exact h other
  · rw [get?_put hRoot, get?_put hRoot, h other]

theorem follow
    (last : Bool)
    (links : Nat)
    (place : Place)
    (names : List Text) :
    one.follow last links place names =
      two.follow last links place names := by
  have hGet : one.get? = two.get? := funext h
  induction links generalizing place names with
  | zero =>
      induction names generalizing place with
      | nil => rw [FileTree.follow, FileTree.follow]
      | cons name more ih =>
          rw [FileTree.follow, FileTree.follow]
          simp only [hGet, ih]
  | succ fewer ihLinks =>
      induction names generalizing place with
      | nil => rw [FileTree.follow, FileTree.follow]
      | cons name more ih =>
          rw [FileTree.follow, FileTree.follow]
          simp only [hGet, ih, ihLinks]

theorem find
    (last : Bool)
    (path : Path) :
    one.find last path = two.find last path := by
  unfold FileTree.find
  rw [h.follow]

theorem isDirectoryAt
    (place : Place) :
    one.isDirectoryAt place = two.isDirectoryAt place := by
  unfold FileTree.isDirectoryAt
  rw [h place]

theorem isDirectory
    (path : Path) :
    one.isDirectory path = two.isDirectory path := by
  unfold FileTree.isDirectory
  rw [h.find]
  split
  · exact h.isDirectoryAt _
  · rfl

theorem read
    (path : Path) :
    one.read path = two.read path := by
  unfold FileTree.read
  rw [h.find]
  simp only [h _]

/- Both trees are written alike, or refuse alike. -/
theorem write
    (path : Path)
    (content : List UInt8) :
    (∃ fault, one.write path content = .error fault ∧
        two.write path content = .error fault) ∨
      ∃ first second, one.write path content = .ok first ∧
        two.write path content = .ok second ∧
        Same first second := by
  unfold FileTree.write
  rw [h.find]
  cases two.find true path with
  | error fault => exact .inl ⟨fault, rfl, rfl⟩
  | ok located =>
      cases located with
      | missing place =>
          exact .inr ⟨_, _, rfl, rfl, h.put place _⟩
      | present place =>
          dsimp only
          rw [h.isDirectoryAt]
          split
          · exact .inl ⟨_, rfl, rfl⟩
          · exact .inr ⟨_, _, rfl, rfl, h.put place _⟩

theorem makeDirectory
    (path : Path) :
    (∃ fault, one.makeDirectory path = .error fault ∧
        two.makeDirectory path = .error fault) ∨
      ∃ first second, one.makeDirectory path = .ok first ∧
        two.makeDirectory path = .ok second ∧
        Same first second := by
  unfold FileTree.makeDirectory
  rw [h.find]
  cases two.find false path with
  | error fault => exact .inl ⟨fault, rfl, rfl⟩
  | ok located =>
      cases located with
      | missing place =>
          exact .inr ⟨_, _, rfl, rfl, h.put place _⟩
      | present place => exact .inl ⟨_, rfl, rfl⟩

/- Directories are made alike in both trees. -/
theorem makeDirectories
    (path : Path) :
    (one.makeDirectories path).1 =
        (two.makeDirectories path).1 ∧
      Same (one.makeDirectories path).2
        (two.makeDirectories path).2 := by
  generalize hLength : path.segments.length = length
  induction length using Nat.strong_induction_on
    generalizing path with
  | _ length ih =>
  rw [makeDirectories.eq_def one path,
    makeDirectories.eq_def two path]
  rcases h.makeDirectory path with
    ⟨fault, hOne, hTwo⟩ | ⟨first, second, hOne, hTwo, hMade⟩
  · rw [hOne, hTwo]
    dsimp only
    by_cases hMissing : fault.isNotFound = true
    · rw [if_pos hMissing, if_pos hMissing]
      by_cases hRoot : path.segments = []
      · rw [dif_pos hRoot, dif_pos hRoot]
        exact ⟨rfl, h⟩
      · rw [dif_neg hRoot, dif_neg hRoot]
        have hShorter :
            path.parent.segments.length < length := by
          have hPositive := List.length_pos_iff.mpr hRoot
          simp only [Path.parent, List.length_dropLast]
          omega
        have hParent := ih _ hShorter path.parent rfl
        rcases hFirst : one.makeDirectories path.parent with
          ⟨answer, partly⟩
        rcases hSecond : two.makeDirectories path.parent with
          ⟨again, other⟩
        rw [hFirst, hSecond] at hParent
        rcases hParent with ⟨hAnswer, hPartly⟩
        dsimp only at hAnswer
        rw [← hAnswer]
        cases answer with
        | error above => exact ⟨rfl, hPartly⟩
        | ok _ =>
            dsimp only
            rcases hPartly.makeDirectory path with
              ⟨cause, hLeft, hRight⟩ |
                ⟨left, right, hLeft, hRight, hMade⟩
            · rw [hLeft, hRight]
              dsimp only
              rw [hPartly.isDirectory path]
              split
              · exact ⟨rfl, hPartly⟩
              · exact ⟨rfl, hPartly⟩
            · rw [hLeft, hRight]
              exact ⟨rfl, hMade⟩
    · rw [if_neg hMissing, if_neg hMissing,
        h.isDirectory path]
      split
      · exact ⟨rfl, h⟩
      · exact ⟨rfl, h⟩
  · rw [hOne, hTwo]
    exact ⟨rfl, hMade⟩

end Same

-- What Is Left Without a Path

/-
  What stands at a place that is not at or below what a path
  leads to. A last link is not followed.
-/
def outside
    (tree : FileTree)
    (path : Path)
    (place : Place) : Option Entry :=
  match tree.find false path with
  | .ok (.present root) =>
      if root <+: place then none else tree.get? place
  | _ => tree.get? place

/- Is nothing at the path, or a directory and no link? -/
def IsClearable
    (tree : FileTree)
    (path : Path) : Prop :=
  ∀ place, tree.find false path = .ok (.present place) →
    tree.get? place = some .directory

/- Do two trees differ only at a path and below it? -/
def AgreeOutside
    (path : Path)
    (one two : FileTree) : Prop :=
  ∀ place, one.outside path place = two.outside path place

theorem outside_of_absent
    (h : tree.isThere path = false) :
    tree.outside path = tree.get? := by
  funext place
  unfold outside
  split
  · next hFind => simp [isThere, hFind] at h
  · rfl

theorem outside_of_present
    {root : Place}
    (h : tree.find false path = .ok (.present root)) :
    tree.outside path =
      fun place =>
        if root <+: place then none else tree.get? place := by
  funext place
  rw [outside, h]

/- What is left once nothing is at a path any more. -/
structure Clears
    (tree : FileTree)
    (path : Path)
    (left : FileTree) : Prop where
  rooted : left.IsRooted
  absent : left.isThere path = false
  entries : left.get? = tree.outside path

theorem clears_self
    (hRooted : tree.IsRooted)
    (hAbsent : tree.isThere path = false) :
    tree.Clears path tree :=
  ⟨hRooted, hAbsent, (outside_of_absent hAbsent).symm⟩

/- Removing a directory with all below it clears a path. -/
theorem clears_erase
    {root : Place}
    (hRooted : tree.IsRooted)
    (hRoot : root ≠ [])
    (hFind : tree.find false path = .ok (.present root)) :
    tree.Clears path (tree.erase root) := by
  have hErased := hRooted.erase hRoot
  refine ⟨hErased, ?_, ?_⟩
  · have hKeeps : Keeps (tree.erase root) tree :=
      fun _ _ => get?_of_erase
    unfold isThere
    split
    · next place hThere =>
        exfalso
        rcases find_iff_way.mp hThere with ⟨hAskable, hWay⟩
        have hSame := find_iff_way.mpr
          ⟨hAskable, hWay.persists hKeeps⟩
        rw [hFind] at hSame
        cases hSame
        rcases hWay.entry hErased rfl with ⟨entry, hEntry⟩
        rw [get?_erase hRoot, if_pos List.prefix_rfl]
          at hEntry
        cases hEntry
    · rfl
  · rw [outside_of_present hFind]
    funext place
    exact get?_erase hRoot place

/- What is left is the same if all outside was the same. -/
theorem Clears.same
    {left right : FileTree}
    (hOne : one.Clears path left)
    (hTwo : two.Clears path right)
    (h : AgreeOutside path one two) :
    Same left right := by
  intro place
  rw [hOne.entries, hTwo.entries]
  exact h place

-- Places That a Path Stands For

/- Is the place in the directory that a path denotes? -/
def Covers
    (tree : FileTree)
    (path : Path)
    (place : Place) : Prop :=
  ∃ root, tree.Denotes path root ∧ root <+: place

/- What is cleared was in the directory of the path. -/
theorem Clears.covers
    {left : FileTree}
    (h : tree.Clears path left)
    (hClearable : tree.IsClearable path)
    (hChanged : left.get? place ≠ tree.get? place) :
    tree.Covers path place := by
  rw [h.entries, outside] at hChanged
  split at hChanged
  · next root hFind =>
      have hEntry := hClearable root hFind
      rcases find_iff_way.mp hFind with ⟨hAskable, hWay⟩
      refine ⟨root, ⟨find_iff_way.mpr
        ⟨hAskable, hWay.asked hEntry⟩, hEntry⟩, ?_⟩
      by_contra hOutside
      rw [if_neg hOutside] at hChanged
      exact hChanged rfl
  · exact absurd rfl hChanged

/- All that was in the directory of the path is cleared. -/
theorem Clears.vacant
    {left : FileTree}
    (h : tree.Clears path left)
    (hClearable : tree.IsClearable path)
    (hCovers : tree.Covers path place) :
    left.get? place = none := by
  rcases hCovers with ⟨root, hDenotes, hPlace⟩
  rcases hDenotes.before_link with
    hFind | ⟨first, target, hFind, hLink⟩
  · rw [h.entries, outside_of_present hFind]
    exact if_pos hPlace
  · rw [hClearable first hFind] at hLink
    cases hLink

/- Is the place that of a directory above a path? -/
def LiesOver
    (tree : FileTree)
    (path : Path)
    (place : Place) : Prop :=
  ∃ above : Path, above.slashes = path.slashes ∧
    above.segments <+: path.segments ∧
    above.segments ≠ path.segments ∧
    tree.Denotes above place

/- What stands below a path, by the names from there. -/
def under
    (tree : FileTree)
    (path : Path)
    (names : List Text) : Option Entry :=
  match tree.find false path with
  | .ok (.present root) => tree.get? (root ++ names)
  | _ => none

theorem Same.under
    (h : Same one two)
    (path : Path) :
    one.under path = two.under path := by
  funext names
  unfold FileTree.under
  rw [h.find]
  split
  · exact h _
  · rfl

namespace Spot

variable {root : Path} {spot : Spot tree root}
variable {now : FileTree}

/- Where the path itself is, or would be. -/
def whole
    (spot : Spot tree root) : Place :=
  spot.base ++ spot.tail

theorem Admits.of_prefix
    {names front : List Text}
    {entry : Entry}
    (h : spot.Admits names entry)
    (hFront : front <+: names)
    (hTail : front <+: spot.tail) :
    spot.Admits front .directory where
  named := fun name hMem => h.named name (hFront.subset hMem)
  short := fun name hMem => h.short name (hFront.subset hMem)
  comparable := .inl hTail
  directory := fun _ => rfl
  linkless := by simp

namespace Grows

/- What is new is in the directory of the path or above it. -/
theorem covers_or_liesOver
    (h : spot.Grows now)
    (hRoot : root.IsCanonical)
    (hAskable : root.IsAskable)
    {place : Place}
    (hChanged : now.get? place ≠ tree.get? place) :
    now.Covers root place ∨
      tree.get? place = none ∧ now.LiesOver root place := by
  have hFree : spot.free <+: place := by
    by_contra hOutside
    exact hChanged (h.kept place hOutside)
  have hNone := spot.vacant place hFree
  rw [hNone] at hChanged
  rcases Option.ne_none_iff_exists'.mp hChanged with
    ⟨entry, hEntry⟩
  rcases h.listed place entry hFree hEntry with
    ⟨names, hPlace, hAdmits⟩
  rw [hPlace] at hFree hEntry ⊢
  have hNames : names ≠ [] := by
    intro hNil
    have hLength := hFree.length_le
    simp only [hNil, free, List.append_nil,
      List.length_append, List.length_singleton] at hLength
    omega
  by_cases hBelow : spot.tail <+: names
  · left
    have hWhole : now.get? (spot.base ++ spot.tail) =
        some .directory := by
      by_cases hSame : spot.tail = names
      · rw [hSame, hEntry,
          hAdmits.directory (hSame ▸ List.prefix_rfl)]
      · apply h.rooted.directory_above hEntry
        · exact (List.prefix_append_right_inj _).mpr hBelow
        · simpa using hSame
    refine ⟨spot.base ++ spot.tail, ?_,
      (List.prefix_append_right_inj _).mpr hBelow⟩
    exact (h.denotes hAskable
      (hAdmits.of_prefix hBelow List.prefix_rfl)
      spot.segments (by simp [tail]) hWhole).2
  · right
    have hAbove := hAdmits.comparable.resolve_right hBelow
    have hSegments : spot.front ++ names <+:
        root.segments := by
      rw [spot.segments]
      exact (List.prefix_append_right_inj _).mpr hAbove
    have hCanonical :
        (⟨root.slashes, spot.front ++ names⟩ :
          Path).IsCanonical :=
      ⟨hRoot.absolute, fun name hMem =>
        hRoot.names name (hSegments.subset hMem)⟩
    rw [hAdmits.directory hAbove] at hEntry
    refine ⟨hPlace ▸ hNone,
      ⟨root.slashes, spot.front ++ names⟩, rfl, hSegments,
      ?_, ?_⟩
    · intro hSame
      rw [spot.segments] at hSame
      apply hBelow
      rw [List.append_cancel_left hSame]
      exact List.prefix_rfl
    · exact (h.denotes
        (hAskable.of_prefix hCanonical hRoot rfl hSegments)
        (hAdmits.of_prefix List.prefix_rfl hAbove) rfl hNames
        hEntry).2

theorem free_prefix_whole
    (spot : Spot tree root) :
    spot.free <+: spot.whole :=
  free_isPrefix spot spot.rest

/- What stands at the path itself is a directory. -/
theorem whole_directory
    (h : spot.Grows now)
    {entry : Entry}
    (hEntry : now.get? spot.whole = some entry) :
    spot.Admits spot.tail .directory ∧
      now.get? spot.whole = some .directory := by
  rcases h.listed _ _ (free_prefix_whole spot) hEntry with
    ⟨names, hPlace, hAdmits⟩
  rw [← List.append_cancel_left hPlace] at hAdmits
  have hDirectory := hAdmits.directory List.prefix_rfl
  rw [hDirectory] at hAdmits hEntry
  exact ⟨hAdmits, hEntry⟩

/- The path leads to its own place, if it leads anywhere. -/
theorem find_iff
    (h : spot.Grows now)
    (hRoot : root.IsCanonical)
    (hAskable : root.IsAskable)
    (place : Place) :
    now.find false root = .ok (.present place) ↔
      place = spot.whole ∧
        now.get? spot.whole = some .directory := by
  constructor
  · intro hFind
    have hWay := (find_iff_way.mp hFind).2
    rcases hWay.entry h.rooted rfl with ⟨entry, hEntry⟩
    rw [spot.segments] at hWay
    have hNames : ∀ name ∈ spot.name :: spot.rest,
        Path.IsName name := by
      intro name hMem
      apply hRoot.names
      rw [spot.segments]
      exact List.mem_append_right _ hMem
    have hPlace : place = spot.whole :=
      (h.place_eq hNames hWay).1
    rw [hPlace] at hEntry
    exact ⟨hPlace, (h.whole_directory hEntry).2⟩
  · intro hWhole
    rcases hWhole with ⟨hPlace, hEntry⟩
    rw [hPlace]
    exact (h.denotes hAskable (h.whole_directory hEntry).1
      spot.segments (by simp [tail]) hEntry).1

theorem isClearable
    (h : spot.Grows now)
    (hRoot : root.IsCanonical)
    (hAskable : root.IsAskable) :
    now.IsClearable root := by
  intro place hFind
  rcases (h.find_iff hRoot hAskable place).mp hFind with
    ⟨hPlace, hEntry⟩
  rw [hPlace]
  exact hEntry

end Grows

end Spot

end FileTree

end ThriftTypings
