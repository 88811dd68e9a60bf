import ThriftTypings.Proofs.FileTree.Outside

/-
  This file proves that directories above a path that were
  made before do not matter to what is made at the path
  later on.

  A tree is opened if it has grown at a free place by such
  directories alone. Whatever can be made below the path in
  one opened tree can be made in another one, and after that
  the two trees are the same.

  Key definitions include:
    * `FileTree.Spot.Opens`
    * `FileTree.Spot.Chained`

  Key theorems include:
    * `FileTree.Spot.Opens.same_makeDirectories`
    * `FileTree.Spot.Opens.not_write`
-/

namespace ThriftTypings

namespace FileTree

variable {names : List Text} {name : Text}

variable {tree now : FileTree} {place : Place}
variable {path root : Path}

namespace Spot

variable {spot : Spot tree root}

-- Opened Trees

/-
  A tree that has grown at a free place by nothing but
  directories above the path.
-/
structure Opens
    (spot : Spot tree root)
    (now : FileTree) : Prop where
  grows : spot.Grows now
  absent : now.get? spot.whole = none

theorem opens
    (spot : Spot tree root)
    (hRooted : tree.IsRooted) :
    spot.Opens tree where
  grows := spot.grows hRooted
  absent := spot.vacant _ (Grows.free_prefix_whole spot)

/- Without what stands at the path, no more is left. -/
theorem Grows.opens_outside
    (h : spot.Grows now)
    (hRoot : root.IsCanonical)
    (hAskable : root.IsAskable)
    {left : FileTree}
    (hLeft : left.get? = now.outside root) :
    spot.Opens left := by
  have hGet (place : Place) : left.get? place =
      if spot.whole <+: place then none
      else now.get? place := by
    rw [hLeft]
    cases hEntry : now.get? spot.whole with
    | some entry =>
        have hFind := (h.find_iff hRoot hAskable _).mpr
          ⟨rfl, (h.whole_directory hEntry).2⟩
        rw [outside_of_present hFind]
    | none =>
        have hAbsent : now.isThere root = false := by
          unfold isThere
          split
          · next hFind =>
              have hWhole :=
                (h.find_iff hRoot hAskable _).mp hFind
              rw [hWhole.2] at hEntry
              cases hEntry
          · rfl
        rw [outside_of_absent hAbsent]
        split
        · next hBelow =>
            exact h.rooted.none_below hEntry hBelow
        · rfl
  have hSome {place : Place} {entry : Entry}
      (hEntry : left.get? place = some entry) :
      ¬ spot.whole <+: place ∧
        now.get? place = some entry := by
    rw [hGet] at hEntry
    split at hEntry
    · cases hEntry
    · next hOutside => exact ⟨hOutside, hEntry⟩
  refine ⟨⟨?_, ?_, ?_⟩, ?_⟩
  · intro place name entry hEntry
    rcases hSome hEntry with ⟨hOutside, hNow⟩
    rw [hGet, if_neg]
    · exact h.rooted place name entry hNow
    · intro hBelow
      exact hOutside (hBelow.trans (List.prefix_append _ _))
  · intro place hOutside
    rw [hGet, if_neg, h.kept place hOutside]
    intro hBelow
    exact hOutside ((Grows.free_prefix_whole spot).trans
      hBelow)
  · intro place entry hFree hEntry
    exact h.listed place entry hFree (hSome hEntry).2
  · rw [hGet, if_pos List.prefix_rfl]

/- There is nothing at the path in an opened tree. -/
theorem Opens.under_eq
    (h : spot.Opens now)
    (hRoot : root.IsCanonical)
    (hAskable : root.IsAskable) :
    now.under root = fun _ => none := by
  funext names
  unfold under
  split
  · next hFind =>
      have hWhole :=
        (h.grows.find_iff hRoot hAskable _).mp hFind
      rw [h.absent] at hWhole
      cases hWhole.2
  · rfl

/-
  If the directory above the path is there, nothing but the
  path itself is missing.
-/
theorem rest_eq_nil
    (spot : Spot tree root)
    (hRooted : tree.IsRooted)
    (hRoot : root.IsCanonical)
    (h : tree.isDirectory root.parent = true) :
    spot.rest = [] := by
  by_contra hRest
  unfold isDirectory at h
  split at h
  · next place hFind =>
      have hWay := (find_iff_way.mp hFind).2
      rcases hWay.entry hRooted rfl with ⟨entry, hEntry⟩
      have hSegments : root.parent.segments =
          spot.front ++ spot.name :: spot.rest.dropLast := by
        rw [Path.parent, spot.segments,
          List.dropLast_append_of_ne_nil (by simp),
          List.dropLast_cons_of_ne_nil hRest]
      have hNames : ∀ name ∈ spot.name :: spot.rest.dropLast,
          Path.IsName name := by
        intro name hMem
        apply hRoot.parent.names
        rw [hSegments]
        exact List.mem_append_right _ hMem
      rw [hSegments] at hWay
      have hPlace : place = spot.base ++ spot.name ::
          spot.rest.dropLast :=
        ((spot.grows hRooted).place_eq hNames hWay).1
      rw [spot.vacant place] at hEntry
      · cases hEntry
      · rw [hPlace]
        exact Grows.free_isPrefix spot _
  · cases h

theorem Opens.same
    (h : spot.Opens now)
    (hRest : spot.rest = []) :
    Same now tree := by
  have hWhole : spot.whole = spot.free := by
    simp [whole, tail, free, hRest]
  intro place
  by_cases hFree : spot.free <+: place
  · rw [spot.vacant place hFree]
    apply h.grows.rooted.none_below h.absent
    rw [hWhole]
    exact hFree
  · exact h.grows.kept place hFree

/- What an opened tree has at the free place. -/
theorem Opens.listed
    (h : spot.Opens now)
    {entry : Entry}
    (hFree : spot.free <+: spot.base ++ names)
    (hEntry : now.get? (spot.base ++ names) = some entry) :
    entry = .directory ∧ names <+: spot.tail := by
  rcases h.grows.listed _ _ hFree hEntry with
    ⟨found, hPlace, hAdmits⟩
  rw [← List.append_cancel_left hPlace] at hAdmits
  rcases hAdmits.comparable with hAbove | hBelow
  · exact ⟨hAdmits.directory hAbove, hAbove⟩
  · rw [h.grows.rooted.none_below h.absent
      ((List.prefix_append_right_inj _).mpr hBelow)] at hEntry
    cases hEntry

end Spot

-- How Directories Come to Be Made

theorem makeDirectories_of_missing
    (h : tree.find false path = .ok (.missing place)) :
    tree.makeDirectories path =
      (.ok (), tree.put place .directory) := by
  have hMade : tree.makeDirectory path =
      .ok (tree.put place .directory) := by
    rw [makeDirectory, h]
  rw [makeDirectories, hMade]

theorem makeDirectories_of_present
    (h : tree.find false path = .ok (.present place))
    (hDirectory : tree.isDirectory path = true) :
    tree.makeDirectories path = (.ok (), tree) := by
  have hMade : tree.makeDirectory path =
      .error (refusal .alreadyThere path) := by
    rw [makeDirectory, h]
  have hFault : (refusal .alreadyThere path).isNotFound =
      false := rfl
  rw [makeDirectories, hMade]
  dsimp only
  rw [hFault, if_neg Bool.false_ne_true, if_pos hDirectory]

/- What is missing above is made first. -/
theorem makeDirectories_above
    (hSegments : path.segments ≠ [])
    (h : tree.find false path =
      .error (refusal .notFound path)) :
    tree.makeDirectories path =
      match tree.makeDirectories path.parent with
      | (.error above, partly) => (.error above, partly)
      | (.ok (), partly) =>
          match partly.makeDirectory path with
          | .ok made => (.ok (), made)
          | .error again =>
              if !again.isNotFound &&
                  partly.isDirectory path then
                (.ok (), partly)
              else
                (.error again, partly) := by
  have hMade : tree.makeDirectory path =
      .error (refusal .notFound path) := by
    rw [makeDirectory, h]
  have hFault : (refusal .notFound path).isNotFound =
      true := rfl
  rw [makeDirectories, hMade]
  exact (if_pos hFault).trans (dif_neg hSegments)

theorem makeDirectories_of_notFound
    {partly : FileTree}
    (hSegments : path.segments ≠ [])
    (h : tree.find false path =
      .error (refusal .notFound path))
    (hParent : tree.makeDirectories path.parent =
      (.ok (), partly))
    (hPartly : partly.find false path =
      .ok (.missing place)) :
    tree.makeDirectories path =
      (.ok (), partly.put place .directory) := by
  have hLast : partly.makeDirectory path =
      .ok (partly.put place .directory) := by
    rw [makeDirectory, hPartly]
  rw [makeDirectories_above hSegments h, hParent]
  dsimp only
  rw [hLast]

/- Directories that were made are there. -/
theorem denotes_makeDirectories
    (h : (tree.makeDirectories path).1 = .ok ()) :
    ∃ place,
      (tree.makeDirectories path).2.Denotes path place := by
  have hMade {tree made : FileTree} {path : Path}
      (h : tree.makeDirectory path = .ok made) :
      ∃ place, made.Denotes path place := by
    unfold makeDirectory at h
    split at h
    · cases h
    · next place hFind =>
        cases h
        rcases find_iff_way.mp hFind with ⟨hAskable, hWay⟩
        rcases hWay.missing with ⟨above, name, hPlace, _, _⟩
        refine ⟨place, find_iff_way.mpr
          ⟨hAskable, hWay.made⟩, ?_⟩
        rw [get?_put (by simp [hPlace]), if_pos rfl]
    · cases h
  have hThere {tree : FileTree} {path : Path}
      (h : tree.isDirectory path = true) :
      ∃ place, tree.Denotes path place := by
    unfold isDirectory at h
    split at h
    · next place hFind =>
        exact ⟨place, hFind, by
          simpa [isDirectoryAt] using h⟩
    · cases h
  fun_induction makeDirectories tree path with
  | case1 path made hFirst => exact hMade hFirst
  | case2 => cases h
  | case3 => cases h
  | case4 path fault _ _ _ partly _ made hLast _ =>
      exact hMade hLast
  | case5 path fault _ _ _ partly _ again _ hIs _ =>
      exact hThere (Bool.and_eq_true_iff.mp hIs).2
  | case6 => cases h
  | case7 path fault _ _ hIs => exact hThere hIs
  | case8 => cases h

namespace Spot

variable {spot : Spot tree root}

/- A tree with a chain of directories from a free place on. -/
def Chained
    (spot : Spot tree root)
    (now : FileTree)
    (names : List Text)
    (after : FileTree) : Prop :=
  ∀ place, after.get? place =
    if spot.free <+: place ∧ place <+: spot.base ++ names then
      some .directory
    else
      now.get? place

theorem chained_self
    (spot : Spot tree root)
    (hRooted : now.IsRooted)
    (h : now.get? (spot.base ++ names) = some .directory) :
    spot.Chained now names now := by
  intro place
  split
  · next hChain =>
      by_cases hSame : place = spot.base ++ names
      · rw [hSame, h]
      · exact hRooted.directory_above h hChain.2 hSame
  · rfl

/- A chain goes on with one more directory. -/
theorem Chained.put
    {after : FileTree}
    (h : spot.Chained now names after)
    (hFree : [spot.name] <+: names ++ [name]) :
    spot.Chained now (names ++ [name])
      (after.put (spot.base ++ names ++ [name])
        .directory) := by
  intro place
  rw [get?_put (by simp), ← List.append_assoc]
  by_cases hSame : place = spot.base ++ names ++ [name]
  · rw [if_pos hSame, if_pos]
    rw [hSame]
    refine ⟨?_, List.prefix_rfl⟩
    rw [List.append_assoc]
    exact (List.prefix_append_right_inj _).mpr hFree
  · rw [if_neg hSame, h place]
    simp only [List.prefix_concat_iff, hSame, false_or]

/- What may be asked for is missing or not found. -/
theorem Grows.find_missing
    (h : spot.Grows now)
    {front rest : List Text}
    (hNames : ∀ other ∈ front ++ [name],
      Path.IsName other)
    (hShort : ∀ other ∈ front ++ [name],
      (Utf8.encode other).length ≤ nameLimit)
    (hAskable : path.IsAskable)
    (hSegments : path.segments =
      spot.front ++ (front ++ name :: rest))
    (hFront : now.get? (spot.base ++ front) =
      some .directory)
    (hNone : now.get? (spot.base ++ front ++ [name]) =
      none) :
    now.find false path =
      if rest = [] then
        .ok (.missing (spot.base ++ front ++ [name]))
      else
        .error (refusal .notFound path) := by
  rcases spot.leads.followed spot.directory with
    ⟨left, hLeft⟩
  have hFollow := follow_missing h.rooted hNames hShort
    hFront hNone rest false left
  rw [← hLeft now h.keeps false _ (by simp), ← hSegments]
    at hFollow
  rw [find_of_isAskable hAskable, hFollow]
  by_cases hRest : rest = []
  · rw [if_pos hRest, if_pos hRest]
  · rw [if_neg hRest, if_neg hRest]

/-
  If a name is not in a directory, neither is the one before
  it.
-/
theorem Opens.above
    (h : spot.Opens now)
    {front : List Text}
    (hFree : [spot.name] <+: front ++ [name])
    (hFront : now.get? (spot.base ++ front) ≠
      some .directory) :
    [spot.name] <+: front ∧
      now.get? (spot.base ++ front) = none := by
  cases front with
  | nil =>
      rw [List.append_nil] at hFront
      exact absurd (h.grows.keeps _ _ spot.directory) hFront
  | cons first others =>
      have hFirst : [spot.name] <+: first :: others := by
        rw [List.cons_append, List.cons_prefix_cons] at hFree
        rw [List.cons_prefix_cons]
        exact ⟨hFree.1, List.nil_prefix⟩
      refine ⟨hFirst, ?_⟩
      by_contra hThere
      rcases Option.ne_none_iff_exists'.mp hThere with
        ⟨entry, hEntry⟩
      have hListed := h.listed
        ((List.prefix_append_right_inj _).mpr hFirst) hEntry
      rw [hListed.1] at hEntry
      exact hFront hEntry

/- An absent place lies beyond the last directory. -/
theorem Opens.exists_gap
    (h : spot.Opens now)
    (hFree : [spot.name] <+: names)
    (hNone : now.get? (spot.base ++ names) = none) :
    ∃ front name rest,
      names = front ++ name :: rest ∧
        now.get? (spot.base ++ front) = some .directory ∧
        now.get? (spot.base ++ front ++ [name]) = none := by
  induction names using List.reverseRecOn with
  | nil =>
      have hLength := hFree.length_le
      simp at hLength
  | append_singleton front name ih =>
      by_cases hFront : now.get? (spot.base ++ front) =
          some .directory
      · refine ⟨front, name, [], rfl, hFront, ?_⟩
        rw [List.append_assoc]
        exact hNone
      · rcases h.above hFree hFront with ⟨hBefore, hGone⟩
        rcases ih hBefore hGone with
          ⟨before, other, rest, hSplit, hThere, hMissing⟩
        refine ⟨before, other, rest ++ [name], ?_, hThere,
          hMissing⟩
        rw [hSplit]
        simp

/-
  In an opened tree all directories can be made, on the way
  to the path and below it, if their names are short.
-/
theorem Opens.makeDirectories
    (h : spot.Opens now)
    {whole : List Text}
    (hTail : spot.tail <+: whole)
    (hNames : ∀ name ∈ whole, Path.IsName name)
    (hShort : ∀ name ∈ whole,
      (Utf8.encode name).length ≤ nameLimit)
    (hFree : [spot.name] <+: names)
    (hWhole : names <+: whole)
    (hPath : path.IsCanonical)
    (hAskable : path.IsAskable)
    (hSegments : path.segments = spot.front ++ names) :
    ∃ after, now.makeDirectories path = (.ok (), after) ∧
      spot.Chained now names after := by
  induction names using List.reverseRecOn
    generalizing path with
  | nil =>
      have hLength := hFree.length_le
      simp at hLength
  | append_singleton front name ih =>
      have hNamed : ∀ other ∈ front ++ [name],
          Path.IsName other :=
        fun other hMem => hNames other (hWhole.subset hMem)
      have hBrief : ∀ other ∈ front ++ [name],
          (Utf8.encode other).length ≤ nameLimit :=
        fun other hMem => hShort other (hWhole.subset hMem)
      cases hEntry : now.get?
          (spot.base ++ (front ++ [name])) with
      | some entry =>
          have hPlace : spot.free <+:
              spot.base ++ (front ++ [name]) :=
            (List.prefix_append_right_inj _).mpr hFree
          rw [(h.listed hPlace hEntry).1] at hEntry
          have hAdmits : spot.Admits (front ++ [name])
              .directory :=
            ⟨hNamed, hBrief,
              List.prefix_or_prefix_of_prefix hWhole hTail,
              fun _ => rfl, by simp⟩
          rcases h.grows.denotes hAskable hAdmits hSegments
            (by simp) hEntry with ⟨hFind, hDenotes⟩
          have hIs : now.isDirectory path = true := by
            simp [isDirectory, hDenotes.find, isDirectoryAt,
              hEntry]
          exact ⟨now, makeDirectories_of_present hFind hIs,
            chained_self spot h.grows.rooted hEntry⟩
      | none =>
          by_cases hFront : now.get? (spot.base ++ front) =
              some .directory
          · -- the directory above is there
            rw [← List.append_assoc] at hEntry
            have hFind := h.grows.find_missing hNamed hBrief
              hAskable hSegments hFront hEntry
            rw [if_pos rfl] at hFind
            refine ⟨_, makeDirectories_of_missing hFind, ?_⟩
            exact (chained_self spot h.grows.rooted
              hFront).put hFree
          · -- the directory above has to be made first
            rcases h.above hFree hFront with
              ⟨hBefore, hGone⟩
            rcases h.exists_gap hBefore hGone with
              ⟨before, other, rest, hSplit, hThere, hMissing⟩
            have hGap : before ++ [other] <+: whole := by
              refine List.IsPrefix.trans ?_ hWhole
              rw [hSplit]
              exact ⟨rest ++ [name], by simp⟩
            have hFind := h.grows.find_missing
              (fun o hMem => hNames o (hGap.subset hMem))
              (fun o hMem => hShort o (hGap.subset hMem))
              hAskable
              (show path.segments = spot.front ++
                  (before ++ other :: (rest ++ [name])) by
                rw [hSegments, hSplit]
                simp)
              hThere hMissing
            rw [if_neg (by simp)] at hFind
            have hParent : path.parent.segments =
                spot.front ++ front := by
              rw [Path.parent, hSegments,
                ← List.append_assoc, List.dropLast_concat]
            have hShorter : front <+: whole :=
              (List.prefix_append _ _).trans hWhole
            rcases ih hBefore hShorter hPath.parent
              (hAskable.of_prefix hPath.parent hPath rfl
                (Path.parent_isPrefix path)) hParent with
              ⟨partly, hPartly, hChained⟩
            have hRoot : root.segments <+:
                spot.front ++ whole := by
              rw [spot.segments]
              exact (List.prefix_append_right_inj _).mpr hTail
            have hGrows : spot.Grows partly := by
              have hMade := h.grows.makeDirectories
                hPath.parent hRoot (by
                  rw [hParent]
                  exact (List.prefix_append_right_inj _).mpr
                    hShorter)
              rw [hPartly] at hMade
              exact hMade
            have hAbove : partly.get? (spot.base ++ front) =
                some .directory := by
              rw [hChained, if_pos]
              exact ⟨(List.prefix_append_right_inj _).mpr
                hBefore, List.prefix_rfl⟩
            have hLast : partly.get?
                (spot.base ++ front ++ [name]) = none := by
              rw [hChained, if_neg, List.append_assoc]
              · exact hEntry
              · intro hChain
                have hLength := hChain.2.length_le
                rw [List.length_append] at hLength
                simp only [List.length_singleton] at hLength
                omega
            have hMissed := hGrows.find_missing hNamed hBrief
              hAskable hSegments hAbove hLast
            rw [if_pos rfl] at hMissed
            refine ⟨_, makeDirectories_of_notFound
              (by simp [hSegments]) hFind hPartly hMissed, ?_⟩
            exact hChained.put hFree

/- Opened trees differ on the way to the path only. -/
theorem Opens.get?_eq
    {other : FileTree}
    (h : spot.Opens now)
    (hOther : spot.Opens other)
    (hTail : spot.tail <+: names)
    {place : Place}
    (hPlace : ¬ (spot.free <+: place ∧
      place <+: spot.base ++ names)) :
    now.get? place = other.get? place := by
  by_cases hFree : spot.free <+: place
  · have hNone {tree : FileTree} (hOpens : spot.Opens tree) :
        tree.get? place = none := by
      by_contra hThere
      rcases Option.ne_none_iff_exists'.mp hThere with
        ⟨entry, hEntry⟩
      rcases hOpens.grows.listed _ _ hFree hEntry with
        ⟨found, hFound, _⟩
      rw [hFound] at hFree hEntry hPlace
      apply hPlace
      refine ⟨hFree, ?_⟩
      apply (List.prefix_append_right_inj _).mpr
      exact (hOpens.listed hFree hEntry).2.trans hTail
    rw [hNone h, hNone hOther]
  · rw [h.grows.kept place hFree,
      hOther.grows.kept place hFree]

/-
  If directories below the path can be made in one opened
  tree, they can in another one, and the trees are then the
  same.
-/
theorem Opens.same_makeDirectories
    {other : FileTree}
    (h : spot.Opens now)
    (hOther : spot.Opens other)
    (hPath : path.IsCanonical)
    (hSegments : root.segments <+: path.segments)
    (hMade : (now.makeDirectories path).1 = .ok ()) :
    (other.makeDirectories path).1 = .ok () ∧
      Same (now.makeDirectories path).2
        (other.makeDirectories path).2 := by
  rcases hSegments with ⟨more, hMore⟩
  have hBelow : path.segments =
      spot.front ++ spot.name :: (spot.rest ++ more) := by
    rw [← hMore, spot.segments]
    simp
  have hNames : ∀ name ∈ spot.name :: (spot.rest ++ more),
      Path.IsName name := by
    intro name hMem
    apply hPath.names
    rw [hBelow]
    exact List.mem_append_right _ hMem
  have hGrows := h.grows.makeDirectories hPath
    ⟨more, hMore⟩ List.prefix_rfl
  rcases denotes_makeDirectories hMade with ⟨_, hFind, _⟩
  rcases find_iff_way.mp hFind with ⟨hAskable, hWay⟩
  rw [hBelow] at hWay
  have hShort := (hGrows.place_eq hNames hWay).2
  have hTail : spot.tail <+:
      spot.name :: (spot.rest ++ more) :=
    ⟨more, rfl⟩
  have hAll {tree : FileTree} (hOpens : spot.Opens tree) :=
    hOpens.makeDirectories hTail hNames hShort
      ⟨_, rfl⟩ List.prefix_rfl hPath hAskable hBelow
  rcases hAll h with ⟨first, hFirst, hChained⟩
  rcases hAll hOther with ⟨second, hSecond, hAlso⟩
  rw [hFirst, hSecond]
  refine ⟨rfl, ?_⟩
  intro place
  dsimp only
  rw [hChained, hAlso]
  split
  · rfl
  · next hPlace => exact h.get?_eq hOther hTail hPlace

/- Nothing can be written into an opened tree as it is. -/
theorem Opens.not_write
    (h : spot.Opens now)
    (hPath : path.IsCanonical)
    {more : List Text}
    (hMore : more ≠ [])
    (hSegments : path.segments = root.segments ++ more)
    (content : List UInt8) :
    ∃ fault, now.write path content = .error fault := by
  cases hFind : now.find true path with
  | error fault => exact ⟨fault, by rw [write, hFind]⟩
  | ok located =>
      exfalso
      have hBelow : path.segments =
          spot.front ++ spot.name :: (spot.rest ++ more) := by
        rw [hSegments, spot.segments]
        simp
      have hNames : ∀ name ∈
          spot.name :: (spot.rest ++ more),
            Path.IsName name := by
        intro name hMem
        apply hPath.names
        rw [hBelow]
        exact List.mem_append_right _ hMem
      have hWay := (find_iff_way.mp hFind).2
      rw [hBelow] at hWay
      have hPlace : located.place = spot.whole ++ more := by
        rw [(h.grows.place_eq hNames hWay).1]
        simp [whole, tail]
      have hGone {below : Place}
          (hWhole : spot.whole <+: below) :
          now.get? below = none :=
        h.grows.rooted.none_below h.absent hWhole
      cases located with
      | present place =>
          rcases hWay.entry h.grows.rooted rfl with
            ⟨entry, hEntry⟩
          rw [show place = _ from hPlace,
            hGone (List.prefix_append _ _)] at hEntry
          cases hEntry
      | missing place =>
          rcases hWay.missing with
            ⟨above, name, hFound, hAbove, _⟩
          have hLast : spot.whole <+: above ++ [name] :=
            ⟨more, hPlace.symm.trans hFound⟩
          rcases List.prefix_concat_iff.mp hLast with
            hSame | hWhole
          · have hNone := hPlace.symm.trans hFound
            rw [← hSame] at hNone
            exact hMore (by simpa using hNone)
          · rw [hGone hWhole] at hAbove
            cases hAbove

end Spot

end FileTree

end ThriftTypings
