import ThriftTypings.Proofs.Build.Confinement
import ThriftTypings.Proofs.FileTree.Opened

/-
  This file proves what a build leaves alone.

  A build clears its output root and then asks for nothing
  but sources and what lies below that root. So all that it
  changes is the directory that the root denotes, and the
  directories above it that were missing. A build that is
  refused before changes nothing.

  Key definitions include:
    * `Access.Below`
    * `BuildRequest.Starts`

  Key theorems include:
    * `BuildRequest.exists_starts`
    * `buildAlong_refused`
-/

namespace ThriftTypings

open FileTree

-- Accesses Below a Path

namespace Access

variable {tree now one two : FileTree} {root : Path}
variable {access : Access} {log : List Access}

/-
  Reading anything, making directories on the way to a path
  or below it, and writing files below it.
-/
inductive Below
    (root : Path) : Access → Prop where
  | reads
      {path : Path} :
      Below root (.reads path)
  | makes
      {path : Path}
      (canonical : path.IsCanonical)
      (slashes : path.slashes = root.slashes)
      (segments : root.segments <+: path.segments) :
      Below root (.makes path)
  | writes
      {path : Path} {content : List UInt8}
      {more : List Text}
      (canonical : path.IsCanonical)
      (slashes : path.slashes = root.slashes)
      (strictly : more ≠ [])
      (segments : path.segments = root.segments ++ more) :
      Below root (.writes path content)

theorem perform_makes
    (tree : FileTree)
    (path : Path) :
    (Access.makes path).perform tree =
      ((tree.makeDirectories path).1.map fun _ => [],
        (tree.makeDirectories path).2) := by
  unfold perform
  dsimp only
  rcases tree.makeDirectories path with ⟨answer, made⟩
  cases answer with
  | error fault => rfl
  | ok _ => rfl

/- What accesses keep one by one is kept by all of them. -/
theorem replay_keeps
    {P : FileTree → Prop}
    (hTree : P tree)
    (h : ∀ access ∈ log, ∀ now, P now →
      P (access.perform now).2) :
    P (replay log tree) := by
  induction log generalizing tree with
  | nil => exact hTree
  | cons access more ih =>
      apply ih
      · exact h access List.mem_cons_self tree hTree
      · exact fun other hMem =>
          h other (List.mem_cons_of_mem _ hMem)

/- Nothing changes in a tree that is sealed at the path. -/
theorem perform_of_sealed
    (hSealed : tree.IsSealed root)
    (h : access.Below root) :
    (access.perform tree).2 = tree := by
  cases h with
  | reads => rfl
  | makes hPath hSlashes hSegments =>
      rw [perform_makes]
      exact hSealed.makes _ hPath hSlashes hSegments
  | writes hPath hSlashes hMore hSegments =>
      rcases hSealed.writes _ _ _ hPath hSlashes hMore
        hSegments with ⟨fault, hFault⟩
      rw [perform, hFault]

theorem grows_perform
    {spot : Spot tree root}
    (hNow : spot.Grows now)
    (h : access.Below root) :
    spot.Grows (access.perform now).2 := by
  cases h with
  | reads => exact hNow
  | makes hPath _ hSegments =>
      rw [perform_makes]
      exact hNow.makeDirectories hPath hSegments
        List.prefix_rfl
  | @writes path content more hPath _ hMore hSegments =>
      unfold perform
      dsimp only
      split
      · next hWrite =>
          exact hNow.write hPath hMore hSegments hWrite
      · exact hNow

/- Trees with the same entries answer alike. -/
theorem perform_of_same
    (hSame : Same one two)
    (h : access.Below root) :
    (access.perform one).1 = (access.perform two).1 ∧
      Same (access.perform one).2 (access.perform two).2 := by
  cases h with
  | @reads path => exact ⟨hSame.read path, hSame⟩
  | @makes path _ _ _ =>
      rcases hSame.makeDirectories path with
        ⟨hAnswer, hMade⟩
      rw [perform_makes, perform_makes, hAnswer]
      exact ⟨rfl, hMade⟩
  | @writes path content more _ _ _ _ =>
      unfold perform
      dsimp only
      rcases hSame.write path content with
        ⟨fault, hOne, hTwo⟩ | ⟨_, _, hOne, hTwo, hWritten⟩
      · rw [hOne, hTwo]
        exact ⟨rfl, hSame⟩
      · rw [hOne, hTwo]
        exact ⟨rfl, hWritten⟩

theorem answers_of_same
    (hSame : Same one two)
    (h : ∀ access ∈ log, access.Below root) :
    answers log one = answers log two ∧
      Same (replay log one) (replay log two) := by
  induction log generalizing one two with
  | nil => exact ⟨rfl, hSame⟩
  | cons access more ih =>
      rcases perform_of_same hSame
        (h access List.mem_cons_self) with ⟨hFirst, hNext⟩
      rcases ih hNext fun other hMem =>
        h other (List.mem_cons_of_mem _ hMem) with
        ⟨hMore, hEnd⟩
      rw [answers, answers, hFirst, hMore]
      exact ⟨rfl, hEnd⟩

theorem replay_of_sealed
    (hSealed : tree.IsSealed root)
    (h : ∀ access ∈ log, access.Below root) :
    replay log tree = tree := by
  apply replay_keeps (P := (· = tree)) rfl
  intro access hMem now hNow
  rw [hNow]
  exact perform_of_sealed hSealed (h access hMem)

theorem grows_replay
    {spot : Spot tree root}
    (hNow : spot.Grows now)
    (h : ∀ access ∈ log, access.Below root) :
    spot.Grows (replay log now) := by
  apply replay_keeps hNow
  intro access hMem next hNext
  exact grows_perform hNext (h access hMem)

/-
  Where nothing is at the path, accesses below it change
  nothing, or the tree grows from a free place on.
-/
theorem sealed_or_grows
    (hRooted : tree.IsRooted)
    (hRoot : root.IsCanonical)
    (hAbsent : tree.isThere root = false)
    (h : ∀ access ∈ log, access.Below root) :
    replay log tree = tree ∨
      root.IsAskable ∧
        ∃ spot : Spot tree root,
          spot.Grows (replay log tree) := by
  rcases sealed_or_spot hRooted hRoot hAbsent with
    hSealed | ⟨hAskable, ⟨spot⟩⟩
  · exact .inl (replay_of_sealed hSealed h)
  · exact .inr ⟨hAskable, spot,
      grows_replay (spot.grows hRooted) h⟩

/-
  What differs in the end from what was there before the
  path was cleared is in the directory of the path, then or
  now, or a directory above that was missing.
-/
theorem changed_of_clears
    {left : FileTree} {place : Place}
    (hRoot : root.IsCanonical)
    (hClearable : tree.IsClearable root)
    (hClears : tree.Clears root left)
    (h : ∀ access ∈ log, access.Below root)
    (hChanged : (replay log left).get? place ≠
      tree.get? place) :
    tree.Covers root place ∨
      (replay log left).Covers root place ∨
      tree.get? place = none ∧
        (replay log left).LiesOver root place := by
  by_cases hKept : left.get? place = tree.get? place
  · right
    rw [← hKept] at hChanged ⊢
    rcases sealed_or_grows hClears.rooted hRoot
      hClears.absent h with hSealed | ⟨hAskable, spot, hGrows⟩
    · rw [hSealed] at hChanged
      exact absurd rfl hChanged
    · exact hGrows.covers_or_liesOver hRoot hAskable hChanged
  · left
    exact hClears.covers hClearable hKept

end Access

-- What Runs Ask

namespace BuildState

variable {roots : Roots} {workers : Int}
variable {state : BuildState} {log : List Access}
variable {access : Access}

/- No actor clears anything. -/
theorem not_clears_of_accesses
    {actor : Actor}
    (h : access ∈ state.accesses roots actor)
    (path : Path) :
    access ≠ .clears path := by
  intro hClears
  rw [hClears] at h
  unfold accesses at h
  split at h
  · cases h
  · split at h
    · unfold Point.accesses at h
      split at h
      · split at h
        · simp at h
        · cases h
      · simp at h
      · simp at h
      · cases h
    · cases h

theorem not_clears_of_log
    (schedule : List Actor)
    (h : access ∈ state.log roots workers schedule)
    (path : Path) :
    access ≠ .clears path := by
  induction schedule generalizing state with
  | nil => cases h
  | cons actor more ih =>
      rw [BuildState.log, List.mem_append] at h
      rcases h with hNow | hLater
      · exact not_clears_of_accesses hNow path
      · exact ih hLater

/- What is allowed lies below the output root. -/
theorem below_of_allowed
    (hOutput : roots.output.IsCanonical)
    (h : ∀ access ∈ log, Allowed roots log access)
    (hMem : access ∈ log)
    (hNot : access ≠ .clears roots.output) :
    access.Below roots.output := by
  have hTarget (file : Path) (hRead : .reads file ∈ log) :
      (roots.target file).IsCanonical ∧
        (roots.target file).slashes = roots.output.slashes ∧
        ∃ directories name,
          (roots.target file).segments =
            roots.output.segments ++ directories ++ [name] := by
    cases h _ hRead with
    | reads hFile hHolds =>
        exact Roots.target_spec hOutput hFile hHolds
  cases h access hMem with
  | clears => exact absurd rfl hNot
  | reads => exact .reads
  | @makes file hRead =>
      rcases hTarget file hRead with
        ⟨hCanonical, hSlashes, directories, name, hSegments⟩
      -- how the target is found does not matter any more
      generalize roots.target file = target
        at hCanonical hSlashes hSegments ⊢
      refine .makes hCanonical.parent hSlashes ?_
      rw [Path.parent, hSegments, List.dropLast_concat]
      exact List.prefix_append _ _
  | @writes file content hRead =>
      rcases hTarget file hRead with
        ⟨hCanonical, hSlashes, directories, name, hSegments⟩
      rw [List.append_assoc] at hSegments
      exact .writes hCanonical hSlashes (by simp) hSegments

end BuildState

/- All that a build asks lies below its output root. -/
theorem BuildRequest.below_of_log
    {directory : Path}
    (request : BuildRequest)
    (hDirectory : directory.IsCanonical)
    (tree : FileTree)
    (workers : Int)
    (schedule : List Actor) :
    ∀ access ∈
        (request.machine (request.roots directory) tree).log
          (request.roots directory) workers schedule,
      access.Below (request.roots directory).output := by
  intro access hMem
  have hSource : (request.roots directory).source.IsCanonical :=
    hDirectory.resolve request.source
  have hConfined := confined_along hSource request tree
    workers schedule
  exact BuildState.below_of_allowed
    (hDirectory.resolve request.output) hConfined.asked
    (List.mem_cons_of_mem _ hMem)
    (BuildState.not_clears_of_log schedule hMem _)

-- The Start of a Build

section Start

variable {roots : Roots} {tree removed : FileTree}
variable {surroundings : Surroundings}
variable {request : BuildRequest} {workers : Int}

/- A directory in the way is cleared. -/
theorem clears_of_removeOutput
    (hSource : roots.source.IsCanonical)
    (hOutput : roots.output.IsCanonical)
    (hTree : tree.IsRooted)
    (hApart : ¬ roots.SpelledWithin)
    (hClearable : tree.IsClearable roots.output) :
    ∃ removed,
      removeOutput roots tree = .ok removed ∧
        tree.Clears roots.output removed := by
  have hGuard : roots.outputHoldsSource = false := by
    rw [← Bool.not_eq_true,
      Roots.outputHoldsSource_iff hSource hOutput]
    exact hApart
  simp only [removeOutput, hGuard, Bool.false_eq_true,
    if_false]
  by_cases hThere : tree.isThere roots.output = true
  · rw [if_pos hThere]
    unfold isThere at hThere
    split at hThere
    · next place hFind =>
        have hSegments : roots.output.segments ≠ [] := by
          intro hRoot
          apply hApart
          rw [Roots.SpelledWithin, hRoot]
          exact ⟨List.nil_prefix, .inl rfl⟩
        have hPlace := ne_root_of_find hOutput hSegments hFind
        refine ⟨tree.erase place, ?_,
          clears_erase hTree hPlace hFind⟩
        simp [removeTree, hFind, hClearable place hFind]
    · cases hThere
  · rw [if_neg hThere]
    exact ⟨tree, rfl,
      clears_self hTree (Bool.eq_false_iff.mpr hThere)⟩

/- A file or a link in the way is not. -/
theorem not_removed_of_not_isClearable
    (h : ¬ tree.IsClearable roots.output) :
    ∃ fault, removeOutput roots tree = .error fault := by
  unfold IsClearable at h
  push Not at h
  rcases h with ⟨place, hFind, hEntry⟩
  have hThere : tree.isThere roots.output = true := by
    simp [isThere, hFind]
  have hFails : ∃ fault,
      tree.removeTree roots.output = .error fault := by
    unfold removeTree
    rw [hFind]
    dsimp only
    split
    · next hDirectory => exact absurd hDirectory hEntry
    · split <;> exact ⟨_, rfl⟩
    · exact ⟨_, rfl⟩
  rcases hFails with ⟨fault, hFault⟩
  unfold removeOutput
  rw [if_pos hThere, hFault]
  split <;> exact ⟨_, rfl⟩

/- Nothing keeps a build from clearing its output root. -/
structure BuildRequest.MayStart
    (request : BuildRequest)
    (surroundings : Surroundings)
    (tree : FileTree) : Prop where
  workers : request.HasWorkers surroundings
  apart :
    ¬ (request.roots surroundings.directory).SpelledWithin
  clearable : tree.IsClearable
    (request.roots surroundings.directory).output

/- A build that has cleared its output root, and runs. -/
structure BuildRequest.Starts
    (request : BuildRequest)
    (surroundings : Surroundings)
    (tree : FileTree)
    (workers : Int)
    (removed : FileTree) : Prop where
  rooted : tree.IsRooted
  may : request.MayStart surroundings tree
  count :
    workerCount request.workers surroundings.setting
      surroundings.processors = .ok workers
  removal :
    removeOutput (request.roots surroundings.directory)
      tree = .ok removed
  cleared :
    tree.Clears (request.roots surroundings.directory).output
      removed

theorem BuildRequest.Starts.build_eq
    (h : request.Starts surroundings tree workers removed)
    (schedule : List Actor) :
    buildAlong schedule surroundings request tree =
      .ofState removed
        ((request.machine
          (request.roots surroundings.directory)
          removed).along
            (request.roots surroundings.directory) workers
            schedule) := by
  simp [buildAlong, h.count, h.removal]

theorem BuildRequest.exists_starts
    (hDirectory : surroundings.directory.IsCanonical)
    (hTree : tree.IsRooted)
    (h : request.MayStart surroundings tree) :
    ∃ workers removed,
      request.Starts surroundings tree workers removed := by
  rcases h.workers with ⟨workers, hCount⟩
  rcases clears_of_removeOutput
    (hDirectory.resolve request.source)
    (hDirectory.resolve request.output) hTree h.apart
    h.clearable with ⟨removed, hRemoved, hClears⟩
  exact ⟨workers, removed, hTree, h, hCount, hRemoved,
    hClears⟩

/- A build that does not start is refused. -/
theorem buildAlong_refused
    (hDirectory : surroundings.directory.IsCanonical)
    (h : ¬ request.MayStart surroundings tree)
    (schedule : List Actor) :
    ∃ fault,
      buildAlong schedule surroundings request tree =
        .refused fault tree := by
  unfold buildAlong
  cases hCount : workerCount request.workers
      surroundings.setting surroundings.processors with
  | error fault => exact ⟨fault, rfl⟩
  | ok workers =>
      have hFails : ∃ fault, removeOutput
          (request.roots surroundings.directory) tree =
            .error fault := by
        by_cases hWithin : (request.roots
            surroundings.directory).SpelledWithin
        · rw [← Roots.outputHoldsSource_iff
            (hDirectory.resolve request.source)
            (hDirectory.resolve request.output)] at hWithin
          exact ⟨_, removeOutput_of_guard hWithin tree⟩
        · exact not_removed_of_not_isClearable fun hClearable =>
            h ⟨⟨workers, hCount⟩, hWithin, hClearable⟩
      rcases hFails with ⟨fault, hFault⟩
      refine ⟨fault, ?_⟩
      dsimp only
      rw [hFault]

end Start

end ThriftTypings
