import ThriftTypings.Proofs.Build.Closure

/-
  This file proves what stands below the output root after a
  build that succeeded: a module for each needed source, and
  nothing else, whatever was there before and whatever the
  order of turns.

  There is one exception. Where a module goes does not depend
  on the extension of its source, so two needed sources may
  share a place. Then the place is listed twice, and the
  module that was written last stays. Builds come to the same
  tree exactly as far as no two sources share one.

  Key definitions include:
    * `FileTree.module?`
    * `Roots.Adds` and `Roots.Built`

  Key theorems include:
    * `BuildRequest.output_mirrors_the_sources`
    * `BuildRequest.twins_share_a_module`
-/

namespace ThriftTypings

variable {found : Path}

-- What Sources Add

/- The module of a source, if it has one. -/
def FileTree.module?
    (tree : FileTree)
    (file : Path) : Option Text :=
  match tree.document? file with
  | none => none
  | some document =>
      match TypeScript.generate document with
      | .error _ => none
      | .ok text => some text

namespace Roots

variable {roots : Roots} {tree now : FileTree}
variable {files : List Path} {file : Path}

/- What a source adds: its module and what is above it. -/
inductive Adds
    (roots : Roots)
    (tree : FileTree)
    (file : Path) : Place → Entry → Prop where
  | directory
      {place : Place}
      (above : place <+: (roots.target file).parent.segments) :
      Adds roots tree file place .directory
  | module
      {text : Text}
      (renders : tree.module? file = some text) :
      Adds roots tree file (roots.target file).segments
        (.file (Utf8.encode text))

/- Has a tree no more than it had, and what sources add? -/
def Built
    (roots : Roots)
    (tree : FileTree)
    (files : List Path)
    (now : FileTree) : Prop :=
  ∀ place entry, now.get? place = some entry →
    tree.get? place = some entry ∨
      ∃ file, Needed tree files file ∧
        roots.Adds tree file place entry

/- Does each needed source have a place of its own? -/
def Apart
    (roots : Roots)
    (tree : FileTree)
    (files : List Path) : Prop :=
  ∀ one two, Needed tree files one →
    Needed tree files two →
      (roots.target one).segments =
          (roots.target two).segments →
        one = two

theorem module?_of_prepare
    {prepared : Prepared}
    (h : roots.prepare tree file = .ok prepared) :
    tree.module? file = some prepared.rendering.text := by
  rcases prepare_eq_ok_iff.mp h with
    ⟨_, document, text, _, _, hDocument, hText, rfl⟩
  unfold FileTree.module?
  rw [hDocument]
  simp only [hText]

theorem Built.makeDirectories
    (hReady : roots.IsReady tree files)
    (hGrown : roots.Grown tree files now)
    (hNeeded : Needed tree files file)
    (hHolds : roots.Holds file)
    (h : roots.Built tree files now) :
    roots.Built tree files
      (now.makeDirectories (roots.target file).parent).2 := by
  have hTarget := (hReady.target_spec hNeeded hHolds).1
  rcases FileTree.widens_makeDirectories hGrown.plain
      hTarget.parent with
    ⟨_, hWidens, _⟩
  intro place entry hEntry
  rcases hWidens place with hSame | ⟨_, hMade, hWay⟩
  · rw [hSame] at hEntry
    exact h place entry hEntry
  · rw [hMade] at hEntry
    cases hEntry
    exact .inr ⟨file, hNeeded, .directory hWay⟩

theorem Built.write
    (hReady : roots.IsReady tree files)
    (hGrown : roots.Grown tree files now)
    (hNeeded : Needed tree files file)
    (hHolds : roots.Holds file)
    {text : Text}
    (hText : tree.module? file = some text)
    {after : FileTree}
    (hWrite :
      now.write (roots.target file) (Utf8.encode text) =
        .ok after)
    (h : roots.Built tree files now) :
    roots.Built tree files after := by
  rcases hReady.target_spec hNeeded hHolds with
    ⟨hTarget, _, directories, name, hSegments⟩
  rcases (FileTree.write_eq_ok_iff hGrown.plain hTarget _ _).mp
      hWrite with
    ⟨_, _, _, rfl⟩
  intro place entry hEntry
  rw [FileTree.get?_put (by simp [hSegments])] at hEntry
  split at hEntry
  · next hPlace =>
      cases hEntry
      rw [hPlace]
      exact .inr ⟨file, hNeeded, .module hText⟩
  · exact h place entry hEntry

/- Modules at one place are modules under one path. -/
theorem IsReady.target_eq
    (hReady : roots.IsReady tree files)
    {one two : Path}
    (hOne : Needed tree files one)
    (hTwo : Needed tree files two)
    (hHoldsOne : roots.Holds one)
    (hHoldsTwo : roots.Holds two)
    (hSame : (roots.target one).segments =
      (roots.target two).segments) :
    roots.target one = roots.target two := by
  have hSlashesOne := (hReady.target_spec hOne hHoldsOne).2.1
  have hSlashesTwo := (hReady.target_spec hTwo hHoldsTwo).2.1
  cases hTargetOne : roots.target one with
  | mk slashesOne segmentsOne =>
      cases hTargetTwo : roots.target two with
      | mk slashesTwo segmentsTwo =>
          rw [hTargetOne] at hSlashesOne hSame
          rw [hTargetTwo] at hSlashesTwo hSame
          simp only at hSlashesOne hSlashesTwo hSame
          rw [hSlashesOne, hSlashesTwo, hSame]

end Roots

-- Every State of a Build

namespace BuildState

variable {roots : Roots} {workers : Int}
variable {tree : FileTree} {files : List Path}
variable {state after : BuildState} {file : Path}

/- A running task adds what its source adds. -/
theorem built_advance
    {point : Point}
    (hReady : roots.IsReady tree files)
    (hGrown : roots.Grown tree files state.tree)
    (hNeeded : Needed tree files file)
    (hKnown :
      Known roots workers tree files state file point)
    (h : roots.Built tree files state.tree) :
    roots.Built tree files
      (state.advance roots file point).1.tree := by
  cases point with
  | entering =>
      simp only [advance]
      split <;> exact h
  | admitting =>
      simp only [advance]
      split <;> exact h
  | preparing =>
      simp only [advance]
      split <;> exact h
  | making prepared =>
      rcases holds_of_prepare hKnown with ⟨hHolds, hTarget⟩
      have hMade :=
        h.makeDirectories hReady hGrown hNeeded hHolds
      rw [← hTarget] at hMade
      simp only [advance]
      split
      · next hOk =>
          rw [hOk] at hMade
          exact hMade
      · next hFault =>
          rw [hFault] at hMade
          exact hMade
  | writing prepared =>
      rcases holds_of_prepare hKnown.1 with
        ⟨hHolds, hTarget⟩
      simp only [advance]
      split
      · next hOk =>
          rw [hTarget] at hOk
          exact h.write hReady hGrown hNeeded hHolds
            (Roots.module?_of_prepare hKnown.1) hOk
      · exact h
  | recording target includes => exact h
  | submitting includes =>
      cases includes with
      | nil => exact h
      | cons include_ more =>
          simp only [advance]
          rw [submit_tree]
          exact h
  | reporting fault => exact h
  | releasing =>
      simp only [advance, release_tree]
      exact h

theorem built_of_turn
    {actor : Actor}
    (hReady : roots.IsReady tree files)
    (hTraced : Traced roots workers tree files state)
    (hTurn : Turn roots workers state actor after)
    (h : roots.Built tree files state.tree) :
    roots.Built tree files after.tree := by
  cases hTurn with
  | leadSubmits hLead =>
      rw [submit_tree]
      exact h
  | leadCloses hLead => exact h
  | leadReleases hLead =>
      rw [release_tree]
      exact h
  | leadTakes hLead hMessages => exact h
  | leadAborts hLead => exact h
  | leadCancels hLead => exact h
  | leadJoins hLead hIdle => exact h
  | taskStarts hTask hMay => exact h
  | taskRuns hTask =>
      have hMem := List.mem_of_getElem? hTask
      exact built_advance hReady hTraced.grown
        (hTraced.tasks _ hMem) (hTraced.points _ _ hMem) h

/- In every state there is only what sources add. -/
theorem built_of_reaches
    (hReady : roots.IsReady tree files)
    (hReaches :
      Reaches roots workers (start tree files) state) :
    roots.Built tree files state.tree := by
  induction hReaches with
  | refl =>
      intro place entry hEntry
      exact .inl hEntry
  | step hBefore hStep ih =>
      rcases hStep.turn with ⟨actor, hTurn⟩
      exact built_of_turn hReady
        (traced_of_reaches hReady hBefore) hTurn ih

/- A run may be told with what was done in it. -/
theorem Reaches.exists_runs
    {first : BuildState}
    (h : Reaches roots workers first state) :
    ∃ log, Runs roots workers first log state := by
  induction h with
  | refl => exact ⟨[], .refl⟩
  | step _ hStep ih =>
      rcases ih with ⟨log, hRuns⟩
      rcases hStep with ⟨actor, hActor⟩
      exact ⟨_, hRuns.step hActor⟩

-- Builds That Succeeded

/- A build that succeeded, with the paths that it gave. -/
structure Success
    (roots : Roots)
    (tree : FileTree)
    (files : List Path)
    (paths : List Path)
    (last : BuildState) : Prop where
  reached : ∃ workers,
    Reaches roots workers (start tree files) last
  outcome : last.outcome? = some (.ok paths)

namespace Success

variable {paths others : List Path} {last other : BuildState}
variable (hReady : roots.IsReady tree files)
variable (h : Success roots tree files paths last)
include hReady h

theorem finishes :
    (∀ file, Needed tree files file →
        roots.Compiles tree files file) ∧
      ∃ sources : List Path,
        sources.Nodup ∧
          (∀ file, file ∈ sources ↔
            Needed tree files file) ∧
          paths.Perm (sources.map roots.target) ∧
          paths.Pairwise fun one two =>
            Path.le one two = true := by
  rcases h.reached with ⟨workers, hReaches⟩
  rcases hReaches.exists_runs with ⟨log, hRuns⟩
  rcases finishes_of_outcome? hReady hRuns h.outcome with
    ⟨hCompiles, _, hSources⟩
  exact ⟨hCompiles, hSources⟩

theorem holds
    (hNeeded : Needed tree files file) :
    roots.Holds file :=
  ((h.finishes hReady).1 file hNeeded).inside

theorem legal
    (hNeeded : Needed tree files file) :
    (roots.target file).IsLegal :=
  ((h.finishes hReady).1 file hNeeded).legal

theorem grown :
    roots.Grown tree files last.tree := by
  rcases h.reached with ⟨workers, hReaches⟩
  exact (traced_of_reaches hReady hReaches).grown

theorem built :
    roots.Built tree files last.tree := by
  rcases h.reached with ⟨workers, hReaches⟩
  exact built_of_reaches hReady hReaches

/- Every needed source has its module. -/
theorem isFile_target
    (hNeeded : Needed tree files file) :
    last.tree.IsFile (roots.target file).segments := by
  rcases h.reached with ⟨workers, hReaches⟩
  rcases hReaches.exists_runs with ⟨log, hRuns⟩
  have hTraced := traced_of_reaches hReady hReaches
  rcases calm_of_outcome? (accounted_of_reaches hReaches)
      h.outcome with
    ⟨hCalm, hFinished, hLead, _⟩
  have hCovered := covered_of_runs hReady hRuns hCalm
  have hSeen := (mem_seen_iff_needed hTraced hCovered
    hFinished hLead).mpr hNeeded
  exact (closed_of_finished hCovered hFinished hSeen).1.1

/- Nothing was where a module goes. -/
theorem absent
    (hNeeded : Needed tree files file) :
    tree.get? (roots.target file).segments = none := by
  have hHolds := h.holds hReady hNeeded
  exact hReady.absent hNeeded hHolds (h.legal hReady hNeeded)
    (hReady.output_above hNeeded hHolds)

/- What stands for a source is the module of one of those. -/
theorem module_of_target
    (hNeeded : Needed tree files file)
    {content : List UInt8}
    (hContent :
      last.tree.get? (roots.target file).segments =
        some (.file content)) :
    ∃ source text,
      Needed tree files source ∧
        (roots.target source).segments =
          (roots.target file).segments ∧
        tree.module? source = some text ∧
        content = Utf8.encode text := by
  rcases h.built hReady _ _ hContent with
    hOld | ⟨source, hSource, hAdds⟩
  · rw [h.absent hReady hNeeded] at hOld
    cases hOld
  · generalize hPlace : (roots.target file).segments = place
      at hAdds
    generalize hFile : Entry.file content = entry at hAdds
    cases hAdds with
    | directory hAbove => cases hFile
    | module hText =>
        cases hFile
        exact ⟨source, _, hSource, rfl, hText, rfl⟩

/- No other file is below the output root. -/
theorem isFile_iff
    (hOutput : roots.output.IsLegal)
    {place : Place}
    (hPlace : roots.output.segments <+: place) :
    last.tree.IsFile place ↔
      ∃ file, Needed tree files file ∧
        place = (roots.target file).segments := by
  constructor
  · rintro ⟨content, hContent⟩
    rcases h.built hReady _ _ hContent with
      hOld | ⟨source, hSource, hAdds⟩
    · rw [hReady.cleared hOutput place hPlace] at hOld
      cases hOld
    · cases hAdds with
      | module hText => exact ⟨source, hSource, rfl⟩
  · rintro ⟨file, hNeeded, rfl⟩
    exact h.isFile_target hReady hNeeded

theorem mem_paths_iff
    {path : Path} :
    path ∈ paths ↔
      ∃ file, Needed tree files file ∧
        path = roots.target file := by
  rcases (h.finishes hReady).2 with
    ⟨sources, _, hSources, hPerm, _⟩
  rw [hPerm.mem_iff, List.mem_map]
  constructor
  · rintro ⟨file, hMem, rfl⟩
    exact ⟨file, (hSources file).mp hMem, rfl⟩
  · rintro ⟨file, hNeeded, rfl⟩
    exact ⟨file, (hSources file).mpr hNeeded, rfl⟩

/- No path is listed twice unless sources share it. -/
theorem nodup_iff :
    paths.Nodup ↔ roots.Apart tree files := by
  rcases (h.finishes hReady).2 with
    ⟨sources, hNodup, hSources, hPerm, _⟩
  rw [hPerm.nodup_iff, List.nodup_map_iff_inj_on hNodup]
  constructor
  · intro hInjective one two hOne hTwo hSame
    apply hInjective one ((hSources one).mpr hOne) two
      ((hSources two).mpr hTwo)
    exact hReady.target_eq hOne hTwo (h.holds hReady hOne)
      (h.holds hReady hTwo) hSame
  · intro hApart one hOne two hTwo hSame
    exact hApart one two ((hSources one).mp hOne)
      ((hSources two).mp hTwo)
      (congrArg Path.segments hSame)

section Apart

variable (hApart : roots.Apart tree files)
include hApart

/- A source that shares no place has its own module there. -/
theorem get?_target
    (hNeeded : Needed tree files file) :
    ∃ text,
      tree.module? file = some text ∧
        last.tree.get? (roots.target file).segments =
          some (.file (Utf8.encode text)) := by
  rcases h.isFile_target hReady hNeeded with
    ⟨content, hContent⟩
  rcases h.module_of_target hReady hNeeded hContent with
    ⟨source, text, hSource, hSame, hText, rfl⟩
  have hFile := hApart source file hSource hNeeded hSame
  subst hFile
  exact ⟨text, hText, hContent⟩

/- What is there in the end: what was, and what is added. -/
theorem get?_eq_some_iff
    (hOutput : roots.output.IsLegal)
    {place : Place}
    {entry : Entry} :
    last.tree.get? place = some entry ↔
      tree.get? place = some entry ∨
        ∃ file, Needed tree files file ∧
          roots.Adds tree file place entry := by
  constructor
  · exact h.built hReady place entry
  · rintro (hOld | ⟨file, hNeeded, hAdds⟩)
    · by_cases hPlace : roots.output.segments <+: place
      · rw [hReady.cleared hOutput place hPlace] at hOld
        cases hOld
      · exact (h.grown hReady).kept place entry hOld hPlace
    · cases hAdds with
      | directory hAbove =>
          rcases h.isFile_target hReady hNeeded with
            ⟨content, hContent⟩
          refine (h.grown hReady).plain.directory_above
            hContent (hAbove.trans (Path.parent_isPrefix _)) ?_
          rintro rfl
          exact hReady.not_above_parent hNeeded
            (h.holds hReady hNeeded) hAbove
      | module hText =>
          rcases h.get?_target hReady hApart hNeeded with
            ⟨text, hOwn, hContent⟩
          rw [hText] at hOwn
          cases hOwn
          exact hContent

/- The end does not depend on how it was reached. -/
theorem unique
    (hOutput : roots.output.IsLegal)
    (hOther : Success roots tree files others other) :
    others = paths ∧
      ∀ place,
        other.tree.get? place = last.tree.get? place := by
  rcases (h.finishes hReady).2 with
    ⟨sources, hNodup, hSources, hPerm, hSorted⟩
  rcases (hOther.finishes hReady).2 with
    ⟨found, hFoundNodup, hFound, hFoundPerm, hFoundSorted⟩
  constructor
  · have hSame : found.Perm sources :=
      (List.perm_ext_iff_of_nodup hFoundNodup hNodup).mpr
        fun file =>
          (hFound file).trans (hSources file).symm
    apply List.Perm.eq_of_pairwise
      (fun _ _ _ _ => Path.eq_of_le) hFoundSorted hSorted
    exact hFoundPerm.trans
      ((hSame.map roots.target).trans hPerm.symm)
  · intro place
    apply Option.ext
    intro entry
    rw [hOther.get?_eq_some_iff hReady hApart hOutput,
      h.get?_eq_some_iff hReady hApart hOutput]

end Apart

end Success

end BuildState

-- The Output of a Build

open BuildState in
/-
  Take a build of any inputs that succeeded, with any number
  of workers and any order of turns. Its old output may have
  been anything, but there are no links in the rest of the
  tree, and no needed source lies below the output root.

  Then the files below the output root are the modules of
  the needed sources, and their paths are the ones given. No
  path is given twice exactly if no two needed sources share
  a place. A module is that of a source with that place, and
  so, if none is shared, of the one such source. In that
  case all builds come to the same paths and the same tree.
-/
theorem BuildRequest.output_mirrors_the_sources
    {request : BuildRequest}
    {directory : Path}
    {old tree : FileTree}
    (hDirectory : directory.IsCanonical)
    (hOutput : (request.roots directory).output.IsLegal)
    (hRemoved :
      removeOutput (request.roots directory) old = .ok tree)
    (hPlain : tree.IsPlain)
    (hApart : ∀ file,
      Needed tree (request.files directory) file →
        ¬ (request.roots directory).output.segments <+:
          file.segments)
    {workers : Int}
    {last : BuildState}
    {paths : List Path}
    (hReaches :
      Reaches (request.roots directory) workers
        (request.machine (request.roots directory) tree)
        last)
    (hOutcome : last.outcome? = some (.ok paths)) :
    let roots := request.roots directory
    let Needs := Needed tree (request.files directory)
    let Apart := roots.Apart tree (request.files directory)
    (∀ place, roots.output.segments <+: place →
        (last.tree.IsFile place ↔
          ∃ file, Needs file ∧
            place = (roots.target file).segments)) ∧
      (∀ path, path ∈ paths ↔
        ∃ file, Needs file ∧ path = roots.target file) ∧
      (paths.Nodup ↔ Apart) ∧
      (∀ file content, Needs file →
        last.tree.get? (roots.target file).segments =
            some (.file content) →
          ∃ source text,
            Needs source ∧
              (roots.target source).segments =
                (roots.target file).segments ∧
              tree.module? source = some text ∧
              content = Utf8.encode text) ∧
      (Apart →
        (∀ file, Needs file →
          ∃ text,
            tree.module? file = some text ∧
              last.tree.get? (roots.target file).segments =
                some (.file (Utf8.encode text))) ∧
        ∀ count others other,
          Reaches roots count (request.machine roots tree)
              other →
            other.outcome? = some (.ok others) →
              others = paths ∧
                ∀ place, other.tree.get? place =
                  last.tree.get? place) := by
  have hReady := request.isReady_of_plain hDirectory hRemoved
    hPlain hApart
  have hSuccess : Success (request.roots directory) tree
      (request.files directory) paths last :=
    ⟨⟨workers, hReaches⟩, hOutcome⟩
  refine ⟨?_, ?_, ?_, ?_, ?_⟩
  · intro place hPlace
    exact hSuccess.isFile_iff hReady hOutput hPlace
  · intro path
    exact hSuccess.mem_paths_iff hReady
  · exact hSuccess.nodup_iff hReady
  · intro file content hNeeded hContent
    exact hSuccess.module_of_target hReady hNeeded hContent
  · intro hOwn
    constructor
    · intro file hNeeded
      exact hSuccess.get?_target hReady hOwn hNeeded
    · intro count others other hOther hOthers
      exact hSuccess.unique hReady hOwn hOutput
        ⟨⟨count, hOther⟩, hOthers⟩

-- Links in the Old Output

namespace Looped

/- The same tree with an old output that has a link in it. -/
def linked : FileTree where
  entries :=
    [([['o']], .directory), ([['o'], ['l']], .link ['s'])] ++
      tree.entries

theorem removed_linked :
    removeOutput (request.roots top) linked = .ok tree := by
  cbv

theorem isPlain_tree : tree.IsPlain :=
  FileTree.isPlain_of_entries (by decide) (by decide)

theorem isCanonical_top : top.IsCanonical :=
  ⟨by decide, by simp [top]⟩

theorem isLegal_output :
    (request.roots top).output.IsLegal :=
  ⟨by decide, by unfold Path.IsShort; decide, by decide⟩

theorem apart_output
    (found : Path)
    (hNeeded : Needed tree (request.files top) found) :
    ¬ (request.roots top).output.segments <+:
      found.segments := by
  rw [eq_of_needed hNeeded]
  decide

end Looped

open BuildState in
/- Only the module of the one source is there in the end. -/
theorem BuildRequest.output_mirrors_a_looped_source :
    ¬ Looped.linked.IsPlain ∧
      ∃ last paths,
        Reaches (Looped.request.roots Looped.top) 1
            (Looped.request.machine
              (Looped.request.roots Looped.top) Looped.tree)
            last ∧
          last.outcome? = some (.ok paths) ∧
          (∀ place, [['o']] <+: place →
            (last.tree.IsFile place ↔
              place = [['o'], "a.ts".toList])) ∧
          paths.Nodup ∧
          ∃ text,
            Looped.tree.module? Looped.file = some text ∧
              last.tree.get? [['o'], "a.ts".toList] =
                some (.file (Utf8.encode text)) := by
  have hReady := Looped.request.isReady_of_plain
    Looped.isCanonical_top Looped.removed_linked
    Looped.isPlain_tree Looped.apart_output
  rcases exists_success hReady (Int.le_refl 1)
      fun found hNeeded => by
        rw [Looped.eq_of_needed hNeeded]
        exact Looped.compiles_file with
    ⟨last, paths, hReaches, hOutcome⟩
  rcases Looped.request.output_mirrors_the_sources
      Looped.isCanonical_top Looped.isLegal_output
      Looped.removed_linked Looped.isPlain_tree
      Looped.apart_output hReaches hOutcome with
    ⟨hFiles, _, hNodup, _, hOwn⟩
  have hApart : (Looped.request.roots Looped.top).Apart
      Looped.tree (Looped.request.files Looped.top) := by
    intro one two hOne hTwo _
    rw [Looped.eq_of_needed hOne, Looped.eq_of_needed hTwo]
  refine ⟨?_, last, paths, hReaches, hOutcome, ?_,
    hNodup.mpr hApart, ?_⟩
  · intro hPlain
    exact hPlain.linkless [['o'], ['l']] ['s'] (by decide)
  · intro place hPlace
    rw [hFiles place hPlace]
    constructor
    · rintro ⟨found, hNeeded, rfl⟩
      rw [Looped.eq_of_needed hNeeded, Looped.target_eq]
    · intro hSame
      exact ⟨Looped.file, Looped.needed_file,
        by rw [hSame, Looped.target_eq]⟩
  · have hModule := (hOwn hApart).1 Looped.file
      Looped.needed_file
    rwa [Looped.target_eq] at hModule

-- Sources That Share a Place

namespace Twins

/- An empty document, and one with a namespace. -/
def empty : Idl.Document where
  body := []
  trailing := []

def named : Idl.Document where
  body :=
    [.nameSpace { scope := ['n'], name := ['n'], comments := [] }]
  trailing := []

/- Two sources whose names differ in the extension. -/
def tree : FileTree where
  entries :=
    [([['s']], .directory),
     ([['s'], "a.thrift".toList], .file []),
     ([['s'], "a.idl".toList],
       .file (Utf8.encode "namespace n n\n".toList))]

def request : BuildRequest where
  inputs := ["a.thrift".toList, "a.idl".toList]
  source := ['s']
  output := ['o']
  workers := none

def top : Path where
  slashes := 1
  segments := []

def one : Path where
  slashes := 1
  segments := [['s'], "a.thrift".toList]

def two : Path where
  slashes := 1
  segments := [['s'], "a.idl".toList]

theorem removed :
    removeOutput (request.roots top) tree = .ok tree := by
  cbv

theorem files_eq : request.files top = [one, two] := by
  decide

theorem target_one :
    (request.roots top).target one =
      ⟨1, [['o'], "a.ts".toList]⟩ := by
  decide

theorem target_two :
    (request.roots top).target two =
      ⟨1, [['o'], "a.ts".toList]⟩ := by
  decide

theorem decoded :
    Utf8.decode (Utf8.encode "namespace n n\n".toList) =
      .ok "namespace n n\n".toList := by
  cbv

theorem decoded_empty : Utf8.decode [] = .ok [] := by
  cbv

theorem read_one : tree.read one = .ok [] := by
  cbv

theorem read_two :
    tree.read two =
      .ok (Utf8.encode "namespace n n\n".toList) := by
  cbv

theorem wellFormed_empty : empty.WellFormed where
  body := by simp [empty]
  trailing := by simp [empty]

theorem wellFormed_named : named.WellFormed where
  body := List.forall_mem_singleton.mpr
    { content := by
        unfold Idl.Definition.ContentWellFormed
        decide
      comments := by simp [Idl.Definition.comments]
      trailing := by simp [Idl.Definition.trailing] }
  trailing := by simp [named]

theorem document?_of_empty
    {tree : FileTree}
    {file : Path}
    (h : tree.read file = .ok []) :
    tree.document? file = some empty := by
  have hRead := Idl.Document.read_print
    Idl.Order.isFull_usual wellFormed_empty (.plain empty)
  have hText : empty.print (.plain empty) =
      Text.uniformNewlines [] := by
    decide
  rw [hText] at hRead
  simp only [FileTree.document?, h, decoded_empty, hRead]

theorem document?_one :
    tree.document? one = some empty :=
  document?_of_empty read_one

theorem document?_two :
    tree.document? two = some named := by
  have hRead := Idl.Document.read_print
    Idl.Order.isFull_usual wellFormed_named (.plain named)
  have hText : named.print (.plain named) =
      Text.uniformNewlines "namespace n n\n".toList := by
    decide
  rw [hText] at hRead
  simp only [FileTree.document?, read_two, decoded, hRead]

/- Neither source needs anything else. -/
theorem eq_of_needed
    (h : Needed tree (request.files top) found) :
    found = one ∨ found = two := by
  induction h with
  | input hListed =>
      rw [files_eq] at hListed
      simpa using hListed
  | inclusion _ hHolds hIncludes ih =>
      rcases ih with rfl | rfl
      · rw [document?_one] at hHolds
        cases hHolds
        simp [empty] at hIncludes
      · rw [document?_two] at hHolds
        cases hHolds
        simp [named] at hIncludes

theorem needed_one :
    Needed tree (request.files top) one :=
  .input (by simp [files_eq])

theorem needed_two :
    Needed tree (request.files top) two :=
  .input (by simp [files_eq])

theorem target_of_needed
    (h : Needed tree (request.files top) found) :
    (request.roots top).target found =
      ⟨1, [['o'], "a.ts".toList]⟩ := by
  rcases eq_of_needed h with rfl | rfl
  · exact target_one
  · exact target_two

theorem compiles
    (h : Needed tree (request.files top) found) :
    (request.roots top).Compiles tree (request.files top)
      found where
  inside := by
    rcases eq_of_needed h with rfl | rfl
    · exact ⟨["a.thrift".toList], by decide, by decide⟩
    · exact ⟨["a.idl".toList], by decide, by decide⟩
  generates := by
    rcases eq_of_needed h with rfl | rfl
    · exact ⟨empty, _, document?_one, rfl⟩
    · exact ⟨named, _, document?_two, rfl⟩
  legal := by
    rw [target_of_needed h]
    exact ⟨by decide, by unfold Path.IsShort; decide,
      by decide⟩
  free := by
    rw [target_of_needed h]
    rintro way hWay ⟨content, hFile⟩
    have hFree : ∀ way ∈ List.inits [['o']],
        tree.get? way = none ∨
          tree.get? way = some .directory := by
      decide
    rcases hFree way ((List.mem_inits _ _).mpr hWay) with
      hNone | hDirectory <;> simp_all
  apart := by
    intro other hOther _ _
    rw [target_of_needed h, target_of_needed hOther]

theorem isReady :
    (request.roots top).IsReady tree (request.files top) := by
  apply request.isReady_of_plain ⟨by decide, by simp [top]⟩
    removed
    (FileTree.isPlain_of_entries (by decide) (by decide))
  intro found hNeeded
  rcases eq_of_needed hNeeded with rfl | rfl
  · decide
  · decide

end Twins

open BuildState in
/-
  Two sources whose names differ in the extension share a
  place. A build of both succeeds, but gives one path twice,
  and the module of one of the two is not there.
-/
theorem BuildRequest.twins_share_a_module :
    ∃ last paths,
      Reaches (Twins.request.roots Twins.top) 1
          (Twins.request.machine
            (Twins.request.roots Twins.top) Twins.tree)
          last ∧
        last.outcome? = some (.ok paths) ∧
        ¬ paths.Nodup ∧
        ∃ file text,
          Needed Twins.tree
              (Twins.request.files Twins.top) file ∧
            Twins.tree.module? file = some text ∧
            last.tree.get?
                ((Twins.request.roots Twins.top).target
                  file).segments ≠
              some (.file (Utf8.encode text)) := by
  rcases exists_success Twins.isReady (Int.le_refl 1)
      fun found hNeeded => Twins.compiles hNeeded with
    ⟨last, paths, hReaches, hOutcome⟩
  have hSuccess : Success (Twins.request.roots Twins.top)
      Twins.tree (Twins.request.files Twins.top) paths last :=
    ⟨⟨1, hReaches⟩, hOutcome⟩
  refine ⟨last, paths, hReaches, hOutcome, ?_, ?_⟩
  · rw [hSuccess.nodup_iff Twins.isReady]
    intro hApart
    have hSame := hApart Twins.one Twins.two Twins.needed_one
      Twins.needed_two
      (by rw [Twins.target_one, Twins.target_two])
    cases hSame
  · -- one place cannot hold both modules
    have hOne : Twins.tree.module? Twins.one =
        some "\n".toList := by
      unfold FileTree.module?
      rw [Twins.document?_one]
      rfl
    have hTwo : Twins.tree.module? Twins.two =
        some "/** namespace n n */\n".toList := by
      unfold FileTree.module?
      rw [Twins.document?_two]
      rfl
    by_cases hFirst :
        last.tree.get? [['o'], "a.ts".toList] =
          some (.file (Utf8.encode "\n".toList))
    · refine ⟨Twins.two, _, Twins.needed_two, hTwo, ?_⟩
      rw [Twins.target_two, hFirst]
      decide
    · refine ⟨Twins.one, _, Twins.needed_one, hOne, ?_⟩
      rw [Twins.target_one]
      exact hFirst

end ThriftTypings
