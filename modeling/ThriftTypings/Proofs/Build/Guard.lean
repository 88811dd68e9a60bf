import Mathlib
import ThriftTypings.Proofs.Build.Blame
import ThriftTypings.Proofs.Build.Ending
import ThriftTypings.Proofs.FileTree.Links
import ThriftTypings.Proofs.Path.Containment

/-
  This file proves when a build refuses to remove its output
  root, and when it removes the source root nevertheless.

  The guard compares spellings. It refuses just if the
  segments of the output root start those of the source
  root, and both have the same number of leading slashes.
  The directory that is removed is what the path denotes,
  over links and whatever the slashes. So the source root is
  safe if there are no links on the way and the slashes are
  the same, but a link or a second slash hides it.

  Key definitions include:
    * `Roots.SpelledWithin`
    * `Roots.Encloses`

  Key theorems include:
    * `Roots.IsMissed.compile_tree`
    * `BuildRequest.guards_the_source_root`
-/

namespace ThriftTypings

variable {argument processors : Option Int}
variable {setting : Option Text} {files : List Path}
variable {actor : Actor}

-- What the Guard Compares

namespace Roots

variable {roots : Roots} {tree : FileTree} {place : Place}

/-
  Is the source root spelled as the output root, or as
  something in it? At the root of all the number of leading
  slashes does not matter.
-/
def SpelledWithin
    (roots : Roots) : Prop :=
  roots.output.segments <+: roots.source.segments ∧
    (roots.output.segments = [] ∨
      roots.output.slashes = roots.source.slashes)

/- The guard decides on segments and slashes. -/
theorem outputHoldsSource_iff
    (hSource : roots.source.IsCanonical)
    (hOutput : roots.output.IsCanonical) :
    roots.outputHoldsSource = true ↔
      roots.SpelledWithin := by
  unfold outputHoldsSource SpelledWithin
  simp only [Bool.or_eq_true, beq_iff_eq, Text.startsWith,
    List.isPrefixOf_iff_prefix]
  by_cases hRoot : roots.output.segments = []
  · -- every absolute path starts with a slash
    have hStarts : ['/'] <+: roots.source.text := by
      rw [hSource.text_eq]
      rcases Nat.exists_eq_succ_of_ne_zero
          (Nat.pos_iff_ne_zero.mp hSource.absolute) with
        ⟨count, hCount⟩
      rw [hCount, List.replicate_succ, List.cons_append]
      simp
    rw [hOutput.stripped_root hRoot, List.nil_append]
    simp [hRoot, hStarts]
  · rw [hOutput.stripped_text hRoot,
      hOutput.text_prefix_iff hSource hRoot]
    constructor
    · intro h
      rcases h with hSame | ⟨hSlashes, hPrefix, _⟩
      · rw [hSource.text_inj hOutput hSame]
        exact ⟨List.prefix_rfl, .inr rfl⟩
      · exact ⟨hPrefix, .inr hSlashes⟩
    · intro h
      rcases h with ⟨hPrefix, hCase⟩
      have hSlashes := hCase.resolve_left hRoot
      by_cases hSegments :
          roots.output.segments = roots.source.segments
      · left
        rw [hSource.text_eq, hOutput.text_eq, hSlashes,
          hSegments]
      · exact .inr ⟨hSlashes, hPrefix, hSegments⟩

-- What Is Removed

/-
  The output root denotes the directory at a place, and the
  source root is there, or below it. A source root that is
  missing is where it would be made.
-/
structure Encloses
    (roots : Roots)
    (tree : FileTree)
    (place : Place) : Prop where
  output : tree.Denotes roots.output place
  source : ∃ located,
    tree.find true roots.source = .ok located ∧
      place <+: located.place

/-
  The guard does not see what the output root is, and the
  output root is not itself a link, which is never removed.
-/
structure IsMissed
    (roots : Roots)
    (tree : FileTree)
    (place : Place) : Prop where
  unspelled : ¬ roots.SpelledWithin
  unlinked :
    tree.find false roots.output = .ok (.present place)

/- Nothing is missed if there are no links on the way. -/
theorem Encloses.spelledWithin
    (h : roots.Encloses tree place)
    (hSource : roots.source.IsCanonical)
    (hOutput : roots.output.IsCanonical)
    (hSlashes : roots.output.slashes = roots.source.slashes)
    (hOutputLinkless : tree.Linkless roots.output)
    (hSourceLinkless : tree.Linkless roots.source) :
    roots.SpelledWithin := by
  rcases h.source with ⟨located, hFind, hPrefix⟩
  have hOutputPlace :=
    hOutputLinkless.place_eq hOutput h.output.find
  have hSourcePlace := hSourceLinkless.place_eq hSource hFind
  rw [hSourcePlace] at hPrefix
  have hPlace : place = roots.output.segments := hOutputPlace
  rw [hPlace] at hPrefix
  exact ⟨hPrefix, .inr hSlashes⟩

end Roots

/- What the guard sees, it refuses. -/
theorem removeOutput_of_guard
    {roots : Roots}
    (hGuard : roots.outputHoldsSource = true)
    (tree : FileTree) :
    removeOutput roots tree =
      .error (.holdsSource roots.output.text
        roots.source.text) := by
  rw [removeOutput, if_pos hGuard]

/-
  The directory of a missed output root is removed. If the
  output root is a link, the removal fails.
-/
theorem removeOutput_of_encloses
    {roots : Roots}
    {tree : FileTree}
    {place : Place}
    (hGuard : roots.outputHoldsSource = false)
    (h : tree.Denotes roots.output place) :
    (tree.find false roots.output = .ok (.present place) →
        removeOutput roots tree = .ok (tree.erase place)) ∧
      (tree.find false roots.output ≠ .ok (.present place) →
        ∃ fault, removeOutput roots tree =
          .error (.unremovable roots.output.text fault)) := by
  constructor
  · intro hFind
    simp [removeOutput, hGuard, FileTree.isThere,
      FileTree.removeTree, hFind, h.entry]
  · intro hOther
    rcases h.before_link with
      hFind | ⟨first, target, hFind, hEntry⟩
    · exact absurd hFind hOther
    · refine ⟨FileTree.refusal .removesLink roots.output, ?_⟩
      simp [removeOutput, hGuard, FileTree.isThere,
        FileTree.removeTree, hFind, hEntry, h.find]

-- How Faults Are Worded

/- Is the fault worded as a refusal of the guard? -/
def BuildFault.IsRefusal
    (fault : BuildFault) : Prop :=
  "Refusing to remove output root".toList <+: fault.message

namespace BuildFault

variable {fault : BuildFault}

/- Only the guard words a fault as a refusal. -/
theorem isRefusal_iff :
    fault.IsRefusal ↔
      ∃ output source, fault = .holdsSource output source := by
  constructor
  · intro hRefusal
    have hHead : fault.message.head? = some 'R' := by
      rcases hRefusal with ⟨rest, hRest⟩
      rw [← hRest]
      rfl
    cases fault with
    | holdsSource output source => exact ⟨output, source, rfl⟩
    | workersSetting value => cases hHead
    | workersArgument count => cases hHead
    | unremovable output cause => cases hHead
    | outside file cause => cases hHead
    | unreadable source error => cases hHead
    | undecodable source cause => cases hHead
    | malformed source error => cases hHead
    | ungeneratable source cause => cases hHead
    | unwritable source error => cases hHead
    | nullByte source => cases hHead
  · intro hGuard
    rcases hGuard with ⟨output, source, hFault⟩
    have hWord : "Refusing to remove output root".toList <+:
        "Refusing to remove output root ".toList := by
      decide
    rw [hFault]
    unfold IsRefusal message
    dsimp only
    rw [List.append_assoc, List.append_assoc]
    exact hWord.trans (List.prefix_append _ _)

end BuildFault

/- The number of workers is no matter of the guard. -/
theorem not_isRefusal_of_workerCount
    {fault : BuildFault}
    (h : workerCount argument setting processors =
      .error fault) :
    ¬ fault.IsRefusal := by
  rw [BuildFault.isRefusal_iff]
  intro hGuard
  rcases hGuard with ⟨output, source, hFault⟩
  subst hFault
  simp only [workerCount] at h
  split at h
  · next hDefault =>
      cases h
      cases argument with
      | some count => cases hDefault
      | none =>
          simp only [Option.elim_none, defaultWorkers]
            at hDefault
          split at hDefault
          · split at hDefault <;> cases hDefault
          · split at hDefault
            · cases hDefault
            · split at hDefault <;> cases hDefault
  · split at h <;> cases h

/- What goes wrong with a source is no matter of the guard. -/
theorem not_isRefusal_of_prepare
    {roots : Roots}
    {tree : FileTree}
    {file : Path}
    {fault : BuildFault}
    (h : roots.prepare tree file = .error fault) :
    ¬ fault.IsRefusal := by
  rw [BuildFault.isRefusal_iff]
  intro hGuard
  rcases hGuard with ⟨output, source, hFault⟩
  subst hFault
  simp only [Roots.prepare, Roots.prepareWith] at h
  split at h
  · cases h
  · split at h
    · next cause _ =>
        cases cause <;> cases h
    · split at h
      · next hRendering =>
          cases h
          simp only [Rendering.ofContent, Rendering.ofText,
            Rendering.ofDocument] at hRendering
          split at hRendering
          · cases hRendering
          · split at hRendering
            · cases hRendering
            · split at hRendering <;> cases hRendering
      · cases h

theorem not_isRefusal_writeFault
    (source : Text)
    (cause : FileFault) :
    ¬ (Roots.writeFault source cause).IsRefusal := by
  rw [BuildFault.isRefusal_iff]
  intro hGuard
  rcases hGuard with ⟨output, other, hFault⟩
  cases cause <;> cases hFault

-- Stages of Tasks

namespace BuildState

variable {roots : Roots} {workers : Int}
variable {state after : BuildState}

/-
  What holds of every task at its stage is kept by a turn if
  it holds of new, starting and cancelled tasks and is kept
  by running ones.
-/
theorem stages_of_turn
    (good : Stage → Prop)
    (hTurn : Turn roots workers state actor after)
    (hQueued : good .queued)
    (hStarts : good (.running .entering))
    (hCancelled : good .cancelled)
    (hRuns : ∀ file point,
      good (.running point) →
        good (state.advance roots file point).2)
    (h : ∀ task ∈ state.tasks, good task.stage) :
    ∀ task ∈ after.tasks, good task.stage := by
  cases hTurn with
  | leadSubmits _ =>
      intro task hMem
      rcases mem_submit_tasks hMem with hOld | hNew
      · exact h task hOld
      · rw [hNew]
        exact hQueued
  | leadCloses _ => exact h
  | leadReleases _ =>
      intro task hMem
      apply h
      simpa using hMem
  | leadTakes _ _ => exact h
  | leadAborts _ => exact h
  | leadCancels _ =>
      intro task hMem
      rcases mem_cancelled_tasks hMem with hOld | ⟨_, hStage⟩
      · exact h task hOld
      · rw [hStage]
        exact hCancelled
  | leadJoins _ _ => exact h
  | taskStarts _ _ =>
      intro task hMem
      rcases mem_settle_tasks hMem with hOld | hNew
      · exact h task hOld
      · rw [hNew]
        exact hStarts
  | taskRuns hTask =>
      intro task hMem
      rcases mem_settle_tasks hMem with hOther | hNew
      · rcases mem_advance_tasks hOther with
          hOld | ⟨_, _, _, hSubmitted⟩
        · exact h task hOld
        · rw [hSubmitted]
          exact hQueued
      · rw [hNew]
        exact hRuns _ _ (h _ (List.mem_of_getElem? hTask))

/- No state of a build has heard of a refusal. -/
theorem not_isRefusal_of_reaches
    {tree : FileTree}
    {fault : BuildFault}
    (hReaches :
      Reaches roots workers (start tree files) state)
    (hPosted : .failed fault ∈ state.posted) :
    ¬ fault.IsRefusal := by
  let unrefused (stage : Stage) : Prop :=
    ∀ found, stage = .running (.reporting found) →
      ¬ found.IsRefusal
  have hAll := hReaches.keeps
    (P := fun state =>
      (∀ task ∈ state.tasks, unrefused task.stage) ∧
      ∀ found, .failed found ∈ state.posted →
        ¬ found.IsRefusal)
    (by simp [start, posted, Lead.taken?])
    fun before after actor hBefore hTurn => by
      rcases hBefore with ⟨hTasks, hFaults⟩
      constructor
      · refine stages_of_turn unrefused hTurn ?_ ?_ ?_ ?_ hTasks
        · intro found hStage
          cases hStage
        · intro found hStage
          cases hStage
        · intro found hStage
          cases hStage
        · intro file point _ found hStage
          cases point with
          | entering =>
              simp only [advance] at hStage
              split at hStage <;> cases hStage
          | admitting =>
              simp only [advance] at hStage
              split at hStage <;> cases hStage
          | preparing =>
              simp only [advance] at hStage
              split at hStage
              · next hFault =>
                  cases hStage
                  exact not_isRefusal_of_prepare hFault
              · cases hStage
          | making prepared =>
              simp only [advance] at hStage
              split at hStage
              · cases hStage
              · cases hStage
                exact not_isRefusal_writeFault _ _
          | writing prepared =>
              simp only [advance] at hStage
              split at hStage
              · cases hStage
              · cases hStage
                exact not_isRefusal_writeFault _ _
          | recording target includes => cases hStage
          | submitting includes =>
              cases includes <;> cases hStage
          | reporting other => cases hStage
          | releasing => cases hStage
      · intro found hFound
        rcases failed_of_turn hTurn hFound with
          hOld | ⟨file, hReporting⟩
        · exact hFaults found hOld
        · exact hTasks _ hReporting found rfl
  exact hAll.2 fault hPosted

-- Builds with Nothing to Read

/- A task at such a stage leaves the tree as it is. -/
def LeavesTree
    (stage : Stage) : Prop :=
  ∀ prepared,
    stage ≠ .running (.making prepared) ∧
      stage ≠ .running (.writing prepared)

theorem advance_tree
    (state : BuildState)
    (file : Path)
    {point : Point}
    (h : LeavesTree (.running point)) :
    (state.advance roots file point).1.tree = state.tree := by
  cases point with
  | entering =>
      simp only [advance]
      split <;> rfl
  | admitting =>
      simp only [advance]
      split <;> rfl
  | preparing =>
      simp only [advance]
      split <;> rfl
  | making prepared => exact absurd rfl (h prepared).1
  | writing prepared => exact absurd rfl (h prepared).2
  | recording target includes => rfl
  | submitting includes =>
      cases includes with
      | nil => rfl
      | cons include_ more => simp [advance]
  | reporting fault => rfl
  | releasing => simp [advance]

theorem tree_of_turn
    (hTurn : Turn roots workers state actor after)
    (h : ∀ task ∈ state.tasks, LeavesTree task.stage) :
    after.tree = state.tree := by
  cases hTurn with
  | leadSubmits _ => exact submit_tree _ _
  | leadCloses _ => rfl
  | leadReleases _ => exact release_tree _
  | leadTakes _ _ => rfl
  | leadAborts _ => rfl
  | leadCancels _ => rfl
  | leadJoins _ _ => rfl
  | taskStarts _ _ => rfl
  | taskRuns hTask =>
      exact advance_tree state _
        (h _ (List.mem_of_getElem? hTask))

/- If nothing can be prepared, nothing is written. -/
theorem tree_of_unprepared
    {tree : FileTree}
    (hUnprepared : ∀ file prepared,
      roots.prepare tree file ≠ .ok prepared)
    (hReaches :
      Reaches roots workers (start tree files) state) :
    state.tree = tree := by
  have hAll := hReaches.keeps
    (P := fun state => state.tree = tree ∧
      ∀ task ∈ state.tasks, LeavesTree task.stage)
    ⟨rfl, by simp [start]⟩
    fun before after actor hBefore hTurn => by
      rcases hBefore with ⟨hTree, hTasks⟩
      refine ⟨(tree_of_turn hTurn hTasks).trans hTree, ?_⟩
      refine stages_of_turn LeavesTree hTurn ?_ ?_ ?_ ?_ hTasks
      · intro prepared
        simp
      · intro prepared
        simp
      · intro prepared
        simp
      · intro file point hPoint
        cases point with
        | entering =>
            intro prepared
            simp only [advance]
            split <;> simp
        | admitting =>
            intro prepared
            simp only [advance]
            split <;> simp
        | preparing =>
            intro prepared
            simp only [advance]
            split
            · simp
            · next found hFound =>
                rw [hTree] at hFound
                exact absurd hFound (hUnprepared file found)
        | making prepared => exact absurd rfl (hPoint prepared).1
        | writing prepared =>
            exact absurd rfl (hPoint prepared).2
        | recording target includes =>
            intro prepared
            simp [advance]
        | submitting includes =>
            intro prepared
            cases includes <;> simp [advance]
        | reporting fault =>
            intro prepared
            simp [advance]
        | releasing =>
            intro prepared
            simp [advance]
  exact hAll.1

/- A build ends with a fault that the lead has heard of. -/
theorem failed_of_outcome?
    {fault : BuildFault}
    (h : state.outcome? = some (.error fault)) :
    .failed fault ∈ state.posted := by
  unfold outcome? at h
  split at h
  · cases h
  · next hLead =>
      cases h
      simp [posted, hLead, Lead.taken?]
  · cases h

end BuildState

-- How Builds Start

/- Is the number of workers of a build settled? -/
def BuildRequest.HasWorkers
    (request : BuildRequest)
    (surroundings : Surroundings) : Prop :=
  ∃ workers,
    workerCount request.workers surroundings.setting
      surroundings.processors = .ok workers

/- A build that fails and leaves the tree as it was. -/
structure Build.FailsUntouched
    (build : Build)
    (tree : FileTree) : Prop where
  fails : ∃ fault, build.outcome = some (.error fault)
  untouched : build.tree = tree

theorem Build.failsUntouched_refused
    (fault : BuildFault)
    (tree : FileTree) :
    (Build.refused fault tree).FailsUntouched tree :=
  ⟨⟨fault, rfl⟩, rfl⟩

section Start

variable {surroundings : Surroundings}
variable {request : BuildRequest} {tree : FileTree}

/- Without workers the guard is not asked. -/
theorem compile_of_no_workers
    (h : ¬ request.HasWorkers surroundings) :
    ∃ fault, ¬ fault.IsRefusal ∧
      compile surroundings request tree =
        .refused fault tree := by
  unfold compile
  cases hCount : workerCount request.workers
      surroundings.setting surroundings.processors with
  | ok workers => exact absurd ⟨workers, hCount⟩ h
  | error fault =>
      exact ⟨fault, not_isRefusal_of_workerCount hCount, rfl⟩

/- A removal that fails is the end of the build. -/
theorem compile_of_not_removed
    {fault : BuildFault}
    (hWorkers : request.HasWorkers surroundings)
    (hFault :
      removeOutput (request.roots surroundings.directory)
        tree = .error fault) :
    compile surroundings request tree =
      .refused fault tree := by
  rcases hWorkers with ⟨workers, hCount⟩
  simp [compile, hCount, hFault]

theorem one_le_of_workerCount
    {workers : Int}
    (h : workerCount argument setting processors =
      .ok workers) :
    1 ≤ workers := by
  simp only [workerCount] at h
  split at h
  · cases h
  · split at h
    · cases h
    · cases h
      omega

/- Otherwise it is a run to the end on what was left. -/
theorem compile_of_removed
    {removed : FileTree}
    (hWorkers : request.HasWorkers surroundings)
    (hRemoved :
      removeOutput (request.roots surroundings.directory)
        tree = .ok removed) :
    ∃ workers state,
      BuildState.Reaches
          (request.roots surroundings.directory) workers
          (request.machine
            (request.roots surroundings.directory) removed)
          state ∧
        (∃ outcome, state.outcome? = some outcome) ∧
        compile surroundings request tree =
          .ofState removed state := by
  rcases hWorkers with ⟨workers, hCount⟩
  refine ⟨workers, _,
    (BuildState.reaches_runInOrder _ workers _).1,
    BuildState.outcome?_runInOrder _
      (one_le_of_workerCount hCount) removed _, ?_⟩
  simp [compile, hCount, hRemoved]

/- Every build comes to an outcome. -/
theorem exists_outcome
    (surroundings : Surroundings)
    (request : BuildRequest)
    (tree : FileTree) :
    ∃ outcome,
      (compile surroundings request tree).outcome =
        some outcome := by
  by_cases hWorkers : request.HasWorkers surroundings
  · cases hRemoved : removeOutput
        (request.roots surroundings.directory) tree with
    | error fault =>
        rw [compile_of_not_removed hWorkers hRemoved]
        exact ⟨_, rfl⟩
    | ok removed =>
        rcases compile_of_removed hWorkers hRemoved with
          ⟨_, state, _, hOutcome, hBuild⟩
        rw [hBuild]
        exact hOutcome
  · rcases compile_of_no_workers hWorkers with
      ⟨fault, _, hBuild⟩
    rw [hBuild]
    exact ⟨_, rfl⟩

/- Only the guard refuses, and it does so before all else. -/
theorem compile_refuses_iff :
    (∃ fault,
        (compile surroundings request tree).outcome =
            some (.error fault) ∧
          fault.IsRefusal) ↔
      request.HasWorkers surroundings ∧
        (request.roots
          surroundings.directory).outputHoldsSource =
            true := by
  constructor
  · intro h
    rcases h with ⟨fault, hOutcome, hRefusal⟩
    have hWorkers : request.HasWorkers surroundings := by
      by_contra hNone
      rcases compile_of_no_workers hNone with
        ⟨other, hOther, hBuild⟩
      rw [hBuild] at hOutcome
      cases hOutcome
      exact hOther hRefusal
    refine ⟨hWorkers, ?_⟩
    by_contra hGuard
    cases hRemoved : removeOutput
        (request.roots surroundings.directory) tree with
    | error other =>
        rw [compile_of_not_removed hWorkers hRemoved]
          at hOutcome
        cases hOutcome
        rcases BuildFault.isRefusal_iff.mp hRefusal with
          ⟨output, source, hFault⟩
        subst hFault
        unfold removeOutput at hRemoved
        rw [if_neg hGuard] at hRemoved
        split at hRemoved
        · split at hRemoved <;> cases hRemoved
        · cases hRemoved
    | ok removed =>
        rcases compile_of_removed hWorkers hRemoved with
          ⟨workers, state, hReaches, _, hBuild⟩
        rw [hBuild] at hOutcome
        exact BuildState.not_isRefusal_of_reaches hReaches
          (BuildState.failed_of_outcome? hOutcome) hRefusal
  · intro h
    rcases h with ⟨hWorkers, hGuard⟩
    rw [compile_of_not_removed hWorkers
      (removeOutput_of_guard hGuard tree)]
    exact ⟨_, rfl, BuildFault.isRefusal_iff.mpr ⟨_, _, rfl⟩⟩

/- A build that cannot remove its output touches nothing. -/
theorem failsUntouched_of_not_removed
    (h : request.HasWorkers surroundings →
      ∃ fault,
        removeOutput (request.roots surroundings.directory)
          tree = .error fault) :
    (compile surroundings request tree).FailsUntouched
      tree := by
  by_cases hWorkers : request.HasWorkers surroundings
  · rcases h hWorkers with ⟨fault, hFault⟩
    rw [compile_of_not_removed hWorkers hFault]
    exact Build.failsUntouched_refused fault tree
  · rcases compile_of_no_workers hWorkers with
      ⟨fault, _, hBuild⟩
    rw [hBuild]
    exact Build.failsUntouched_refused fault tree

end Start

-- The Source Root

/- No source is left to prepare once its root is removed. -/
theorem Roots.Encloses.not_prepare
    {roots : Roots}
    {tree : FileTree}
    {place : Place}
    (h : roots.Encloses tree place)
    (hPlace : place ≠ [])
    (file : Path)
    (prepared : Prepared) :
    roots.prepare (tree.erase place) file ≠ .ok prepared := by
  intro hPrepared
  rcases h.source with ⟨located, hSource, hAbove⟩
  unfold prepare prepareWith Path.relativeTo at hPrepared
  cases hBelow : Path.below? roots.source file with
  | none => simp [hBelow] at hPrepared
  | some below =>
      rcases Path.below?_eq_some_iff.mp hBelow with
        ⟨hNonempty, hFile⟩
      cases hRead : (tree.erase place).read file with
      | error fault => simp [hBelow, hRead] at hPrepared
      | ok content =>
          exact FileTree.read_erased hPlace hSource hAbove
            hNonempty hFile content hRead

/- A missed output root is removed, and that is all. -/
theorem Roots.IsMissed.compile_tree
    {surroundings : Surroundings}
    {request : BuildRequest}
    {tree : FileTree}
    {place : Place}
    (hDirectory : surroundings.directory.IsCanonical)
    (hWorkers : request.HasWorkers surroundings)
    (hEncloses :
      (request.roots surroundings.directory).Encloses tree
        place)
    (h : (request.roots surroundings.directory).IsMissed tree
      place) :
    place ≠ [] ∧
      (compile surroundings request tree).tree =
        tree.erase place := by
  have hSource := hDirectory.resolve request.source
  have hOutput := hDirectory.resolve request.output
  have hSegments :
      (request.roots surroundings.directory).output.segments ≠
        [] := by
    intro hRoot
    apply h.unspelled
    rw [SpelledWithin, hRoot]
    exact ⟨List.nil_prefix, .inl rfl⟩
  have hPlace :=
    FileTree.ne_root_of_find hOutput hSegments h.unlinked
  have hGuard : (request.roots
      surroundings.directory).outputHoldsSource = false :=
    Bool.eq_false_iff.mpr fun hHolds =>
      h.unspelled
        ((outputHoldsSource_iff hSource hOutput).mp hHolds)
  have hRemoved := (removeOutput_of_encloses hGuard
    hEncloses.output).1 h.unlinked
  rcases compile_of_removed hWorkers hRemoved with
    ⟨workers, state, hReaches, _, hBuild⟩
  rw [hBuild]
  exact ⟨hPlace, BuildState.tree_of_unprepared
    (hEncloses.not_prepare hPlace) hReaches⟩

/-
  A build refuses to remove its output root just if the
  segments of that root start those of the source root, and
  the two are spelled with the same number of slashes. Then
  it fails, and nothing is touched.

  Let the output root denote a directory that is the source
  root or holds it. If there are no links on the way, and as
  many slashes, the guard sees that. If it does not, and the
  output root is not itself a link, the directory is removed
  with all that is below it, the source root as well, and
  nothing is written. In all other cases the build fails and
  nothing is touched.
-/
theorem BuildRequest.guards_the_source_root
    (request : BuildRequest)
    (surroundings : Surroundings)
    (hDirectory : surroundings.directory.IsCanonical)
    (tree : FileTree) :
    let roots := request.roots surroundings.directory
    let build := compile surroundings request tree
    ((∃ fault,
        build.outcome = some (.error fault) ∧
          fault.IsRefusal) ↔
      request.HasWorkers surroundings ∧
        roots.SpelledWithin) ∧
    (roots.SpelledWithin → build.FailsUntouched tree) ∧
    ∀ place, roots.Encloses tree place →
      (roots.output.slashes = roots.source.slashes →
        tree.Linkless roots.output →
        tree.Linkless roots.source →
          roots.SpelledWithin) ∧
      (request.HasWorkers surroundings →
        roots.IsMissed tree place →
        ∀ other, build.tree.get? other =
          if place <+: other then none
          else tree.get? other) ∧
      (¬ (request.HasWorkers surroundings ∧
          roots.IsMissed tree place) →
        build.FailsUntouched tree) := by
  intro roots build
  have hSource : roots.source.IsCanonical :=
    hDirectory.resolve request.source
  have hOutput : roots.output.IsCanonical :=
    hDirectory.resolve request.output
  have hGuard := Roots.outputHoldsSource_iff hSource hOutput
  have hRefused (h : roots.SpelledWithin) :=
    removeOutput_of_guard (hGuard.mpr h) tree
  refine ⟨?_, ?_, ?_⟩
  · rw [← hGuard]
    exact compile_refuses_iff
  · intro hSpelled
    exact failsUntouched_of_not_removed
      (fun _ => ⟨_, hRefused hSpelled⟩)
  · intro place hEncloses
    refine ⟨?_, ?_, ?_⟩
    · exact hEncloses.spelledWithin hSource hOutput
    · intro hWorkers hMissed other
      rcases hMissed.compile_tree hDirectory hWorkers
        hEncloses with ⟨hPlace, hTree⟩
      rw [show build.tree = _ from hTree]
      exact FileTree.get?_erase hPlace other
    · intro hNot
      apply failsUntouched_of_not_removed
      intro hWorkers
      by_cases hSpelled : roots.SpelledWithin
      · exact ⟨_, hRefused hSpelled⟩
      · -- the output root is a link
        have hUnseen : roots.outputHoldsSource = false :=
          Bool.eq_false_iff.mpr
            (fun hHolds => hSpelled (hGuard.mp hHolds))
        rcases (removeOutput_of_encloses hUnseen
          hEncloses.output).2
          (fun hFind => hNot ⟨hWorkers, hSpelled, hFind⟩)
          with ⟨fault, hFault⟩
        exact ⟨_, hFault⟩

-- Hidden Source Roots

namespace Hidden

/- A source below r, and a link to r. -/
def tree : FileTree where
  entries :=
    [([['r']], .directory),
     ([['r'], ['s']], .directory),
     ([['r'], ['s'], ['a']], .file []),
     ([['l']], .link ['r'])]

def surroundings : Surroundings where
  directory := ⟨1, []⟩
  setting := none
  processors := none

/- A build from one root to another. -/
def request
    (source output : Text) : BuildRequest where
  inputs := [['a']]
  source := source
  output := output
  workers := none

/- The output root is r, and the source root leads there. -/
def linked : BuildRequest :=
  request "l/s".toList ['r']

/- The output root is r, spelled with two slashes. -/
def slashed : BuildRequest :=
  request "r/s".toList "//r".toList

theorem isCanonical_directory :
    surroundings.directory.IsCanonical :=
  ⟨by decide, by simp [surroundings]⟩

theorem hasWorkers
    {request : BuildRequest}
    (h : request.workers = none) :
    request.HasWorkers surroundings :=
  ⟨1, by rw [h]; rfl⟩

theorem encloses_linked :
    (linked.roots surroundings.directory).Encloses tree
      [['r']] where
  output := ⟨by cbv, by decide⟩
  source := ⟨.present [['r'], ['s']], by cbv, by decide⟩

theorem isMissed_linked :
    (linked.roots surroundings.directory).IsMissed tree
      [['r']] where
  unspelled := by
    unfold Roots.SpelledWithin
    decide
  unlinked := by cbv

theorem encloses_slashed :
    (slashed.roots surroundings.directory).Encloses tree
      [['r']] where
  output := ⟨by cbv, by decide⟩
  source := ⟨.present [['r'], ['s']], by cbv, by decide⟩

theorem isMissed_slashed :
    (slashed.roots surroundings.directory).IsMissed tree
      [['r']] where
  unspelled := by
    unfold Roots.SpelledWithin
    decide
  unlinked := by cbv

end Hidden

/-
  Without a link or a second slash the build is refused, and
  the source stays. Behind a link it is removed.
-/
theorem BuildRequest.guards_a_linked_source_root :
    (compile Hidden.surroundings
        (Hidden.request "r/s".toList ['r'])
        Hidden.tree).FailsUntouched Hidden.tree ∧
      (compile Hidden.surroundings Hidden.linked
        Hidden.tree).tree.get? [['r'], ['s'], ['a']] =
          none := by
  have hSpelled := guards_the_source_root
    (Hidden.request "r/s".toList ['r']) Hidden.surroundings
    Hidden.isCanonical_directory Hidden.tree
  have hLinked := guards_the_source_root Hidden.linked
    Hidden.surroundings Hidden.isCanonical_directory
    Hidden.tree
  constructor
  · apply hSpelled.2.1
    unfold Roots.SpelledWithin
    decide
  · have hGone := (hLinked.2.2 _ Hidden.encloses_linked).2.1
      (Hidden.hasWorkers rfl) Hidden.isMissed_linked
      [['r'], ['s'], ['a']]
    rw [hGone, if_pos (by decide)]

/-
  The output root denotes a directory that holds the source
  root, but the build does not stop at that: it removes the
  source, behind a link or behind a second slash.
-/
theorem BuildRequest.removes_a_hidden_source_root :
    Hidden.tree.get? [['r'], ['s'], ['a']] ≠ none ∧
      ∀ request ∈ [Hidden.linked, Hidden.slashed],
        (request.roots
            Hidden.surroundings.directory).Encloses
          Hidden.tree [['r']] ∧
        (compile Hidden.surroundings request
          Hidden.tree).tree.get? [['r'], ['s'], ['a']] =
            none := by
  have hErased :
      (Hidden.tree.erase [['r']]).get? [['r'], ['s'], ['a']] =
        none := by
    decide
  refine ⟨by decide, ?_⟩
  rw [List.forall_mem_cons, List.forall_mem_singleton]
  constructor
  · refine ⟨Hidden.encloses_linked, ?_⟩
    rw [(Hidden.isMissed_linked.compile_tree
      Hidden.isCanonical_directory (Hidden.hasWorkers rfl)
      Hidden.encloses_linked).2]
    exact hErased
  · refine ⟨Hidden.encloses_slashed, ?_⟩
    rw [(Hidden.isMissed_slashed.compile_tree
      Hidden.isCanonical_directory (Hidden.hasWorkers rfl)
      Hidden.encloses_slashed).2]
    exact hErased

end ThriftTypings
