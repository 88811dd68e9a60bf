import ThriftTypings.Proofs.Build.Accounting
import ThriftTypings.Proofs.Build.Needed

/-
  This file proves what holds in every state of a build,
  also of one that fails: only needed sources are worked on,
  the tree grows by their modules alone, and every fault is
  that of a needed source that does not compile.

  Key definitions include:
    * `BuildState.Blamed`
    * `BuildState.Known`

  Key theorems include:
    * `BuildState.Traced.turn`
    * `BuildState.traced_of_reaches`
-/

namespace ThriftTypings

namespace BuildState

variable {prepared : Prepared} {fault : BuildFault}
variable {actor : Actor} {index : Nat}

variable {point : Point} {task : Task}

variable {roots : Roots} {workers : Int}
variable {tree : FileTree} {files : List Path}
variable {state after : BuildState} {file : Path}

-- What a Turn Does to Each Part of a State

@[simp] theorem submit_tree
    (state : BuildState)
    (file : Path) :
    (state.submit file).tree = state.tree := by
  unfold submit
  split <;> rfl

@[simp] theorem submit_seen
    (state : BuildState)
    (file : Path) :
    (state.submit file).seen = state.seen := by
  unfold submit
  split <;> rfl

@[simp] theorem release_tree
    (state : BuildState) :
    state.release.tree = state.tree := by
  simp only [release]
  split <;> rfl

@[simp] theorem release_seen
    (state : BuildState) :
    state.release.seen = state.seen := by
  simp only [release]
  split <;> rfl

theorem mem_submit_tasks
    (h : task ∈ (state.submit file).tasks) :
    task ∈ state.tasks ∨ task = ⟨file, .queued⟩ := by
  cases hAborted : state.aborted with
  | true =>
      rw [submit_of_aborted hAborted] at h
      exact .inl h
  | false =>
      rw [submit_tasks hAborted] at h
      simpa using h

theorem mem_settle_tasks
    {stage : Stage}
    (h : task ∈ (state.settle index file stage).tasks) :
    task ∈ state.tasks ∨ task = ⟨file, stage⟩ :=
  List.mem_or_eq_of_mem_set h

/- The tasks that a running task leaves to the others. -/
theorem mem_advance_tasks
    (h : task ∈ (state.advance roots file point).1.tasks) :
    task ∈ state.tasks ∨
      ∃ include_ more,
        point = .submitting (include_ :: more) ∧
          task = ⟨file.included include_, .queued⟩ := by
  rcases exists_effect roots state file point with
    ⟨next, stage, hAdvance, hEffect⟩
  rw [hAdvance] at h
  cases hEffect with
  | quiet tree seen written point => exact .inl h
  | submits include_ more =>
      rcases mem_submit_tasks h with hOld | hNew
      · exact .inl hOld
      · exact .inr ⟨include_, more, rfl, hNew⟩
  | reports fault => exact .inl h
  | releases =>
      rw [release_tasks] at h
      exact .inl h

@[simp] theorem advance_lead
    (roots : Roots)
    (state : BuildState)
    (file : Path)
    (point : Point) :
    (state.advance roots file point).1.lead =
      state.lead := by
  rcases exists_effect roots state file point with
    ⟨next, stage, hAdvance, hEffect⟩
  rw [hAdvance]
  cases hEffect with
  | quiet tree seen written point => rfl
  | submits include_ more => exact submit_lead _ _
  | reports fault => rfl
  | releases => exact release_lead _

/- A running task records no source but its own. -/
theorem mem_advance_seen
    {other : Path}
    (h : other ∈ (state.advance roots file point).1.seen) :
    other = file ∨ other ∈ state.seen := by
  cases point with
  | admitting =>
      simp only [advance] at h
      split at h
      · exact .inr h
      · exact List.mem_cons.mp h
  | entering =>
      simp only [advance] at h
      split at h <;> exact .inr h
  | preparing =>
      simp only [advance] at h
      split at h <;> exact .inr h
  | making prepared =>
      simp only [advance] at h
      split at h <;> exact .inr h
  | writing prepared =>
      simp only [advance] at h
      split at h <;> exact .inr h
  | recording target includes => exact .inr h
  | submitting includes =>
      cases includes with
      | nil => exact .inr h
      | cons include_ more =>
          rw [advance, submit_seen] at h
          exact .inr h
  | reporting fault => exact .inr h
  | releasing =>
      rw [advance, release_seen] at h
      exact .inr h

theorem mem_cancelled_tasks
    (h : task ∈ state.tasks.map cancelled) :
    task ∈ state.tasks ∨
      ⟨task.file, .queued⟩ ∈ state.tasks ∧
        task.stage = .cancelled := by
  rcases List.mem_map.mp h with ⟨old, hOld, rfl⟩
  simp only [cancelled]
  split
  · next hQueued =>
      have hStage : old.stage = .queued := by
        simpa [isQueued] using hQueued
      exact .inr ⟨by rw [← hStage]; exact hOld, rfl⟩
  · exact .inl hOld

/- Only a running task that reports adds a fault. -/
theorem failed_of_turn
    (hTurn : Turn roots workers state actor after)
    (h : .failed fault ∈ after.posted) :
    .failed fault ∈ state.posted ∨
      ∃ file,
        ⟨file, .running (.reporting fault)⟩ ∈
          state.tasks := by
  have hRelease
      (hPosted : .failed fault ∈ state.release.posted) :
      .failed fault ∈ state.posted := by
    simp only [posted, release_lead, release_messages]
      at hPosted ⊢
    split at hPosted
    · simpa using hPosted
    · exact hPosted
  cases hTurn with
  | leadSubmits hLead =>
      refine .inl ?_
      simpa [posted, hLead, Lead.taken?] using h
  | leadCloses hLead =>
      refine .inl ?_
      simpa [posted, hLead, Lead.taken?] using h
  | leadReleases hLead =>
      refine .inl (hRelease ?_)
      simpa [posted, hLead, Lead.taken?] using h
  | leadTakes hLead hMessages =>
      refine .inl ?_
      simpa [posted, hLead, hMessages, Lead.taken?] using h
  | leadAborts hLead =>
      refine .inl ?_
      simpa [posted, hLead, Lead.taken?] using h
  | leadCancels hLead =>
      refine .inl ?_
      simpa [posted, hLead, Lead.taken?] using h
  | leadJoins hLead hIdle =>
      refine .inl ?_
      simpa [posted, hLead, Lead.taken?] using h
  | taskStarts hTask hMay => exact .inl h
  | @taskRuns index other point hTask =>
      rcases exists_effect roots state other point with
        ⟨next, stage, hAdvance, hEffect⟩
      rw [hAdvance] at h
      cases hEffect with
      | quiet tree seen written point => exact .inl h
      | submits include_ more =>
          refine .inl ?_
          simpa [posted, settle] using h
      | reports found =>
          simp only [posted, settle, post, List.mem_append,
            List.mem_singleton, Message.failed.injEq] at h ⊢
          rcases h with hTaken | hQueue | rfl
          · exact .inl (.inl hTaken)
          · exact .inl (.inr hQueue)
          · exact .inr ⟨other, List.mem_of_getElem? hTask⟩
      | releases => exact .inl (hRelease h)

-- What Is Known of a Running Task

/-
  A fault to blame a source for: a needed one that does not
  compile went wrong in just this way, in the tree of a
  state that the build has passed.
-/
def Blamed
    (roots : Roots)
    (workers : Int)
    (tree : FileTree)
    (files : List Path)
    (state : BuildState)
    (fault : BuildFault) : Prop :=
  ∃ file met,
    Needed tree files file ∧
      ¬ roots.Compiles tree files file ∧
      Reaches roots workers (start tree files) met ∧
      Reaches roots workers met state ∧
      roots.Fails met.tree file fault

/- The module of a source is there, and may be. -/
def Stands
    (roots : Roots)
    (now : FileTree)
    (file : Path) : Prop :=
  now.IsFile (roots.target file).segments ∧
    (roots.target file).IsLegal

/- What holds for a source whose task is at some point. -/
def Known
    (roots : Roots)
    (workers : Int)
    (tree : FileTree)
    (files : List Path)
    (state : BuildState)
    (file : Path) : Point → Prop
  | .making prepared =>
      roots.prepare tree file = .ok prepared
  | .writing prepared =>
      roots.prepare tree file = .ok prepared ∧
        state.tree.get?
            (roots.target file).parent.segments =
          some .directory
  | .recording target includes =>
      Stands roots state.tree file ∧
        target = roots.target file ∧
        ∃ prepared,
          roots.prepare tree file = .ok prepared ∧
            includes = prepared.rendering.includes
  | .submitting includes =>
      Stands roots state.tree file ∧
        ∃ prepared,
          roots.prepare tree file = .ok prepared ∧
            includes <:+ prepared.rendering.includes
  | .reporting fault =>
      Blamed roots workers tree files state fault
  | _ => True

theorem Stands.persists
    {now later : FileTree}
    (hPersists : Roots.Persists now later)
    (h : Stands roots now file) :
    Stands roots later file :=
  ⟨(hPersists _).2 h.1, h.2⟩

theorem Blamed.later
    (hLater : Reaches roots workers state after)
    (h : Blamed roots workers tree files state fault) :
    Blamed roots workers tree files after fault := by
  rcases h with
    ⟨file, met, hNeeded, hNot, hMet, hState, hFails⟩
  exact ⟨file, met, hNeeded, hNot, hMet,
    hState.trans hLater, hFails⟩

theorem Known.later
    (hPersists : Roots.Persists state.tree after.tree)
    (hLater : Reaches roots workers state after)
    (h : Known roots workers tree files state file point) :
    Known roots workers tree files after file point := by
  cases point with
  | writing prepared =>
      exact ⟨h.1, (hPersists _).1 h.2⟩
  | recording target includes =>
      exact ⟨h.1.persists hPersists, h.2⟩
  | submitting includes =>
      exact ⟨h.1.persists hPersists, h.2⟩
  | entering => exact h
  | admitting => exact h
  | preparing => exact h
  | making prepared => exact h
  | reporting fault => exact Blamed.later hLater h
  | releasing => exact h

/- What was prepared belongs below the roots. -/
theorem holds_of_prepare
    (h : roots.prepare tree file = .ok prepared) :
    roots.Holds file ∧ prepared.target = roots.target file := by
  rcases Roots.prepare_eq_ok_iff.mp h with
    ⟨below, _, _, hBelow, hSegments, _, _, rfl⟩
  exact ⟨⟨below, hBelow, hSegments⟩, rfl⟩

/- What a needed source includes is needed. -/
theorem needed_of_prepare
    (hNeeded : Needed tree files file)
    (h : roots.prepare tree file = .ok prepared)
    {include_ : Text}
    (hMem : include_ ∈ prepared.rendering.includes) :
    Needed tree files (file.included include_) := by
  rcases Roots.prepare_eq_ok_iff.mp h with
    ⟨_, document, _, _, _, hDocument, _, rfl⟩
  rcases Idl.Document.mem_includes_iff.mp hMem with
    ⟨found, hFound, rfl⟩
  exact hNeeded.inclusion hDocument hFound

/-
  A running task goes on as it should, or with a fault to
  blame its source for.
-/
theorem known_advance
    (hReady : roots.IsReady tree files)
    (hReached :
      Reaches roots workers (start tree files) state)
    (hGrown : roots.Grown tree files state.tree)
    (hNeeded : Needed tree files file)
    (hKnown :
      Known roots workers tree files state file point) :
    roots.Grown tree files
        (state.advance roots file point).1.tree ∧
      Roots.Persists state.tree
        (state.advance roots file point).1.tree ∧
      ∀ after next,
        Reaches roots workers state after →
          after.tree =
              (state.advance roots file point).1.tree →
            (state.advance roots file point).2 =
                .running next →
              Known roots workers tree files after file
                next := by
  have hSame := Roots.persists_refl state.tree
  have hBlame {fault : BuildFault} {after : BuildState}
      (hFails : roots.Fails state.tree file fault)
      (hLater : Reaches roots workers state after)
      (hNot : ¬ roots.Compiles tree files file) :
      Blamed roots workers tree files after fault :=
    ⟨file, state, hNeeded, hNot, hReached, hLater, hFails⟩
  cases point with
  | entering =>
      simp only [advance]
      split <;>
        exact ⟨hGrown, hSame, by rintro _ _ _ _ ⟨⟩; trivial⟩
  | admitting =>
      simp only [advance]
      split <;>
        exact ⟨hGrown, hSame, by rintro _ _ _ _ ⟨⟩; trivial⟩
  | preparing =>
      simp only [advance]
      split
      · next fault hFault =>
          refine ⟨hGrown, hSame, ?_⟩
          rintro after _ hLater hTree ⟨⟩
          refine hBlame (.unprepared hFault) hLater
            fun hCompiles => ?_
          rcases hCompiles.prepare with
            ⟨prepared, hPrepared⟩
          have hNow :=
            (hGrown.prepare_iff hReady hNeeded).mpr hPrepared
          simp [hFault] at hNow
      · next prepared hPrepared =>
          refine ⟨hGrown, hSame, ?_⟩
          rintro after _ hLater hTree ⟨⟩
          exact (hGrown.prepare_iff hReady hNeeded).mp
            hPrepared
  | making prepared =>
      rcases holds_of_prepare hKnown with ⟨hHolds, hTarget⟩
      rcases hGrown.makeDirectories hReady hNeeded hHolds
        with
        ⟨hAfter, hPersists⟩
      have hCanonical :=
        (hReady.target_spec hNeeded hHolds).1
      rcases FileTree.widens_makeDirectories hGrown.plain
          hCanonical.parent with
        ⟨_, _, hMade⟩
      rw [← hTarget] at hAfter hPersists hMade
      simp only [advance]
      split
      · next hOk =>
          rw [hOk] at hAfter hPersists hMade
          refine ⟨hAfter, hPersists, ?_⟩
          rintro after _ hLater hTree ⟨⟩
          refine ⟨hKnown, ?_⟩
          rw [hTree, ← hTarget]
          exact hMade rfl
      · next cause _ hFault =>
          have hCause := congrArg Prod.fst hFault
          rw [hFault] at hAfter hPersists
          refine ⟨hAfter, hPersists, ?_⟩
          rintro after _ hLater hTree ⟨⟩
          refine hBlame (.unmade
            ((hGrown.prepare_iff hReady hNeeded).mpr hKnown)
            hCause) hLater fun hCompiles => ?_
          have hMakes :=
            hCompiles.makeDirectories hReady hGrown hNeeded
          rw [← hTarget, hCause] at hMakes
          cases hMakes
  | writing prepared =>
      rcases hKnown with ⟨hPrepared, hParent⟩
      rcases holds_of_prepare hPrepared with
        ⟨hHolds, hTarget⟩
      simp only [advance, hTarget]
      split
      · next hOk =>
          rcases hGrown.write hReady hNeeded hHolds hOk with
            ⟨hAfter, hPersists, hFile, hLegal⟩
          refine ⟨hAfter, hPersists, ?_⟩
          rintro after _ hLater hTree ⟨⟩
          refine ⟨⟨?_, hLegal⟩, rfl, prepared, hPrepared, rfl⟩
          rw [hTree]
          exact hFile
      · next cause hFault =>
          refine ⟨hGrown, hSame, ?_⟩
          rintro after _ hLater hTree ⟨⟩
          refine hBlame (.unwritten
            ((hGrown.prepare_iff hReady hNeeded).mpr
              hPrepared)
            (hTarget ▸ hFault)) hLater fun hCompiles => ?_
          rcases hCompiles.write hReady
            hGrown hNeeded hParent
            (Utf8.encode prepared.rendering.text) with
            ⟨after, hWrites⟩
          simp [hFault] at hWrites
  | recording target includes =>
      rcases hKnown with
        ⟨hStands, _, prepared, hPrepared, rfl⟩
      refine ⟨hGrown, hSame, ?_⟩
      rintro after _ hLater hTree ⟨⟩
      exact ⟨hTree ▸ hStands, prepared, hPrepared,
        List.suffix_rfl⟩
  | submitting includes =>
      cases includes with
      | nil =>
          exact ⟨hGrown, hSame, by rintro _ _ _ _ ⟨⟩; trivial⟩
      | cons include_ more =>
          rcases hKnown with
            ⟨hStands, prepared, hPrepared, hSuffix⟩
          simp only [advance, submit_tree]
          refine ⟨hGrown, hSame, ?_⟩
          rintro after _ hLater hTree ⟨⟩
          exact ⟨hTree ▸ hStands, prepared, hPrepared,
            (List.suffix_cons _ _).trans hSuffix⟩
  | reporting fault =>
      exact ⟨hGrown, hSame, by rintro _ _ _ _ ⟨⟩; trivial⟩
  | releasing =>
      simp only [advance, release_tree]
      exact ⟨hGrown, hSame, by rintro _ _ _ _ ⟨⟩⟩

-- Every State of a Build

/- All that is done can be traced to the needed sources. -/
structure Traced
    (roots : Roots)
    (workers : Int)
    (tree : FileTree)
    (files : List Path)
    (state : BuildState) : Prop where
  reached : Reaches roots workers (start tree files) state
  grown : roots.Grown tree files state.tree
  inputs : ∀ more, state.lead = .submitting more →
    ∀ file ∈ more, file ∈ files
  tasks : ∀ task ∈ state.tasks,
    Needed tree files task.file
  seen : ∀ file ∈ state.seen, Needed tree files file
  points : ∀ file point,
    ⟨file, .running point⟩ ∈ state.tasks →
      Known roots workers tree files state file point
  faults : ∀ fault, .failed fault ∈ state.posted →
    Blamed roots workers tree files state fault

theorem traced_start
    (hReady : roots.IsReady tree files) :
    Traced roots workers tree files (start tree files) where
  reached := .refl
  grown := hReady.grown
  inputs := by
    rintro more ⟨⟩ file hMem
    exact hMem
  tasks := by simp [start]
  seen := by simp [start]
  points := by simp [start]
  faults := by simp [start, posted, Lead.taken?]

namespace Traced

/- A state with the same tree and no new running tasks. -/
theorem of_same_tree
    (h : Traced roots workers tree files state)
    (hLater : Reaches roots workers state after)
    (hTree : after.tree = state.tree)
    (hSeen : after.seen = state.seen)
    (hInputs : ∀ more, after.lead = .submitting more →
      ∀ file ∈ more, file ∈ files)
    (hTasks : ∀ task ∈ after.tasks, task ∈ state.tasks ∨
      Needed tree files task.file ∧
        ∀ point, task.stage = .running point →
          point = .entering)
    (hFaults : ∀ fault, .failed fault ∈ after.posted →
      Blamed roots workers tree files after fault) :
    Traced roots workers tree files after where
  reached := h.reached.trans hLater
  grown := hTree ▸ h.grown
  inputs := hInputs
  tasks := by
    intro task hMem
    rcases hTasks task hMem with hOld | hNew
    · exact h.tasks task hOld
    · exact hNew.1
  seen := hSeen ▸ h.seen
  points := by
    intro file point hMem
    have hPersists : Roots.Persists state.tree after.tree :=
      hTree ▸ Roots.persists_refl _
    rcases hTasks _ hMem with hOld | hNew
    · exact Known.later hPersists hLater
        (h.points file point hOld)
    · rw [hNew.2 point rfl]
      trivial
  faults := hFaults

/- The turn of a running task leaves everything traced. -/
theorem taskRuns
    (hReady : roots.IsReady tree files)
    (h : Traced roots workers tree files state)
    (hTask :
      state.tasks[index]? = some ⟨file, .running point⟩)
    (hAfter : after =
      (state.advance roots file point).1.settle index file
        (state.advance roots file point).2)
    (hLater : Reaches roots workers state after)
    (hFaults : ∀ fault, .failed fault ∈ after.posted →
      Blamed roots workers tree files after fault) :
    Traced roots workers tree files after := by
  subst hAfter
  have hMem := List.mem_of_getElem? hTask
  have hNeeded := h.tasks _ hMem
  have hKnown := h.points _ _ hMem
  rcases known_advance hReady
    h.reached h.grown hNeeded hKnown with
    ⟨hGrown, hPersists, hNext⟩
  refine ⟨h.reached.trans hLater, hGrown, ?_, ?_, ?_, ?_,
    hFaults⟩
  · intro more hLead
    exact h.inputs more (advance_lead roots state file point ▸
      hLead)
  · intro task hAfter
    rcases mem_settle_tasks hAfter with hOther | rfl
    · rcases mem_advance_tasks hOther with
        hOld | ⟨include_, more, rfl, rfl⟩
      · exact h.tasks task hOld
      · rcases hKnown with ⟨_, prepared, hPrepared, hSuffix⟩
        exact needed_of_prepare hNeeded hPrepared
          (hSuffix.subset (by simp))
    · exact hNeeded
  · intro other hOther
    rcases mem_advance_seen hOther with rfl | hOld
    · exact hNeeded
    · exact h.seen other hOld
  · intro other next hAfter
    rcases mem_settle_tasks hAfter with hOther | hHere
    · rcases mem_advance_tasks hOther with
        hOld | ⟨_, _, _, hNew⟩
      · exact Known.later hPersists hLater
          (h.points other next hOld)
      · cases hNew
    · rcases Task.mk.inj hHere with ⟨rfl, hStage⟩
      exact hNext _ next hLater rfl hStage.symm

/- Every turn leaves everything traced. -/
theorem turn
    (hReady : roots.IsReady tree files)
    (h : Traced roots workers tree files state)
    (hStep : Step roots workers state after)
    (hTurn : Turn roots workers state actor after) :
    Traced roots workers tree files after := by
  have hLater := Reaches.step .refl hStep
  have hFaults : ∀ fault, .failed fault ∈ after.posted →
      Blamed roots workers tree files after fault := by
    intro fault hFailed
    refine Blamed.later hLater ?_
    rcases failed_of_turn hTurn hFailed with
      hOld | ⟨other, hReports⟩
    · exact h.faults fault hOld
    · exact h.points other _ hReports
  cases hTurn with
  | @leadSubmits file more hLead =>
      have hInputs := h.inputs _ hLead
      refine h.of_same_tree hLater (by simp) (by simp) ?_ ?_
        hFaults
      · rintro _ ⟨⟩ other hOther
        exact hInputs other (by simp [hOther])
      · intro task hTask
        rcases mem_submit_tasks hTask with hOld | rfl
        · exact .inl hOld
        · refine .inr ⟨.input (hInputs file (by simp)), ?_⟩
          rintro _ ⟨⟩
  | leadCloses hLead =>
      exact h.of_same_tree hLater rfl rfl (by rintro _ ⟨⟩)
        (fun _ hTask => .inl hTask) hFaults
  | leadReleases hLead =>
      refine h.of_same_tree hLater (by simp) (by simp)
        (by rintro _ ⟨⟩) (fun task hTask => .inl ?_) hFaults
      simpa using hTask
  | leadTakes hLead hMessages =>
      exact h.of_same_tree hLater rfl rfl (by rintro _ ⟨⟩)
        (fun _ hTask => .inl hTask) hFaults
  | leadAborts hLead =>
      exact h.of_same_tree hLater rfl rfl (by rintro _ ⟨⟩)
        (fun _ hTask => .inl hTask) hFaults
  | leadCancels hLead =>
      refine h.of_same_tree hLater rfl rfl
        (by rintro _ ⟨⟩) (fun task hTask => ?_) hFaults
      rcases mem_cancelled_tasks hTask with
        hOld | ⟨hQueued, hStage⟩
      · exact .inl hOld
      · have hNeeded := h.tasks _ hQueued
        refine .inr ⟨hNeeded, fun point hPoint => ?_⟩
        rw [hStage] at hPoint
        cases hPoint
  | leadJoins hLead hIdle =>
      exact h.of_same_tree hLater rfl rfl (by rintro _ ⟨⟩)
        (fun _ hTask => .inl hTask) hFaults
  | taskStarts hTask hMay =>
      have hNeeded := h.tasks _ (List.mem_of_getElem? hTask)
      refine h.of_same_tree hLater rfl rfl h.inputs ?_
        hFaults
      intro task hAfter
      rcases mem_settle_tasks hAfter with hOld | rfl
      · exact .inl hOld
      · refine .inr ⟨hNeeded, ?_⟩
        rintro _ ⟨⟩
        rfl
  | taskRuns hTask =>
      exact h.taskRuns hReady hTask rfl hLater hFaults

end Traced

/- Everything is traced in every state of every run. -/
theorem traced_of_reaches
    (hReady : roots.IsReady tree files)
    (hReaches :
      Reaches roots workers (start tree files) state) :
    Traced roots workers tree files state := by
  induction hReaches with
  | refl => exact traced_start hReady
  | step _ hStep ih =>
      rcases hStep.turn with ⟨actor, hTurn⟩
      exact ih.turn hReady hStep hTurn

end BuildState

end ThriftTypings
