import ThriftTypings.Proofs.Build.Blame
import ThriftTypings.Proofs.Build.Ending
import ThriftTypings.Proofs.Idl.RoundTrip
import ThriftTypings.Proofs.Path.Order

/-
  This file proves that a build compiles what its inputs
  need, each source exactly once, whatever the order of
  turns.

  A run keeps a log of what its tasks do. As long as nothing
  goes wrong, a source that was admitted has a task that
  works on it, or all that it includes was submitted. So when
  all tasks are finished, the admitted sources are the needed
  ones.

  Key definitions include:
    * `Deed` and `BuildState.deed?`
    * `BuildState.Runs`

  Key theorems include:
    * `BuildState.mem_seen_iff_needed`
    * `BuildRequest.builds_the_include_closure`
-/

namespace ThriftTypings

variable {fault : BuildFault} {paths : List Path}
variable {point : Point}

variable {index : Nat} {actor : Actor}

-- Deeds

/-
  What tasks do with their sources: they parse them, write
  their modules, and record that they did.
-/
inductive Deed where
  | parses
  | writes
  | records
  deriving DecidableEq, Repr

namespace Point

/- What a task does when it goes on from a point. -/
def deed? : Point → Option Deed
  | .preparing => some .parses
  | .writing _ => some .writes
  | .recording _ _ => some .records
  | _ => none

/- Does an admitted task have something yet to do? -/
def awaits
    (deed : Deed) : Point → Bool
  | .preparing => true
  | .making _ => deed != .parses
  | .writing _ => deed != .parses
  | .recording _ _ => deed == .records
  | _ => false

/- Was the source of a task admitted? -/
def isAdmitted : Point → Bool
  | .entering => false
  | .admitting => false
  | _ => true

/- Is there something left to do for the source? -/
def isWorking : Point → Bool
  | .preparing => true
  | .making _ => true
  | .writing _ => true
  | .recording _ _ => true
  | .submitting _ => true
  | _ => false

end Point

namespace Stage

/- The same for stages: only a running task has to do. -/
def awaits
    (deed : Deed) : Stage → Bool
  | .running point => point.awaits deed
  | _ => false

def isAdmitted : Stage → Bool
  | .running point => point.isAdmitted
  | .finished => true
  | _ => false

end Stage

namespace BuildState

variable {roots : Roots} {workers : Int}
variable {tree : FileTree} {files : List Path}
variable {state after : BuildState} {file : Path}

/- What an actor does with its turn, and to which source. -/
def deed?
    (state : BuildState) : Actor → Option (Deed × Path)
  | .lead => none
  | .task index =>
      match state.tasks[index]? with
      | some ⟨file, .running point⟩ =>
          point.deed?.map fun deed => (deed, file)
      | _ => none

/- The states that runs lead to, with what was done. -/
inductive Runs
    (roots : Roots)
    (workers : Int)
    (start : BuildState) :
    List (Deed × Path) → BuildState → Prop where
  | refl : Runs roots workers start [] start
  | step
      {log : List (Deed × Path)}
      {middle final : BuildState}
      {actor : Actor}
      (before : Runs roots workers start log middle)
      (turn :
        middle.step? roots workers actor = some final) :
      Runs roots workers start
        (log ++ (middle.deed? actor).toList) final

@[simp] theorem submit_written
    (state : BuildState)
    (file : Path) :
    (state.submit file).written = state.written := by
  unfold submit
  split <;> rfl

@[simp] theorem release_written
    (state : BuildState) :
    state.release.written = state.written := by
  simp only [release]
  split <;> rfl

theorem Runs.reaches
    {start : BuildState}
    {log : List (Deed × Path)}
    (h : Runs roots workers start log state) :
    Reaches roots workers start state := by
  induction h with
  | refl => exact .refl
  | step _ hStep ih => exact .step ih ⟨_, hStep⟩

-- Calm Runs

/- Nothing went wrong: no fault was or will be reported. -/
structure Calm
    (state : BuildState) : Prop where
  posted : ∀ fault, .failed fault ∉ state.posted
  tasks : ∀ file fault,
    ⟨file, .running (.reporting fault)⟩ ∉ state.tasks

namespace Calm

/- A running task keeps running until it has its turn. -/
theorem task_stays
    (hTurn : Turn roots workers state actor after)
    (hTask :
      state.tasks[index]? = some ⟨file, .running point⟩)
    (hActor : actor ≠ .task index) :
    after.tasks[index]? =
      some ⟨file, .running point⟩ := by
  cases hTurn with
  | leadSubmits hLead => exact submit_task hTask _
  | leadCloses hLead => exact hTask
  | leadReleases hLead => simpa using hTask
  | leadTakes hLead hMessages => exact hTask
  | leadAborts hLead => exact hTask
  | leadCancels hLead =>
      simp [hTask, cancelled, isQueued]
  | leadJoins hLead hIdle => exact hTask
  | @taskStarts other _ hOther hMay =>
      have hIndex : other ≠ index := by
        rintro rfl
        exact hActor rfl
      simpa [settle, List.getElem?_set, hIndex] using hTask
  | @taskRuns other found old hOther =>
      have hIndex : other ≠ index := by
        rintro rfl
        exact hActor rfl
      rcases exists_effect roots state found old with
        ⟨next, stage, hAdvance, hEffect⟩
      rw [hAdvance]
      have hNext :
          next.tasks[index]? =
            some ⟨file, .running point⟩ := by
        cases hEffect with
        | quiet tree seen written point => exact hTask
        | submits include_ more => exact submit_task hTask _
        | reports fault => exact hTask
        | releases => simpa using hTask
      simpa [settle, List.getElem?_set, hIndex] using hNext

/- What goes wrong does not go away. -/
theorem of_turn
    (hTurn : Turn roots workers state actor after)
    (h : Calm after) :
    Calm state where
  posted := fun fault hFailed =>
    h.posted fault
      ((posted_prefix_of_turn hTurn).subset hFailed)
  tasks := by
    intro file fault hMem
    rcases List.getElem?_of_mem hMem with ⟨index, hTask⟩
    by_cases hActor : actor = .task index
    · subst hActor
      cases hTurn with
      | taskStarts hOther hMay => simp [hTask] at hOther
      | taskRuns hOther =>
          rw [hTask] at hOther
          cases hOther
          refine h.posted fault ?_
          simp [BuildState.posted, settle, advance, post]
    · have hStays := task_stays hTurn hTask hActor
      exact h.tasks file fault (List.mem_of_getElem? hStays)

/- A calm build is aborted only when all is finished. -/
theorem finished_of_aborted
    (hBooks : Accounted state)
    (h : Calm state)
    (hAborted : state.aborted = true) :
    ∀ task ∈ state.tasks, task.stage = .finished := by
  have hTaken :
      ∃ message, state.lead.taken? = some message := by
    rw [hBooks.aborted] at hAborted
    cases hLead : state.lead <;>
      simp_all [Lead.hasAborted, Lead.taken?]
  rcases hTaken with ⟨message, hMessage⟩
  cases message with
  | finished =>
      exact unreleased_eq_zero_iff.mp
        (hBooks.ended hMessage).1
  | failed fault =>
      refine absurd ?_ (h.posted fault)
      simp [BuildState.posted, hMessage]

theorem not_aborted
    {task : Task}
    (hBooks : Accounted state)
    (h : Calm state)
    (hMem : task ∈ state.tasks)
    (hStage : task.stage ≠ .finished) :
    state.aborted = false := by
  cases hAborted : state.aborted with
  | false => rfl
  | true =>
      exact absurd
        (h.finished_of_aborted hBooks hAborted task hMem)
        hStage

end Calm

-- What a Calm Run Has Covered

/- A source is dealt with, and all it includes submitted. -/
def Closed
    (roots : Roots)
    (tree : FileTree)
    (state : BuildState)
    (file : Path) : Prop :=
  Stands roots state.tree file ∧
    ∃ prepared,
      roots.prepare tree file = .ok prepared ∧
        ∀ include_ ∈ prepared.rendering.includes,
          file.included include_ ∈ state.submitted

/-
  What holds in a calm state, with what was done so far.
  Every input is submitted or still with the lead, every
  admitted source is worked on or closed, and what was done
  for a source or is yet to do is one for each admission.
-/
structure Covered
    (roots : Roots)
    (tree : FileTree)
    (files : List Path)
    (log : List (Deed × Path))
    (state : BuildState) : Prop where
  nodup : state.seen.Nodup
  inputs : ∀ file ∈ files, file ∈ state.submitted ∨
    ∃ more, state.lead = .submitting more ∧ file ∈ more
  admitted : ∀ task ∈ state.tasks,
    task.stage.isAdmitted = true → task.file ∈ state.seen
  closed : ∀ file ∈ state.seen,
    (∃ point, ⟨file, .running point⟩ ∈ state.tasks ∧
        point.isWorking = true) ∨
      Closed roots tree state file
  partly : ∀ file rest prepared,
    ⟨file, .running (.submitting rest)⟩ ∈ state.tasks →
      roots.prepare tree file = .ok prepared →
        ∃ before,
          prepared.rendering.includes = before ++ rest ∧
            ∀ include_ ∈ before,
              file.included include_ ∈ state.submitted
  deeds : ∀ deed file,
    log.count (deed, file) +
        state.tasks.countP (fun task =>
          task.file == file && task.stage.awaits deed) =
      state.seen.count file
  written : state.written =
    (log.filter fun done => done.1 == .records).map
      fun done => roots.target done.2

theorem covered_start :
    Covered roots tree files [] (start tree files) where
  nodup := by simp [start]
  inputs := fun file hMem => .inr ⟨files, rfl, hMem⟩
  admitted := by simp [start]
  closed := by simp [start]
  partly := by simp [start]
  deeds := by simp [start]
  written := by simp [start]

theorem Closed.mono
    (hPersists : Roots.Persists state.tree after.tree)
    (hSubmitted : state.submitted ⊆ after.submitted)
    (h : Closed roots tree state file) :
    Closed roots tree after file := by
  rcases h with ⟨hStands, prepared, hPrepared, hIncludes⟩
  exact ⟨hStands.persists hPersists, prepared, hPrepared,
    fun include_ hMem =>
      hSubmitted (hIncludes include_ hMem)⟩

namespace Covered

variable {log : List (Deed × Path)}

/- Tasks that only wait for a worker change nothing. -/
theorem of_queued
    (h : Covered roots tree files log state)
    (queued : List Task)
    (hQueued : ∀ task ∈ queued, task.stage = .queued)
    (hTasks : after.tasks = state.tasks ++ queued)
    (hTree : after.tree = state.tree)
    (hSeen : after.seen = state.seen)
    (hWritten : after.written = state.written)
    (hLead : ∀ more, state.lead = .submitting more →
      ∀ file ∈ more, file ∈ after.submitted ∨
        ∃ rest, after.lead = .submitting rest ∧
          file ∈ rest) :
    Covered roots tree files log after := by
  have hSubmitted : state.submitted ⊆ after.submitted := by
    intro file hMem
    simp only [submitted, hTasks, List.map_append,
      List.mem_append] at hMem ⊢
    exact .inl hMem
  have hPersists : Roots.Persists state.tree after.tree :=
    hTree ▸ Roots.persists_refl _
  have hOld (task : Task)
      (hMem : task ∈ after.tasks)
      (hStage : task.stage ≠ .queued) :
      task ∈ state.tasks := by
    rw [hTasks] at hMem
    rcases List.mem_append.mp hMem with hHere | hNew
    · exact hHere
    · exact absurd (hQueued task hNew) hStage
  refine ⟨hSeen ▸ h.nodup, ?_, ?_, ?_, ?_, ?_,
    hWritten ▸ h.written⟩
  · intro file hMem
    rcases h.inputs file hMem with
      hThere | ⟨more, hMore, hIn⟩
    · exact .inl (hSubmitted hThere)
    · exact hLead more hMore file hIn
  · intro task hMem hStage
    rw [hSeen]
    refine h.admitted task (hOld task hMem ?_) hStage
    intro hQueue
    simp [hQueue, Stage.isAdmitted] at hStage
  · intro file hMem
    rw [hSeen] at hMem
    rcases h.closed file hMem with
      ⟨point, hTask, hWorking⟩ | hClosed
    · exact .inl ⟨point, by simp [hTasks, hTask], hWorking⟩
    · exact .inr (hClosed.mono hPersists hSubmitted)
  · intro file rest prepared hMem hPrepared
    rcases h.partly file rest
      prepared (hOld _ hMem (by simp)) hPrepared with
      ⟨before, hSplit, hDone⟩
    exact ⟨before, hSplit, fun include_ hBefore =>
      hSubmitted (hDone include_ hBefore)⟩
  · intro deed file
    have hNone :
        queued.countP (fun task =>
          task.file == file && task.stage.awaits deed) =
            0 := by
      rw [List.countP_eq_zero]
      intro task hMem
      simp [hQueued task hMem, Stage.awaits]
    rw [hTasks, hSeen, List.countP_append, hNone]
    exact h.deeds deed file

/- A task goes on, and what it did goes into the log. -/
theorem settle
    (h : Covered roots tree files log state)
    {old : Stage}
    (hTask : state.tasks[index]? = some ⟨file, old⟩)
    (new : Stage)
    (now : FileTree)
    (seen written : List Path)
    (extra : List (Deed × Path))
    (hPersists : Roots.Persists state.tree now)
    (hNodup : seen.Nodup)
    (hSeen : state.seen ⊆ seen)
    (hAdmitted : new.isAdmitted = true → file ∈ seen)
    (hNew : ∀ other ∈ seen, other ∈ state.seen ∨
      other = file ∧ new = .running .preparing)
    (hWorking : ∀ point, old = .running point →
      point.isWorking = true →
        (∃ next, new = .running next ∧
            next.isWorking = true) ∨
          Closed roots tree { state with tree := now } file)
    (hPartly : ∀ rest prepared,
      new = .running (.submitting rest) →
        roots.prepare tree file = .ok prepared →
          ∃ before,
            prepared.rendering.includes = before ++ rest ∧
              ∀ include_ ∈ before,
                file.included include_ ∈ state.submitted)
    (hDeeds : ∀ deed other,
      extra.count (deed, other) +
          (if other = file ∧ new.awaits deed = true then 1
            else 0) +
          state.seen.count other =
        (if other = file ∧ old.awaits deed = true then 1
            else 0) +
          seen.count other)
    (hWritten : written = state.written ++
      (extra.filter fun done => done.1 == .records).map
        fun done => roots.target done.2) :
    Covered roots tree files (log ++ extra)
      (BuildState.settle
        { state with
          tree := now
          seen := seen
          written := written } index file new) := by
  have hSubmitted :
      (BuildState.settle
        { state with
          tree := now
          seen := seen
          written := written } index file new).submitted =
        state.submitted :=
    submitted_settle hTask
  have hHere : ⟨file, new⟩ ∈
      state.tasks.set index ⟨file, new⟩ := by
    rcases List.getElem?_eq_some_iff.mp hTask with
      ⟨hIndex, _⟩
    exact List.mem_of_getElem?
      (List.getElem?_set_self hIndex)
  refine ⟨hNodup, ?_, ?_, ?_, ?_, ?_, ?_⟩
  · rw [hSubmitted]
    exact h.inputs
  · intro task hMem hStage
    rcases mem_settle_tasks hMem with hOld | rfl
    · exact hSeen (h.admitted task hOld hStage)
    · exact hAdmitted hStage
  · intro other hMem
    have hMono : Closed roots tree
        { state with tree := now } other →
        Closed roots tree
          (BuildState.settle
            { state with
              tree := now
              seen := seen
              written := written } index file new) other :=
      Closed.mono (Roots.persists_refl _)
        (fun _ hOther => hSubmitted.symm ▸ hOther)
    rcases hNew other hMem with hOld | ⟨rfl, rfl⟩
    · rcases h.closed other hOld with
        ⟨point, hPoint, hWorks⟩ | hClosed
      · rcases List.getElem?_of_mem hPoint with
          ⟨place, hPlace⟩
        by_cases hIndex : index = place
        · subst hIndex
          rw [hTask] at hPlace
          rcases Task.mk.inj (Option.some.inj hPlace) with
            ⟨rfl, rfl⟩
          rcases hWorking point rfl hWorks with
            ⟨next, rfl, hNext⟩ | hClosed
          · exact .inl ⟨next, hHere, hNext⟩
          · exact .inr (hMono hClosed)
        · refine .inl ⟨point, ?_, hWorks⟩
          refine List.mem_of_getElem? (i := place) ?_
          simpa [BuildState.settle, List.getElem?_set,
            hIndex] using hPlace
      · exact .inr (hClosed.mono hPersists
          (fun _ hOther => hSubmitted.symm ▸ hOther))
    · exact .inl ⟨.preparing, hHere, rfl⟩
  · intro other rest prepared hMem hPrepared
    rw [hSubmitted]
    rcases mem_settle_tasks hMem with hOld | hEnd
    · exact h.partly other rest prepared hOld hPrepared
    · rcases Task.mk.inj hEnd with ⟨rfl, hStage⟩
      exact hPartly rest prepared hStage.symm hPrepared
  · intro deed other
    have hBefore := h.deeds deed other
    have hCount := countP_set
      (fun task =>
        task.file == other && task.stage.awaits deed)
      ⟨file, new⟩ hTask
    have hStep := hDeeds deed other
    simp only [Bool.and_eq_true, beq_iff_eq,
      eq_comm (b := other)] at hCount
    simp only [List.count_append, BuildState.settle]
    omega
  · simp only [BuildState.settle, List.filter_append,
      List.map_append, ← h.written]
    exact hWritten

theorem count_done
    (done : Option Deed)
    (file other : Path)
    (deed : Deed) :
    (done.map fun found => (found, file)).toList.count
        (deed, other) =
      if other = file ∧ done = some deed then 1 else 0 := by
  cases done with
  | none => simp
  | some found =>
      simp [List.count_singleton, Prod.mk.injEq, and_comm,
        eq_comm (b := other)]

/- The same for a task that is not about to be admitted. -/
theorem goesOn
    (h : Covered roots tree files log state)
    {old : Stage}
    (hTask : state.tasks[index]? = some ⟨file, old⟩)
    (new : Stage)
    (now : FileTree)
    (written : List Path)
    (done : Option Deed)
    (hPersists : Roots.Persists state.tree now)
    (hAdmitted : new.isAdmitted = true → file ∈ state.seen)
    (hWorking : ∀ point, old = .running point →
      point.isWorking = true →
        (∃ next, new = .running next ∧
            next.isWorking = true) ∨
          Closed roots tree { state with tree := now } file)
    (hPartly : ∀ rest prepared,
      new = .running (.submitting rest) →
        roots.prepare tree file = .ok prepared →
          ∃ before,
            prepared.rendering.includes = before ++ rest ∧
              ∀ include_ ∈ before,
                file.included include_ ∈ state.submitted)
    (hDeeds : ∀ deed,
      (if done = some deed then 1 else 0) +
          (if new.awaits deed = true then 1 else 0) =
        if old.awaits deed = true then 1 else 0)
    (hWritten : written = state.written ++
      if done = some .records then [roots.target file]
      else []) :
    Covered roots tree files
      (log ++ (done.map fun deed => (deed, file)).toList)
      (BuildState.settle
        { state with
          tree := now
          written := written } index file new) := by
  refine h.settle hTask new now state.seen written _ hPersists
    h.nodup (List.Subset.refl _) hAdmitted
    (fun _ hMem => .inl hMem) hWorking hPartly ?_ ?_
  · intro deed other
    have hDeed := hDeeds deed
    rw [count_done]
    by_cases hOther : other = file
    · simp only [hOther, true_and]
      omega
    · simp [hOther]
  · rw [hWritten]
    cases done with
    | none => simp
    | some deed => cases deed <;> simp

/- A source that was not seen yet is admitted. -/
theorem admits
    (h : Covered roots tree files log state)
    (hTask :
      state.tasks[index]? =
        some ⟨file, .running .admitting⟩)
    (hSeen : file ∉ state.seen) :
    Covered roots tree files log
      (BuildState.settle
        { state with seen := file :: state.seen } index file
        (.running .preparing)) := by
  have hSettle := h.settle hTask (.running .preparing)
    state.tree (file :: state.seen) state.written []
    (Roots.persists_refl _)
    (List.nodup_cons.mpr ⟨hSeen, h.nodup⟩)
    (List.subset_cons_self _ _) (by simp) ?_ ?_ ?_ ?_ ?_
  · simpa using hSettle
  · intro other hMem
    rcases List.mem_cons.mp hMem with rfl | hOld
    · exact .inr ⟨rfl, rfl⟩
    · exact .inl hOld
  · rintro _ ⟨⟩ hWorks
    simp [Point.isWorking] at hWorks
  · rintro _ _ ⟨⟩
  · intro deed other
    by_cases hOther : other = file
    · subst hOther
      simp only [List.count_nil, Stage.awaits, Point.awaits,
        List.count_cons_self]
      simp [Nat.add_comm]
    · simp [hOther, Ne.symm hOther]
  · simp

/- A task in a calm run does not turn to reporting. -/
theorem not_reporting
    {old : Stage}
    (hTask : state.tasks[index]? = some ⟨file, old⟩) :
    ¬ Calm
      (state.settle index file
        (.running (.reporting fault))) := by
  intro hCalm
  rcases List.getElem?_eq_some_iff.mp hTask with ⟨hIndex, _⟩
  exact hCalm.tasks file fault (List.mem_of_getElem?
    (List.getElem?_set_self hIndex))

/- What a running task does in a calm run is covered. -/
theorem taskRuns
    (hReady : roots.IsReady tree files)
    (hTraced : Traced roots workers tree files state)
    (hAborted : state.aborted = false)
    (hCalm : Calm state)
    (h : Covered roots tree files log state)
    (hTask :
      state.tasks[index]? = some ⟨file, .running point⟩)
    (hAfter : Calm
      ((state.advance roots file point).1.settle index file
        (state.advance roots file point).2)) :
    Covered roots tree files
      (log ++ (point.deed?.map fun deed =>
        (deed, file)).toList)
      ((state.advance roots file point).1.settle index file
        (state.advance roots file point).2) := by
  have hMem := List.mem_of_getElem? hTask
  have hNeeded := hTraced.tasks _ hMem
  have hKnown := hTraced.points _ _ hMem
  have hPersists := (known_advance hReady hTraced.reached
    hTraced.grown hNeeded hKnown).2.1
  have hSame := Roots.persists_refl state.tree
  have hSeen := h.admitted _ hMem
  cases point with
  | entering =>
      simp only [advance, hAborted, Bool.false_eq_true,
        if_false]
      exact h.goesOn hTask _ state.tree state.written none hSame
        (by simp [Stage.isAdmitted, Point.isAdmitted])
        (by rintro _ ⟨⟩; simp [Point.isWorking])
        (by rintro _ _ ⟨⟩) (by simp [Stage.awaits, Point.awaits])
        (by simp)
  | admitting =>
      simp only [advance]
      split
      · next hOld =>
          exact h.goesOn hTask _ state.tree state.written none
            hSame (fun _ => hOld)
            (by rintro _ ⟨⟩; simp [Point.isWorking])
            (by rintro _ _ ⟨⟩)
            (by simp [Stage.awaits, Point.awaits]) (by simp)
      · next hOld =>
          simpa [Point.deed?] using h.admits hTask hOld
  | preparing =>
      simp only [advance] at hAfter ⊢
      split
      · next fault hFault =>
          simp only [hFault] at hAfter
          exact absurd hAfter (not_reporting hTask)
      · next prepared hPrepared =>
          exact h.goesOn hTask _ state.tree state.written
            (some .parses) hSame (fun _ => hSeen rfl)
            (fun _ _ _ => .inl ⟨_, rfl, rfl⟩)
            (by rintro _ _ ⟨⟩)
            (fun deed => by cases deed <;> rfl) (by simp)
  | making prepared =>
      simp only [advance] at hAfter hPersists ⊢
      split
      · next made hMade =>
          simp only [hMade] at hPersists
          exact h.goesOn hTask _ made state.written none
            hPersists (fun _ => hSeen rfl)
            (fun _ _ _ => .inl ⟨_, rfl, rfl⟩)
            (by rintro _ _ ⟨⟩)
            (fun deed => by cases deed <;> rfl) (by simp)
      · next fault made hFault =>
          simp only [hFault] at hAfter
          exact absurd hAfter (not_reporting hTask)
  | writing prepared =>
      simp only [advance] at hAfter hPersists ⊢
      split
      · next made hMade =>
          simp only [hMade] at hPersists
          exact h.goesOn hTask _ made state.written
            (some .writes) hPersists (fun _ => hSeen rfl)
            (fun _ _ _ => .inl ⟨_, rfl, rfl⟩)
            (by rintro _ _ ⟨⟩)
            (fun deed => by cases deed <;> rfl) (by simp)
      · next fault hFault =>
          simp only [hFault] at hAfter
          exact absurd hAfter (not_reporting hTask)
  | recording target includes =>
      rcases hKnown with ⟨_, rfl, prepared, hPrepared, rfl⟩
      refine h.goesOn hTask _ state.tree
        (state.written ++ [roots.target file]) (some .records)
        hSame (fun _ => hSeen rfl)
        (fun _ _ _ => .inl ⟨_, rfl, rfl⟩) ?_
        (fun deed => by cases deed <;> rfl) (by simp)
      rintro _ other ⟨⟩ hOther
      rw [hPrepared] at hOther
      cases hOther
      exact ⟨[], by simp⟩
  | submitting includes =>
      rcases hKnown with
        ⟨hStands, prepared, hPrepared, hSuffix⟩
      rcases h.partly file includes prepared hMem hPrepared
        with
        ⟨before, hSplit, hDone⟩
      cases includes with
      | nil =>
          refine h.goesOn hTask _ state.tree state.written none
            hSame (fun _ => hSeen rfl) (fun _ _ _ => .inr ?_)
            (by rintro _ _ ⟨⟩)
            (fun deed => by cases deed <;> rfl) (by simp)
          rw [List.append_nil] at hSplit
          exact ⟨hStands, prepared, hPrepared,
            hSplit ▸ hDone⟩
      | cons include_ more =>
          have hTasks := submit_tasks hAborted
            (file.included include_)
          have hSubmit : Covered roots tree files log
              (state.submit (file.included include_)) := by
            refine h.of_queued
              [⟨file.included include_, .queued⟩] (by simp)
              hTasks (by simp) (by simp) (by simp) ?_
            intro rest hRest other hOther
            exact .inr ⟨rest, by simpa using hRest, hOther⟩
          have hNext := hSubmit.goesOn
            (submit_task hTask (file.included include_))
            (.running (.submitting more))
            (state.submit (file.included include_)).tree
            (state.submit (file.included include_)).written
            none (Roots.persists_refl _)
            (fun _ => by simpa using hSeen rfl)
            (fun _ _ _ => .inl ⟨_, rfl, rfl⟩)
            ?_ (by simp [Stage.awaits, Point.awaits])
            (by simp)
          · exact hNext
          · rintro _ other ⟨⟩ hOther
            rw [hPrepared] at hOther
            cases hOther
            refine ⟨before ++ [include_], by simp [hSplit], ?_⟩
            intro found hFound
            simp only [submitted, hTasks, List.map_append,
              List.mem_append]
            rcases List.mem_append.mp hFound with
              hBefore | hHere
            · exact .inl (hDone found hBefore)
            · rw [List.mem_singleton.mp hHere]
              exact .inr (by simp)
  | reporting fault =>
      exact absurd hMem (hCalm.tasks file fault)
  | releasing =>
      have hRelease :
          Covered roots tree files log state.release := by
        refine h.of_queued [] (by simp) (by simp) (by simp)
          (by simp) (by simp) ?_
        intro rest hRest other hOther
        exact .inr ⟨rest, by simpa using hRest, hOther⟩
      have hReleased :
          state.release.tasks[index]? =
            some ⟨file, .running .releasing⟩ := by
        rwa [release_tasks]
      exact hRelease.goesOn hReleased _ state.release.tree
        state.release.written none (Roots.persists_refl _)
        (fun _ => by simpa using hSeen rfl)
        (by rintro _ ⟨⟩; simp [Point.isWorking])
        (by rintro _ _ ⟨⟩)
        (fun deed => by cases deed <;> rfl) (by simp)

/- A turn of the lead that submits nothing. -/
theorem of_lead
    (h : Covered roots tree files log state)
    (hTasks : after.tasks = state.tasks)
    (hTree : after.tree = state.tree)
    (hSeen : after.seen = state.seen)
    (hWritten : after.written = state.written)
    (hLead : ∀ more, state.lead = .submitting more →
      more = []) :
    Covered roots tree files log after := by
  refine h.of_queued [] (by simp) (by simp [hTasks]) hTree
    hSeen hWritten ?_
  intro more hMore file hIn
  simp [hLead more hMore] at hIn

/- Every turn of a calm run is covered. -/
theorem turn
    (hReady : roots.IsReady tree files)
    (hBooks : Accounted state)
    (hTraced : Traced roots workers tree files state)
    (hCalm : Calm state)
    (h : Covered roots tree files log state)
    (hTurn : Turn roots workers state actor after)
    (hAfter : Calm after) :
    Covered roots tree files
      (log ++ (state.deed? actor).toList) after := by
  cases hTurn with
  | @leadSubmits file more hLead =>
      have hAborted :=
        hBooks.not_aborted (by rw [hLead]; rfl)
      have hTasks := submit_tasks hAborted file
      simp only [deed?, Option.toList_none, List.append_nil]
      refine h.of_queued [⟨file, .queued⟩] (by simp) hTasks
        (by simp) (by simp) (by simp) ?_
      intro rest hRest other hOther
      rw [hLead] at hRest
      cases hRest
      rcases List.mem_cons.mp hOther with rfl | hMore
      · exact .inl (by simp [submitted, hTasks])
      · exact .inr ⟨more, rfl, hMore⟩
  | leadCloses hLead =>
      simp only [deed?, Option.toList_none, List.append_nil]
      exact h.of_lead rfl rfl rfl rfl (by simp [hLead])
  | leadReleases hLead =>
      simp only [deed?, Option.toList_none, List.append_nil]
      exact h.of_lead (by simp) (by simp) (by simp) (by simp)
        (by simp [hLead])
  | leadTakes hLead hMessages =>
      simp only [deed?, Option.toList_none, List.append_nil]
      exact h.of_lead rfl rfl rfl rfl (by simp [hLead])
  | leadAborts hLead =>
      simp only [deed?, Option.toList_none, List.append_nil]
      exact h.of_lead rfl rfl rfl rfl (by simp [hLead])
  | leadCancels hLead =>
      have hAborted : state.aborted = true := by
        rw [hBooks.aborted, hLead]
        rfl
      have hFinished :=
        hCalm.finished_of_aborted hBooks hAborted
      have hTasks :
          state.tasks.map cancelled = state.tasks := by
        refine (List.map_congr_left fun task hMem => ?_).trans
          (List.map_id _)
        simp [cancelled, isQueued, hFinished task hMem]
      simp only [deed?, Option.toList_none, List.append_nil]
      exact h.of_lead hTasks rfl rfl rfl (by simp [hLead])
  | leadJoins hLead hIdle =>
      simp only [deed?, Option.toList_none, List.append_nil]
      exact h.of_lead rfl rfl rfl rfl (by simp [hLead])
  | taskStarts hTask hMay =>
      simp only [deed?, hTask]
      exact h.goesOn hTask _ state.tree state.written none
        (Roots.persists_refl _)
        (by simp [Stage.isAdmitted, Point.isAdmitted])
        (by rintro _ ⟨⟩) (by rintro _ _ ⟨⟩)
        (by simp [Stage.awaits, Point.awaits]) (by simp)
  | taskRuns hTask =>
      have hAborted := hCalm.not_aborted hBooks
        (List.mem_of_getElem? hTask) (by simp)
      simp only [deed?, hTask]
      exact h.taskRuns hReady hTraced hAborted hCalm hTask
        hAfter

end Covered

/- What holds of a calm run, whatever came before. -/
theorem covered_of_runs
    {log : List (Deed × Path)}
    (hReady : roots.IsReady tree files)
    (hRuns : Runs roots workers (start tree files) log state)
    (hCalm : Calm state) :
    Covered roots tree files log state := by
  induction hRuns with
  | refl => exact covered_start
  | step hBefore hStep ih =>
      have hTurn := turn_of_step? hStep
      have hEarlier := hCalm.of_turn hTurn
      exact (ih hEarlier).turn hReady
        (accounted_of_reaches hBefore.reaches)
        (traced_of_reaches hReady hBefore.reaches)
        hEarlier hTurn hCalm

-- Where Calm Runs End

/- A build with a good outcome was calm. -/
theorem calm_of_outcome?
    (hBooks : Accounted state)
    (hOutcome : state.outcome? = some (.ok paths)) :
    Calm state ∧
      (∀ task ∈ state.tasks, task.stage = .finished) ∧
      (∀ more, state.lead ≠ .submitting more) ∧
      paths = state.written.mergeSort Path.le := by
  have hPosted := hBooks.posted_of_outcome? hOutcome
  simp only [outcome?] at hOutcome
  split at hOutcome
  · next hLead =>
      cases hOutcome
      have hFinished := unreleased_eq_zero_iff.mp
        (hBooks.ended (by simp [hLead, Lead.taken?])).1
      refine ⟨⟨?_, ?_⟩, hFinished, by simp [hLead], rfl⟩
      · intro fault hFailed
        simp [hPosted] at hFailed
      · intro file fault hMem
        have hStage := hFinished _ hMem
        cases hStage
  · cases hOutcome
  · cases hOutcome

section Finished

variable {log : List (Deed × Path)}
variable (hTraced : Traced roots workers tree files state)
variable (h : Covered roots tree files log state)
variable (hFinished :
  ∀ task ∈ state.tasks, task.stage = .finished)
variable (hLead : ∀ more, state.lead ≠ .submitting more)
include h hFinished

/- When all is finished, every admitted source is closed. -/
theorem closed_of_finished
    (hSeen : file ∈ state.seen) :
    Closed roots tree state file := by
  rcases h.closed file hSeen with ⟨point, hTask, _⟩ | hClosed
  · have hStage := hFinished _ hTask
    cases hStage
  · exact hClosed

theorem mem_seen_of_submitted
    (hSubmitted : file ∈ state.submitted) :
    file ∈ state.seen := by
  rcases List.mem_map.mp hSubmitted with ⟨task, hMem, rfl⟩
  refine h.admitted task hMem ?_
  rw [hFinished task hMem]
  rfl

theorem count_of_finished
    (deed : Deed)
    (file : Path) :
    log.count (deed, file) = state.seen.count file := by
  have hDeeds := h.deeds deed file
  have hNone :
      state.tasks.countP (fun task =>
        task.file == file && task.stage.awaits deed) = 0 := by
    rw [List.countP_eq_zero]
    intro task hMem
    simp [hFinished task hMem, Stage.awaits]
  omega

/- The paths of the modules, one for each needed source. -/
theorem written_perm :
    state.written.Perm (state.seen.map roots.target) := by
  have hCount (file : Path) :
      ((log.filter fun done => done.1 == .records).map
          Prod.snd).count file =
        state.seen.count file := by
    rw [← count_of_finished h hFinished .records file]
    clear h
    induction log with
    | nil => rfl
    | cons done more ih =>
        rcases done with ⟨deed, other⟩
        by_cases hDeed : deed = .records
        · simp [hDeed, List.count_cons, ih]
        · simp [hDeed, ih]
  have hPerm := (List.perm_iff_count.mpr hCount).map
    roots.target
  simp only [List.map_map, Function.comp_def] at hPerm
  rw [h.written]
  exact hPerm

include hTraced hLead

/- When all is finished, what was admitted is needed. -/
theorem mem_seen_iff_needed :
    file ∈ state.seen ↔ Needed tree files file := by
  constructor
  · exact hTraced.seen file
  · intro hNeeded
    induction hNeeded with
    | input hMem =>
        rcases h.inputs _ hMem with
          hSubmitted | ⟨more, hMore, _⟩
        · exact mem_seen_of_submitted h hFinished hSubmitted
        · exact absurd hMore (hLead more)
    | inclusion _ hDocument hIncludes ih =>
        rcases closed_of_finished h hFinished ih with
          ⟨_, prepared, hPrepared, hSubmitted⟩
        rcases Roots.prepare_eq_ok_iff.mp hPrepared with
          ⟨_, document, _, _, _, hOther, _, rfl⟩
        rw [hDocument] at hOther
        cases hOther
        refine mem_seen_of_submitted h hFinished
          (hSubmitted _ ?_)
        exact Idl.Document.mem_includes_iff.mpr
          ⟨_, hIncludes, rfl⟩

end Finished

-- Where Runs End

variable {log : List (Deed × Path)}

/- What a build with a good outcome has done. -/
theorem finishes_of_outcome?
    (hReady : roots.IsReady tree files)
    (hRuns : Runs roots workers (start tree files) log state)
    (hOutcome : state.outcome? = some (.ok paths)) :
    (∀ file, Needed tree files file →
        roots.Compiles tree files file) ∧
      (∀ deed file,
        (Needed tree files file →
            log.count (deed, file) = 1) ∧
          (¬ Needed tree files file →
            log.count (deed, file) = 0)) ∧
      ∃ sources : List Path,
        sources.Nodup ∧
          (∀ file, file ∈ sources ↔
            Needed tree files file) ∧
          paths.Perm (sources.map roots.target) ∧
          paths.Pairwise fun first second =>
            Path.le first second = true := by
  have hTraced := traced_of_reaches hReady hRuns.reaches
  rcases calm_of_outcome?
    (accounted_of_reaches hRuns.reaches) hOutcome with
    ⟨hCalm, hFinished, hLead, rfl⟩
  have h := covered_of_runs hReady hRuns hCalm
  have hSeen (file : Path) :
      file ∈ state.seen ↔ Needed tree files file :=
    mem_seen_iff_needed hTraced h hFinished hLead
  have hClosed (file : Path)
      (hNeeded : Needed tree files file) :
      Closed roots tree state file :=
    closed_of_finished h hFinished ((hSeen file).mpr hNeeded)
  refine ⟨fun file hNeeded => ?_, fun deed file => ?_,
    state.seen, h.nodup, hSeen, ?_,
    Path.pairwise_mergeSort _⟩
  · rcases hClosed file hNeeded with
      ⟨hStands, prepared, hPrepared, _⟩
    exact hTraced.grown.compiles hReady hNeeded hPrepared
      hStands.2 fun other hOther => (hClosed other hOther).1.1
  · rw [count_of_finished h hFinished]
    refine ⟨fun hNeeded => ?_, fun hNot => ?_⟩
    · exact List.count_eq_one_of_mem h.nodup
        ((hSeen file).mpr hNeeded)
    · exact List.count_eq_zero.mpr
        (fun hMem => hNot ((hSeen file).mp hMem))
  · exact (List.mergeSort_perm _ _).trans
      (written_perm h hFinished)

/- What a build that fails is to be blamed on. -/
theorem blamed_of_outcome?
    (hReady : roots.IsReady tree files)
    (hReaches :
      Reaches roots workers (start tree files) state)
    (hOutcome : state.outcome? = some (.error fault)) :
    Blamed roots workers tree files state fault := by
  refine (traced_of_reaches hReady hReaches).faults fault ?_
  simp only [outcome?] at hOutcome
  split at hOutcome
  · cases hOutcome
  · next found hLead =>
      cases hOutcome
      simp [posted, hLead, Lead.taken?]
  · cases hOutcome

/- A run that cannot go on has come to an outcome. -/
theorem outcome?_of_stuck
    (hWorkers : 1 ≤ workers)
    (hReaches :
      Reaches roots workers (start tree files) state)
    (hStuck : ∀ actor,
      state.step? roots workers actor = none) :
    ∃ outcome, state.outcome? = some outcome := by
  rcases done_of_stuck
    (accounted_of_reaches hReaches) hWorkers hStuck with
    ⟨message, hLead⟩
  exact outcome?_of_done hLead

/- Every run can be taken to its end. -/
theorem Runs.exists_stuck
    {first : BuildState}
    (h : Runs roots workers first log state) :
    ∃ whole last, Runs roots workers first whole last ∧
      ∀ actor, last.step? roots workers actor = none := by
  -- The induction is on the state, down to where it is stuck.
  induction state using
    (wellFounded_step roots workers).induction
    generalizing log with
  | _ state ih =>
      by_cases hStuck :
          ∀ actor, state.step? roots workers actor = none
      · exact ⟨log, state, h, hStuck⟩
      · rcases not_forall.mp hStuck with ⟨actor, hActor⟩
        rcases Option.ne_none_iff_exists'.mp hActor with
          ⟨after, hAfter⟩
        exact ih after ⟨actor, hAfter⟩ (h.step hAfter)

/- If all that is needed compiles, some run succeeds. -/
theorem exists_success
    (hReady : roots.IsReady tree files)
    (hWorkers : 1 ≤ workers)
    (hCompiles : ∀ file, Needed tree files file →
      roots.Compiles tree files file) :
    ∃ last paths,
      Reaches roots workers (start tree files) last ∧
        last.outcome? = some (.ok paths) := by
  rcases Runs.exists_stuck .refl with
    ⟨log, last, hRuns, hStuck⟩
  rcases outcome?_of_stuck hWorkers hRuns.reaches hStuck with
    ⟨outcome, hOutcome⟩
  cases outcome with
  | ok paths => exact ⟨last, paths, hRuns.reaches, hOutcome⟩
  | error fault =>
      rcases blamed_of_outcome? hReady hRuns.reaches hOutcome
        with
        ⟨file, _, hNeeded, hNot, _⟩
      exact absurd (hCompiles file hNeeded) hNot

end BuildState

-- The Include Closure

open BuildState in
/-
  A build of any inputs, from a plain tree whose old output
  was removed and in which no needed source lies below the
  output root, with at least one worker and with any order
  of turns: it ends. It succeeds exactly if every needed
  source compiles. Then every needed source was parsed and
  its module written exactly once, no other one was, and the
  outcome is the sorted list of the paths of these modules.
  If it fails, it does so with the fault of a needed source
  that does not compile.
-/
theorem BuildRequest.builds_the_include_closure
    {request : BuildRequest}
    {directory : Path}
    {old tree : FileTree}
    {workers : Int}
    (hDirectory : directory.IsCanonical)
    (hPlain : old.IsPlain)
    (hRemoved :
      removeOutput (request.roots directory) old = .ok tree)
    (hApart : ∀ file,
      Needed tree (request.files directory) file →
        ¬ (request.roots directory).output.segments <+:
          file.segments)
    (hWorkers : 1 ≤ workers) :
    let roots := request.roots directory
    let first := request.machine roots tree
    let Needs := Needed tree (request.files directory)
    let Compiles :=
      roots.Compiles tree (request.files directory)
    (¬ ∃ run : Nat → BuildState, run 0 = first ∧
        ∀ n, BuildState.Step roots workers (run n)
          (run (n + 1))) ∧
      ∀ log last, Runs roots workers first log last →
        (∀ actor,
          last.step? roots workers actor = none) →
        (∃ outcome, last.outcome? = some outcome) ∧
          ((∃ paths, last.outcome? = some (.ok paths)) ↔
            ∀ file, Needs file → Compiles file) ∧
          (∀ paths, last.outcome? = some (.ok paths) →
            (∀ file, Needs file →
                log.count (.parses, file) = 1 ∧
                  log.count (.writes, file) = 1) ∧
              (∀ file, ¬ Needs file →
                log.count (.parses, file) = 0 ∧
                  log.count (.writes, file) = 0) ∧
              ∃ sources : List Path,
                sources.Nodup ∧
                  (∀ file, file ∈ sources ↔ Needs file) ∧
                  paths.Perm (sources.map roots.target) ∧
                  paths.Pairwise fun one two =>
                    Path.le one two = true) ∧
          (∀ fault, last.outcome? = some (.error fault) →
            ∃ file met,
              Needs file ∧ ¬ Compiles file ∧
                Reaches roots workers first met ∧
                Reaches roots workers met last ∧
                roots.Fails met.tree file fault) := by
  have hReady :=
    request.isReady hDirectory hPlain hRemoved hApart
  refine ⟨?_, ?_⟩
  · rintro ⟨run, _, hRun⟩
    have hChains := wellFounded_iff_isEmpty_descending_chain.mp
      (wellFounded_step (request.roots directory) workers)
    exact hChains.false ⟨run, hRun⟩
  · intro log last hRuns hStuck
    rcases outcome?_of_stuck hWorkers hRuns.reaches hStuck
      with
      ⟨outcome, hOutcome⟩
    refine ⟨⟨outcome, hOutcome⟩, ⟨?_, ?_⟩, ?_, ?_⟩
    · rintro ⟨paths, hOk⟩
      exact (finishes_of_outcome? hReady hRuns hOk).1
    · intro hAll
      cases outcome with
      | ok paths => exact ⟨paths, hOutcome⟩
      | error fault =>
          rcases blamed_of_outcome? hReady hRuns.reaches hOutcome
            with
            ⟨file, _, hNeeded, hNot, _⟩
          exact absurd (hAll file hNeeded) hNot
    · intro paths hOk
      rcases finishes_of_outcome? hReady hRuns hOk with
        ⟨_, hCounts, hSources⟩
      refine ⟨fun file hNeeded => ?_, fun file hNot => ?_,
        hSources⟩
      · exact ⟨(hCounts .parses file).1 hNeeded,
          (hCounts .writes file).1 hNeeded⟩
      · exact ⟨(hCounts .parses file).2 hNot,
          (hCounts .writes file).2 hNot⟩
    · intro fault hError
      exact blamed_of_outcome? hReady hRuns.reaches hError

-- A Source That Includes Itself

namespace Looped

def document : Idl.Document where
  body := [.inclusion { path := ['a'], comments := [] }]
  trailing := []

def content : List UInt8 :=
  Utf8.encode "include \"a\"\n".toList

/- The tree, and what it was with an old output. -/
def tree : FileTree where
  entries :=
    [([['s']], .directory), ([['s'], ['a']], .file content)]

def old : FileTree where
  entries := ([['o']], .directory) :: tree.entries

def request : BuildRequest where
  inputs := [['a']]
  source := ['s']
  output := ['o']
  workers := none

def top : Path where
  slashes := 1
  segments := []

def file : Path where
  slashes := 1
  segments := [['s'], ['a']]

theorem removed :
    removeOutput (request.roots top) old = .ok tree := by
  cbv

theorem files_eq : request.files top = [file] := by
  decide

theorem target_eq :
    (request.roots top).target file =
      ⟨1, [['o'], "a.ts".toList]⟩ := by
  decide

theorem decoded :
    Utf8.decode content = .ok "include \"a\"\n".toList := by
  cbv

theorem read_file : tree.read file = .ok content := by
  cbv

theorem wellFormed_document : document.WellFormed where
  body := List.forall_mem_singleton.mpr
    { content := by
        simp [Idl.Definition.ContentWellFormed]
      comments := by simp [Idl.Definition.comments]
      trailing := by simp [Idl.Definition.trailing] }
  trailing := by simp [document]

theorem document?_file :
    tree.document? file = some document := by
  have hText : document.print (.plain document) =
      Text.uniformNewlines "include \"a\"\n".toList := by
    decide
  have hRead := Idl.Document.read_print
    Idl.Order.isFull_usual wellFormed_document
    (.plain document)
  rw [hText] at hRead
  simp only [FileTree.document?, read_file, decoded, hRead]

/- The source needs nothing but itself. -/
theorem eq_of_needed
    {found : Path}
    (h : Needed tree (request.files top) found) :
    found = file := by
  induction h with
  | input hListed =>
      rw [files_eq] at hListed
      exact List.mem_singleton.mp hListed
  | inclusion _ hHolds hIncludes ih =>
      subst ih
      rw [document?_file] at hHolds
      cases hHolds
      cases List.mem_singleton.mp hIncludes
      decide

theorem needed_file :
    Needed tree (request.files top) file :=
  .input (files_eq ▸ List.mem_singleton_self file)

theorem isPlain_old : old.IsPlain :=
  FileTree.isPlain_of_entries (by decide) (by decide)

theorem compiles_file :
    (request.roots top).Compiles tree (request.files top)
      file where
  inside := ⟨[['a']], by decide, by decide⟩
  generates := ⟨document, _, document?_file, rfl⟩
  legal := by
    rw [target_eq]
    exact ⟨by decide, by unfold Path.IsShort; decide,
      by decide⟩
  free := by
    rw [target_eq]
    rintro way hWay ⟨content, hFile⟩
    have hFree : ∀ way ∈ List.inits [['o']],
        tree.get? way = none ∨
          tree.get? way = some .directory := by
      decide
    rcases hFree way ((List.mem_inits _ _).mpr hWay) with
      hNone | hDirectory <;> simp_all
  apart := by
    intro other hNeeded _ _
    rw [eq_of_needed hNeeded]

end Looped

open BuildState in
/- A source that includes itself is compiled once. -/
theorem BuildRequest.builds_a_looped_source :
    Looped.old.IsPlain ∧
      ∃ log last paths,
        Runs (Looped.request.roots Looped.top) 1
            (Looped.request.machine
              (Looped.request.roots Looped.top) Looped.tree)
            log last ∧
          last.outcome? = some (.ok paths) ∧
          log.count (.parses, Looped.file) = 1 ∧
          log.count (.writes, Looped.file) = 1 := by
  have hTop : Looped.top.IsCanonical :=
    ⟨by decide, by simp [Looped.top]⟩
  have hApart (found : Path)
      (hNeeded : Needed Looped.tree
        (Looped.request.files Looped.top) found) :
      ¬ (Looped.request.roots Looped.top).output.segments <+:
        found.segments := by
    rw [Looped.eq_of_needed hNeeded]
    decide
  have hBuild := builds_the_include_closure hTop
    Looped.isPlain_old Looped.removed hApart (Int.le_refl 1)
  rcases Runs.exists_stuck .refl with
    ⟨log, last, hRuns, hStuck⟩
  rcases hBuild.2 log last hRuns hStuck with
    ⟨_, hSucceeds, hOk, _⟩
  rcases hSucceeds.mpr
    fun found hNeeded => by
      rw [Looped.eq_of_needed hNeeded]
      exact Looped.compiles_file with
    ⟨paths, hPaths⟩
  exact ⟨Looped.isPlain_old, log, last, paths, hRuns, hPaths,
    (hOk paths hPaths).1 Looped.file Looped.needed_file⟩

end ThriftTypings
