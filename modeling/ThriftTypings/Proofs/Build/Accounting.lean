import ThriftTypings.Proofs.Build.Turns

/-
  This file proves that the counter and the queue of a build
  account for every task, whatever the order of turns: the
  counter says how many have work left, the message that all
  is finished comes once and last, and no source is submitted
  after it.

  Key definitions include:
    * `Lead.held`, `Lead.taken?`, `Lead.hasAborted`
    * `BuildState.unreleased`, `BuildState.posted`,
      `BuildState.submitted`

  Key theorems include:
    * `BuildState.nextTask?_of_isOpen`
    * `BuildState.accounts_for_every_task`
-/

namespace ThriftTypings

variable {later : BuildState}

variable {index : Nat} {file : Path} {task : Task}
variable {actor : Actor} {old : Point}

-- Views of a State

namespace Lead

/- What the lead itself adds to the counter. -/
def held : Lead → Nat
  | .submitting _ => 1
  | .releasing => 1
  | _ => 0

/- The message that the lead has taken from the queue. -/
def taken? : Lead → Option Message
  | .aborting message => some message
  | .cancelling message => some message
  | .joining message => some message
  | .done message => some message
  | _ => none

/- Has the lead told the tasks to stop? -/
def hasAborted : Lead → Bool
  | .cancelling _ => true
  | .joining _ => true
  | .done _ => true
  | _ => false

end Lead

namespace BuildState

/- Has the task given back its count? -/
def hasReleased
    (task : Task) : Bool :=
  task.stage == .finished

/- The number of tasks that have not given theirs back. -/
def unreleased
    (state : BuildState) : Nat :=
  state.tasks.countP fun task => !hasReleased task

/-
  All messages that were ever put into the queue, in order:
  the one that the lead took, and those still there.
-/
def posted
    (state : BuildState) : List Message :=
  state.lead.taken?.toList ++ state.messages

/- The sources that were ever submitted, in order. -/
def submitted
    (state : BuildState) : List Path :=
  state.tasks.map Task.file

-- Submitting, Posting and Releasing

variable {roots : Roots} {workers : Int}
variable {state after : BuildState}

@[simp] theorem submit_lead
    (state : BuildState)
    (file : Path) :
    (state.submit file).lead = state.lead := by
  unfold submit
  split <;> rfl

@[simp] theorem submit_messages
    (state : BuildState)
    (file : Path) :
    (state.submit file).messages = state.messages := by
  unfold submit
  split <;> rfl

@[simp] theorem submit_aborted
    (state : BuildState)
    (file : Path) :
    (state.submit file).aborted = state.aborted := by
  unfold submit
  split <;> rfl

theorem submit_of_aborted
    (h : state.aborted = true)
    (file : Path) :
    state.submit file = state := by
  simp [submit, h]

theorem submit_tasks
    (h : state.aborted = false)
    (file : Path) :
    (state.submit file).tasks =
      state.tasks ++ [⟨file, .queued⟩] := by
  simp [submit, h]

/- A submission leaves the tasks before it in place. -/
theorem submit_task
    (hTask : state.tasks[index]? = some task)
    (file : Path) :
    (state.submit file).tasks[index]? = some task := by
  cases hAborted : state.aborted with
  | true =>
      rw [submit_of_aborted hAborted]
      exact hTask
  | false =>
      have hIndex :=
        (List.getElem?_eq_some_iff.mp hTask).1
      rw [submit_tasks hAborted,
        List.getElem?_append_left hIndex]
      exact hTask

theorem submit_pending
    (h : state.aborted = false)
    (file : Path) :
    (state.submit file).pending = state.pending + 1 := by
  simp [submit, h]

@[simp] theorem release_lead
    (state : BuildState) :
    state.release.lead = state.lead := by
  simp only [release]
  split <;> rfl

@[simp] theorem release_aborted
    (state : BuildState) :
    state.release.aborted = state.aborted := by
  simp only [release]
  split <;> rfl

@[simp] theorem release_tasks
    (state : BuildState) :
    state.release.tasks = state.tasks := by
  simp only [release]
  split <;> rfl

@[simp] theorem release_pending
    (state : BuildState) :
    state.release.pending = state.pending - 1 := by
  simp only [release]
  split <;> rfl

/- The last one to release says that all is finished. -/
theorem release_messages
    (state : BuildState) :
    state.release.messages =
      if state.pending - 1 = 0 then
        state.messages ++ [.finished]
      else
        state.messages := by
  simp only [release]
  split <;> rfl

/- A stage of one task changes the number by that task. -/
theorem unreleased_settle
    {old : Stage}
    (h : state.tasks[index]? = some ⟨file, old⟩)
    (new : Stage) :
    (state.settle index file new).unreleased +
        (if old = .finished then 0 else 1) =
      state.unreleased +
        (if new = .finished then 0 else 1) := by
  have hCount := countP_set (fun task => !hasReleased task)
    ⟨file, new⟩ h
  have hStage (stage : Stage) :
      (if (!hasReleased ⟨file, stage⟩) = true then 1 else 0) =
        if stage = .finished then 0 else 1 := by
    by_cases hFinished : stage = .finished <;>
      simp [hasReleased, hFinished]
  simpa only [hStage, unreleased, settle] using hCount

/- A task that has work left is counted. -/
theorem unreleased_pos
    (hMem : task ∈ state.tasks)
    (hStage : task.stage ≠ .finished) :
    0 < state.unreleased := by
  refine List.countP_pos_iff.mpr ⟨task, hMem, ?_⟩
  simpa [hasReleased] using hStage

theorem unreleased_eq_zero_iff :
    state.unreleased = 0 ↔
      ∀ task ∈ state.tasks, task.stage = .finished := by
  simp [unreleased, hasReleased]

theorem unreleased_of_submit
    (h : state.aborted = false)
    (file : Path) :
    (state.submit file).unreleased =
      state.unreleased + 1 := by
  simp [unreleased, submit_tasks h, hasReleased]

-- The Invariant

/-
  The books of a build are in order. Until the lead aborts,
  the counter is what it should be, and the message that all
  is finished is there exactly if the counter is at zero,
  once and after every other message. Once that message was
  taken, nothing is left.
-/
structure Accounted
    (state : BuildState) : Prop where
  aborted : state.aborted = state.lead.hasAborted
  pending :
    state.aborted = false →
      state.pending = state.unreleased + state.lead.held
  uncancelled :
    state.aborted = false →
      ∀ task ∈ state.tasks, task.stage ≠ .cancelled
  unfinished :
    state.aborted = false → 0 < state.pending →
      .finished ∉ state.posted
  finished :
    state.aborted = false → state.pending = 0 →
      ∃ earlier, state.posted = earlier ++ [.finished] ∧
        .finished ∉ earlier
  ended :
    state.lead.taken? = some .finished →
      state.unreleased = 0 ∧ state.messages = []

theorem accounted_start
    (tree : FileTree)
    (files : List Path) :
    Accounted (start tree files) where
  aborted := rfl
  pending := fun _ => rfl
  uncancelled := by simp [start]
  unfinished := by simp [start, posted, Lead.taken?]
  finished := by simp [start]
  ended := by simp [start, Lead.taken?]

namespace Accounted

/- Once all is finished, no task is open any more. -/
theorem unreleased_eq_zero
    (h : Accounted state)
    (hFinished : .finished ∈ state.posted)
    (hAborted : state.aborted = false) :
    state.pending = 0 ∧ state.unreleased = 0 ∧
      state.lead.held = 0 := by
  have hPending : state.pending = 0 := by
    rcases Nat.eq_zero_or_pos state.pending with
      hZero | hPositive
    · exact hZero
    · exact absurd hFinished
        (h.unfinished hAborted hPositive)
  have hSum := h.pending hAborted
  omega

theorem not_aborted
    (h : Accounted state)
    (hLead : state.lead.hasAborted = false) :
    state.aborted = false := by
  rw [h.aborted, hLead]

theorem leadSubmits
    (h : Accounted state)
    {more : List Path}
    (hLead : state.lead = .submitting (file :: more)) :
    Accounted
      { state.submit file with lead := .submitting more } := by
  have hAborted :=
    h.not_aborted (by rw [hLead]; rfl)
  have hPending := h.pending hAborted
  have hUnfinished := h.unfinished hAborted
  have hNone := h.uncancelled hAborted
  simp only [hLead, Lead.held] at hPending
  simp only [posted, hLead, Lead.taken?] at hUnfinished
  refine
    { aborted := by simpa [Lead.hasAborted] using hAborted
      pending := fun _ => ?_
      uncancelled := fun _ => ?_
      unfinished := fun _ _ => ?_
      finished := fun _ hZero => ?_
      ended := by simp [Lead.taken?] }
  · have hCount := unreleased_of_submit hAborted file
    simp only [unreleased] at hCount hPending ⊢
    simp only [submit_pending hAborted, hCount, hPending,
      Lead.held]
  · simp only [submit_tasks hAborted, List.mem_append,
      List.mem_singleton]
    rintro task (hOld | rfl)
    · exact hNone task hOld
    · simp
  · simpa [posted, Lead.taken?] using
      hUnfinished (by omega)
  · simp [submit_pending hAborted] at hZero

theorem leadCloses
    (h : Accounted state)
    (hLead : state.lead = .submitting []) :
    Accounted { state with lead := .releasing } := by
  have hAborted :=
    h.not_aborted (by rw [hLead]; rfl)
  have hPending := h.pending hAborted
  have hUnfinished := h.unfinished hAborted
  simp only [hLead, Lead.held] at hPending
  simp only [posted, hLead, Lead.taken?] at hUnfinished
  exact
    { aborted := hAborted
      pending := fun _ => hPending
      uncancelled := h.uncancelled
      unfinished := fun _ hPositive => hUnfinished hPositive
      finished := fun _ hZero => by
        rw [show state.pending = 0 from hZero] at hPending
        omega
      ended := by simp [Lead.taken?] }

/-
  A release keeps the queue in order: the message that all is
  finished goes out with the last count, and not before.
-/
theorem finished_of_release
    (hUnfinished : .finished ∉ state.posted) :
    (0 < state.release.pending →
        .finished ∉ state.release.posted) ∧
      (state.release.pending = 0 →
        ∃ earlier,
          state.release.posted = earlier ++ [.finished] ∧
            .finished ∉ earlier) := by
  simp only [posted, release_lead, release_messages,
    release_pending] at hUnfinished ⊢
  constructor
  · intro hLeft
    rw [if_neg (by omega)]
    exact hUnfinished
  · intro hZero
    rw [if_pos hZero]
    exact ⟨_, (List.append_assoc _ _ _).symm, hUnfinished⟩

theorem leadReleases
    (h : Accounted state)
    (hLead : state.lead = .releasing) :
    Accounted { state.release with lead := .waiting } := by
  have hAborted :=
    h.not_aborted (by rw [hLead]; rfl)
  have hPending := h.pending hAborted
  simp only [hLead, Lead.held] at hPending
  have hRelease :=
    finished_of_release
      (h.unfinished hAborted (by omega))
  simp only [posted, release_lead, hLead, Lead.taken?]
    at hRelease
  refine
    { aborted := by simpa [Lead.hasAborted] using hAborted
      pending := fun _ => ?_
      uncancelled := fun _ => ?_
      unfinished := fun _ => hRelease.1
      finished := fun _ => hRelease.2
      ended := by simp [Lead.taken?] }
  · simp only [unreleased, release_tasks, release_pending,
      Lead.held] at hPending ⊢
    omega
  · simpa using h.uncancelled hAborted

theorem leadTakes
    (h : Accounted state)
    {message : Message}
    {more : List Message}
    (hLead : state.lead = .waiting)
    (hMessages : state.messages = message :: more) :
    Accounted
      { state with
        messages := more
        lead := .aborting message } := by
  have hAborted :=
    h.not_aborted (by rw [hLead]; rfl)
  have hPosted : state.posted = message :: more := by
    simp [posted, hLead, Lead.taken?, hMessages]
  have hPending := h.pending hAborted
  have hUnfinished := h.unfinished hAborted
  have hFinished := h.finished hAborted
  rw [hLead] at hPending
  rw [hPosted] at hUnfinished hFinished
  refine
    { aborted := hAborted
      pending := fun _ => hPending
      uncancelled := h.uncancelled
      unfinished := fun _ => hUnfinished
      finished := fun _ => hFinished
      ended := fun hTaken => ?_ }
  -- The message is the first and the last one at once.
  have hMessage : message = .finished := by
    simpa [Lead.taken?] using hTaken
  subst hMessage
  have hZero :=
    h.unreleased_eq_zero (by simp [hPosted]) hAborted
  rcases hFinished hZero.1 with ⟨earlier, hSplit, hNot⟩
  refine ⟨hZero.2.1, ?_⟩
  cases earlier with
  | nil => simpa using hSplit
  | cons first rest =>
      simp only [List.cons_append, List.cons.injEq] at hSplit
      simp [← hSplit.1] at hNot

theorem leadAborts
    (h : Accounted state)
    {message : Message}
    (hLead : state.lead = .aborting message) :
    Accounted
      { state with
        aborted := true
        lead := .cancelling message } := by
  have hEnded := h.ended
  rw [hLead] at hEnded
  exact
    { aborted := rfl
      pending := by simp
      uncancelled := by simp
      unfinished := by simp
      finished := by simp
      ended := hEnded }

theorem leadCancels
    (h : Accounted state)
    {message : Message}
    (hLead : state.lead = .cancelling message) :
    Accounted
      { state with
        tasks := state.tasks.map cancelled
        lead := .joining message } := by
  have hAborted : state.aborted = true := by
    rw [h.aborted, hLead]
    rfl
  have hEnded := h.ended
  rw [hLead] at hEnded
  refine
    { aborted := hAborted
      pending := by simp [hAborted]
      uncancelled := by simp [hAborted]
      unfinished := by simp [hAborted]
      finished := by simp [hAborted]
      ended := fun hTaken => ⟨?_, (hEnded hTaken).2⟩ }
  rw [unreleased_eq_zero_iff]
  intro task hTask
  rcases List.mem_map.mp hTask with ⟨old, hOld, rfl⟩
  have hStage :=
    unreleased_eq_zero_iff.mp (hEnded hTaken).1 old hOld
  simp [cancelled, isQueued, hStage]

theorem leadJoins
    (h : Accounted state)
    {message : Message}
    (hLead : state.lead = .joining message) :
    Accounted { state with lead := .done message } := by
  have hAborted : state.aborted = true := by
    rw [h.aborted, hLead]
    rfl
  have hEnded := h.ended
  rw [hLead] at hEnded
  exact
    { aborted := hAborted
      pending := by simp [hAborted]
      uncancelled := by simp [hAborted]
      unfinished := by simp [hAborted]
      finished := by simp [hAborted]
      ended := hEnded }

/- As long as a task has work left, all is not finished. -/
theorem not_ended
    (h : Accounted state)
    (hTask : task ∈ state.tasks)
    (hStage : task.stage ≠ .finished) :
    state.lead.taken? ≠ some .finished := by
  intro hTaken
  have hPositive := unreleased_pos hTask hStage
  have hZero := (h.ended hTaken).1
  omega

/- A task that goes on, and no more, changes no count. -/
theorem goesOn
    (h : Accounted state)
    {old new : Stage}
    (hTask : state.tasks[index]? = some ⟨file, old⟩)
    (hOld : old ≠ .finished)
    (hNew : new ≠ .finished)
    (hCancelled : new ≠ .cancelled) :
    Accounted (state.settle index file new) := by
  have hMem := List.mem_of_getElem? hTask
  have hCount := unreleased_settle hTask new
  simp only [hOld, hNew, if_false] at hCount
  have hSame :
      (state.settle index file new).unreleased =
        state.unreleased := by
    omega
  refine
    { aborted := h.aborted
      pending := fun hAborted => ?_
      uncancelled := fun hAborted => ?_
      unfinished := h.unfinished
      finished := h.finished
      ended := fun hTaken =>
        absurd hTaken (h.not_ended hMem hOld) }
  · rw [hSame]
    exact h.pending hAborted
  · intro task hMember
    rcases List.mem_or_eq_of_mem_set hMember with hIn | rfl
    · exact h.uncancelled hAborted task hIn
    · exact hCancelled

theorem submits
    (h : Accounted state)
    (hTask :
      state.tasks[index]? = some ⟨file, .running old⟩)
    (included : Path) :
    Accounted (state.submit included) := by
  cases hAborted : state.aborted with
  | true =>
      rw [submit_of_aborted hAborted]
      exact h
  | false =>
      have hPending := h.pending hAborted
      have hPositive :=
        unreleased_pos (List.mem_of_getElem? hTask)
          (by simp)
      refine
        { aborted := by simpa using h.aborted
          pending := fun _ => ?_
          uncancelled := fun _ => ?_
          unfinished := fun _ _ => ?_
          finished := fun _ hZero => ?_
          ended := fun hTaken => ?_ }
      · rw [submit_pending hAborted, submit_lead,
          unreleased_of_submit hAborted]
        omega
      · simp only [submit_tasks hAborted, List.mem_append,
          List.mem_singleton]
        rintro task (hOld | rfl)
        · exact h.uncancelled hAborted task hOld
        · simp
      · simpa [posted] using
          h.unfinished hAborted (by omega)
      · simp [submit_pending hAborted] at hZero
      · rw [submit_lead] at hTaken
        exact absurd hTaken
          (h.not_ended (List.mem_of_getElem? hTask)
            (by simp))

theorem reports
    (h : Accounted state)
    (hTask :
      state.tasks[index]? = some ⟨file, .running old⟩)
    (fault : BuildFault) :
    Accounted (state.post (.failed fault)) := by
  have hMem := List.mem_of_getElem? hTask
  have hPositive := unreleased_pos hMem (by simp)
  refine
    { aborted := h.aborted
      pending := h.pending
      uncancelled := h.uncancelled
      unfinished := fun hAborted hLeft => ?_
      finished := fun hAborted hZero => ?_
      ended := fun hTaken =>
        absurd hTaken (h.not_ended hMem (by simp)) }
  · have hNot := h.unfinished hAborted hLeft
    simpa [posted, post] using hNot
  · have hPending := h.pending hAborted
    have hNone : state.pending = 0 := hZero
    omega

theorem releases
    (h : Accounted state)
    (hTask :
      state.tasks[index]? = some ⟨file, .running old⟩) :
    Accounted (state.release.settle index file .finished) := by
  have hMem := List.mem_of_getElem? hTask
  have hPositive := unreleased_pos hMem (by simp)
  have hSame : state.release.unreleased = state.unreleased := by
    simp [unreleased]
  have hReleased :
      state.release.tasks[index]? =
        some ⟨file, .running old⟩ := by
    rwa [release_tasks]
  have hCount := unreleased_settle hReleased .finished
  simp only [reduceCtorEq, if_true, if_false, hSame]
    at hCount
  refine
    { aborted := by simpa [settle] using h.aborted
      pending := fun hAborted => ?_
      uncancelled := fun hAborted => ?_
      unfinished := fun hAborted => ?_
      finished := fun hAborted => ?_
      ended := fun hTaken => ?_ }
  all_goals
    simp only [settle, release_aborted, release_lead,
      release_pending] at *
  · have hPending := h.pending hAborted
    omega
  · intro task hMember
    rcases List.mem_or_eq_of_mem_set hMember with hIn | rfl
    · rw [release_tasks] at hIn
      exact h.uncancelled hAborted task hIn
    · simp
  · have hPending := h.pending hAborted
    have hRelease :=
      finished_of_release
        (h.unfinished hAborted (by omega))
    simpa [posted] using hRelease.1
  · have hPending := h.pending hAborted
    have hRelease :=
      finished_of_release
        (h.unfinished hAborted (by omega))
    simpa [posted] using hRelease.2
  · exact absurd hTaken (h.not_ended hMem (by simp))

/- Every turn keeps the books in order. -/
theorem turn
    (h : Accounted state)
    (hTurn : Turn roots workers state actor after) :
    Accounted after := by
  cases hTurn with
  | leadSubmits hLead => exact h.leadSubmits hLead
  | leadCloses hLead => exact h.leadCloses hLead
  | leadReleases hLead => exact h.leadReleases hLead
  | leadTakes hLead hMessages =>
      exact h.leadTakes hLead hMessages
  | leadAborts hLead => exact h.leadAborts hLead
  | leadCancels hLead => exact h.leadCancels hLead
  | leadJoins hLead hIdle => exact h.leadJoins hLead
  | taskStarts hTask hMay =>
      exact h.goesOn hTask (by simp) (by simp) (by simp)
  | @taskRuns index file point hTask =>
      rcases exists_effect roots state file point with
        ⟨next, stage, hAdvance, hEffect⟩
      rw [hAdvance]
      cases hEffect with
      | quiet tree seen written point =>
          have hQuiet :
              Accounted
                { state with
                  tree := tree
                  seen := seen
                  written := written } :=
            { h with }
          exact hQuiet.goesOn hTask (by simp) (by simp)
            (by simp)
      | submits include_ more =>
          exact (h.submits hTask _).goesOn
            (submit_task hTask _)
            (by simp) (by simp) (by simp)
      | reports fault =>
          exact (h.reports hTask fault).goesOn hTask
            (by simp) (by simp) (by simp)
      | releases => exact h.releases hTask

end Accounted

/- The books are in order in every state of every run. -/
theorem accounted_of_reaches
    {tree : FileTree}
    {files : List Path}
    (h : Reaches roots workers (start tree files) state) :
    Accounted state :=
  h.keeps (accounted_start tree files)
    fun _ _ _ hBefore hTurn => hBefore.turn hTurn

-- Progress

/- Has the task neither finished nor been cancelled? -/
def isOpen
    (task : Task) : Bool :=
  isQueued task || isRunning task

/-
  With a worker at hand, the next task in order has a turn,
  if any task is open: one that runs, or else the first one
  that is queued.
-/
theorem nextTask?_of_isOpen
    (roots : Roots)
    (hWorkers : 1 ≤ workers)
    (hMem : task ∈ state.tasks)
    (hOpen : isOpen task = true) :
    ∃ index task,
      state.nextTask? = some index ∧
        state.tasks[index]? = some task ∧
        task.stage ≠ .finished ∧
        (state.taskStep? roots workers index).isSome := by
  unfold nextTask?
  cases hRuns : state.tasks.findIdx? isRunning with
  | some index =>
      rcases List.findIdx?_eq_some_iff_getElem.mp hRuns with
        ⟨hIndex, hRunning, _⟩
      have hTask := List.getElem?_eq_getElem hIndex
      rcases hFound : state.tasks[index] with ⟨file, stage⟩
      rw [hFound] at hTask hRunning
      refine ⟨index, _, rfl, hTask, ?_, ?_⟩ <;>
        cases stage <;>
        simp_all [isRunning, taskStep?]
  | none =>
      have hIdle : state.tasks.countP isRunning = 0 :=
        List.countP_eq_zero.mpr fun found hFound => by
          simp [List.findIdx?_eq_none_iff.mp hRuns found
            hFound]
      have hNot := List.findIdx?_eq_none_iff.mp hRuns task hMem
      have hQueued : isQueued task = true := by
        simpa [isOpen, hNot] using hOpen
      cases hWaits : state.tasks.findIdx? isQueued with
      | none =>
          have hNone :=
            List.findIdx?_eq_none_iff.mp hWaits task hMem
          rw [hQueued] at hNone
          cases hNone
      | some index =>
          rcases List.findIdx?_eq_some_iff_getElem.mp hWaits
            with ⟨hIndex, hFirst, hBefore⟩
          have hTask := List.getElem?_eq_getElem hIndex
          have hStage :
              state.tasks[index].stage = .queued := by
            simpa [isQueued] using hFirst
          have hMay :
              state.mayStart workers index = true := by
            have hEarlier : (state.tasks.take index).any
                isQueued = false := by
              rw [List.any_eq_false]
              intro earlier hEarlier
              rcases List.mem_take_iff_getElem.mp hEarlier
                with ⟨i, hLess, rfl⟩
              exact hBefore i
                (Nat.lt_of_lt_of_le hLess (Nat.min_le_left _ _))
            simp only [mayStart, hIdle, hEarlier,
              Bool.not_false, Bool.and_true,
              decide_eq_true_eq]
            omega
          refine ⟨index, _, rfl, hTask, by simp [hStage], ?_⟩
          simp [taskStep?, hTask, hStage, hMay]

namespace Accounted

/- A lead that waits in vain waits for a task. -/
theorem exists_isOpen
    (h : Accounted state)
    (hLead : state.lead = .waiting)
    (hMessages : state.messages = []) :
    ∃ task ∈ state.tasks, isOpen task = true := by
  have hAborted :=
    h.not_aborted (by rw [hLead]; rfl)
  have hPosted : state.posted = [] := by
    simp [posted, hLead, Lead.taken?, hMessages]
  have hPending := h.pending hAborted
  have hPositive : 0 < state.unreleased := by
    rcases Nat.eq_zero_or_pos state.pending with
      hZero | hPositive
    · rcases h.finished hAborted hZero with
        ⟨earlier, hSplit, _⟩
      simp [hPosted] at hSplit
    · simpa [hLead, Lead.held, hPending] using hPositive
  rcases List.countP_pos_iff.mp hPositive with
    ⟨task, hMem, hLeft⟩
  refine ⟨task, hMem, ?_⟩
  have hCancelled := h.uncancelled hAborted task hMem
  rcases task with ⟨file, stage⟩
  cases stage <;>
    simp_all [isOpen, isQueued, isRunning, hasReleased]

/- The task that it waits for has a turn. -/
theorem exists_taskStep?
    (h : Accounted state)
    (roots : Roots)
    (hWorkers : 1 ≤ workers)
    (hLead : state.lead = .waiting)
    (hMessages : state.messages = []) :
    ∃ index task,
      state.tasks[index]? = some task ∧
        task.stage ≠ .finished ∧
        (state.taskStep? roots workers index).isSome := by
  rcases h.exists_isOpen hLead hMessages with
    ⟨task, hMem, hOpen⟩
  rcases nextTask?_of_isOpen roots hWorkers hMem hOpen with
    ⟨index, found, _, hFound⟩
  exact ⟨index, found, hFound⟩

end Accounted

-- No Submission After the End

theorem submitted_settle
    {old new : Stage}
    (h : state.tasks[index]? = some ⟨file, old⟩) :
    (state.settle index file new).submitted =
      state.submitted := by
  apply List.ext_getElem?
  intro i
  simp only [submitted, settle, List.map_set,
    List.getElem?_set]
  split
  · next hIndex =>
      subst hIndex
      rcases List.getElem?_eq_some_iff.mp h with
        ⟨hBound, hTask⟩
      simp [hBound, hTask]
  · rfl

/-
  Is it too late for a submission? So it is once the lead
  has aborted, or once all was said to be finished.
-/
def IsClosed
    (state : BuildState) : Prop :=
  state.aborted = true ∨ .finished ∈ state.posted

namespace Accounted

/- Nothing is submitted by a turn once it is too late. -/
theorem submitted_of_turn
    (h : Accounted state)
    (hClosed : IsClosed state)
    (hTurn : Turn roots workers state actor after) :
    IsClosed after ∧ after.submitted = state.submitted := by
  -- Before the lead aborts, all counts were given back.
  have hHeld (hLead : state.lead.hasAborted = false) :
      state.unreleased = 0 ∧ state.lead.held = 0 := by
    have hAborted := h.not_aborted hLead
    rcases hClosed with hYes | hFinished
    · simp [hAborted] at hYes
    · exact (h.unreleased_eq_zero hFinished hAborted).2
  cases hTurn with
  | leadSubmits hLead =>
      have hNot := hHeld (by rw [hLead]; rfl)
      simp [hLead, Lead.held] at hNot
  | leadCloses hLead =>
      have hNot := hHeld (by rw [hLead]; rfl)
      simp [hLead, Lead.held] at hNot
  | leadReleases hLead =>
      have hNot := hHeld (by rw [hLead]; rfl)
      simp [hLead, Lead.held] at hNot
  | leadTakes hLead hMessages =>
      refine ⟨?_, rfl⟩
      simpa [IsClosed, posted, hLead, hMessages, Lead.taken?]
        using hClosed
  | leadAborts hLead => exact ⟨.inl rfl, rfl⟩
  | leadCancels hLead =>
      have hAborted : state.aborted = true := by
        rw [h.aborted, hLead]
        rfl
      refine ⟨.inl hAborted, ?_⟩
      simp only [submitted, List.map_map]
      refine List.map_congr_left fun task _ => ?_
      simp only [Function.comp_apply, cancelled]
      split <;> rfl
  | leadJoins hLead hIdle =>
      have hAborted : state.aborted = true := by
        rw [h.aborted, hLead]
        rfl
      exact ⟨.inl hAborted, rfl⟩
  | taskStarts hTask hMay =>
      exact ⟨hClosed, submitted_settle hTask⟩
  | @taskRuns index file point hTask =>
      rcases exists_effect roots state file point with
        ⟨next, stage, hAdvance, hEffect⟩
      rw [hAdvance]
      cases hEffect with
      | quiet tree seen written point =>
          exact ⟨hClosed, submitted_settle hTask⟩
      | submits include_ more =>
          have hAborted : state.aborted = true := by
            cases hAborted : state.aborted with
            | true => rfl
            | false =>
                rw [h.aborted] at hAborted
                have hPositive :=
                  unreleased_pos (List.mem_of_getElem? hTask)
                    (by simp)
                have hNone := (hHeld hAborted).1
                omega
          rw [submit_of_aborted hAborted]
          exact ⟨.inl hAborted, submitted_settle hTask⟩
      | reports fault =>
          refine ⟨?_, submitted_settle hTask⟩
          rcases hClosed with hAborted | hFinished
          · exact .inl hAborted
          · refine .inr ?_
            simp only [posted, settle, post] at hFinished ⊢
            rw [← List.append_assoc]
            exact List.mem_append_left _ hFinished
      | releases =>
          refine ⟨?_, ?_⟩
          · rcases hClosed with hAborted | hFinished
            · exact .inl (by simpa [settle] using hAborted)
            · refine .inr ?_
              simp only [posted, settle, release_lead,
                release_messages] at hFinished ⊢
              split
              · rw [← List.append_assoc]
                exact List.mem_append_left _ hFinished
              · exact hFinished
          · have hReleased :
                state.release.tasks[index]? =
                  some ⟨file, .running .releasing⟩ := by
              rwa [release_tasks]
            rw [submitted_settle hReleased]
            simp [submitted]

end Accounted

/- What was put into the queue stays on record. -/
theorem posted_prefix_of_turn
    (hTurn : Turn roots workers state actor after) :
    state.posted <+: after.posted := by
  cases hTurn with
  | leadSubmits hLead =>
      simp [posted, hLead, Lead.taken?]
  | leadCloses hLead =>
      simp [posted, hLead, Lead.taken?]
  | leadReleases hLead =>
      simp only [posted, hLead, Lead.taken?,
        release_messages]
      split <;> simp
  | leadTakes hLead hMessages =>
      simp [posted, hLead, hMessages, Lead.taken?]
  | leadAborts hLead =>
      simp [posted, hLead, Lead.taken?]
  | leadCancels hLead =>
      simp [posted, hLead, Lead.taken?]
  | leadJoins hLead hIdle =>
      simp [posted, hLead, Lead.taken?]
  | taskStarts hTask hMay => exact List.prefix_rfl
  | @taskRuns index file point hTask =>
      rcases exists_effect roots state file point with
        ⟨next, stage, hAdvance, hEffect⟩
      rw [hAdvance]
      cases hEffect with
      | quiet tree seen written point =>
          exact List.prefix_rfl
      | submits include_ more => simp [posted, settle]
      | reports fault => simp [posted, settle, post]
      | releases =>
          simp only [posted, settle, release_lead,
            release_messages]
          split <;> simp

namespace Accounted

theorem submitted_of_reaches
    (h : Accounted state)
    (hClosed : IsClosed state)
    (hReaches : Reaches roots workers state later) :
    later.submitted = state.submitted := by
  have hKept :
      Accounted later ∧ IsClosed later ∧
        later.submitted = state.submitted := by
    refine hReaches.keeps (P := fun last =>
      Accounted last ∧ IsClosed last ∧
        last.submitted = state.submitted)
      ⟨h, hClosed, rfl⟩ ?_
    intro before after actor hBefore hTurn
    rcases hBefore with ⟨hBooks, hShut, hSame⟩
    have hNext := hBooks.submitted_of_turn hShut hTurn
    exact ⟨hBooks.turn hTurn, hNext.1, hNext.2.trans hSame⟩
  exact hKept.2.2

end Accounted

theorem posted_prefix_of_reaches
    (hReaches : Reaches roots workers state later) :
    state.posted <+: later.posted :=
  hReaches.keeps (P := fun last =>
    state.posted <+: last.posted)
    List.prefix_rfl
    fun _ _ _ hBefore hTurn =>
      hBefore.trans (posted_prefix_of_turn hTurn)

-- Accounting for Every Task

namespace Accounted

/- All that was said once all is finished. -/
theorem count_finished_le_one
    (h : Accounted state)
    (hAborted : state.aborted = false) :
    state.posted.count .finished ≤ 1 := by
  rcases Nat.eq_zero_or_pos state.pending with
    hZero | hPositive
  · rcases h.finished hAborted hZero with
      ⟨earlier, hSplit, hNot⟩
    rw [hSplit, List.count_append,
      List.count_eq_zero.mpr hNot]
    simp
  · rw [List.count_eq_zero.mpr
      (h.unfinished hAborted hPositive)]
    omega

theorem getLast?_posted
    (h : Accounted state)
    (hAborted : state.aborted = false)
    (hFinished : .finished ∈ state.posted) :
    state.posted.getLast? = some .finished := by
  have hZero := (h.unreleased_eq_zero hFinished hAborted).1
  rcases h.finished hAborted hZero with ⟨earlier, hSplit, _⟩
  simp [hSplit]

/- A build that comes to a good end has heard no fault. -/
theorem posted_of_outcome?
    {paths : List Path}
    (h : Accounted state)
    (hOutcome : state.outcome? = some (.ok paths)) :
    state.posted = [.finished] := by
  simp only [outcome?] at hOutcome
  split at hOutcome
  · next hLead =>
      have hEnded := h.ended (by simp [hLead, Lead.taken?])
      simp [posted, hLead, Lead.taken?, hEnded.2]
  · cases hOutcome
  · cases hOutcome

end Accounted

/-
  In every state that any order of turns leads to, as long
  as the lead has not aborted: the counter is the number of
  tasks that have not released, and one for the lead while
  it submits; that all is finished is said at most once,
  only when every task has released, and after everything
  else; and a lead that waits at an empty queue waits for a
  task that has a turn. What was said stays said, nothing is
  submitted after the end or after the lead has aborted, and
  a build with a good outcome has heard of no fault.
-/
theorem accounts_for_every_task
    {roots : Roots}
    {workers : Int}
    {tree : FileTree}
    {files : List Path}
    {state : BuildState}
    (hWorkers : 1 ≤ workers)
    (hReaches :
      Reaches roots workers (start tree files) state) :
    (state.aborted = false →
      state.pending =
          state.unreleased + state.lead.held ∧
        state.posted.count .finished ≤ 1 ∧
        (.finished ∈ state.posted →
          (∀ task ∈ state.tasks, task.stage = .finished) ∧
            state.lead.held = 0 ∧
            state.posted.getLast? = some .finished) ∧
        (state.lead = .waiting → state.messages = [] →
          ∃ index task,
            state.tasks[index]? = some task ∧
              task.stage ≠ .finished ∧
              (state.taskStep? roots workers
                index).isSome)) ∧
      state.aborted = state.lead.hasAborted ∧
      (∀ later, Reaches roots workers state later →
        state.posted <+: later.posted ∧
          (state.aborted = true ∨
              .finished ∈ state.posted →
            later.submitted = state.submitted)) ∧
      (∀ paths, state.outcome? = some (.ok paths) →
        ∀ fault, .failed fault ∉ state.posted) := by
  have h := accounted_of_reaches hReaches
  refine ⟨fun hAborted => ⟨h.pending hAborted,
    h.count_finished_le_one hAborted, fun hFinished => ?_,
    h.exists_taskStep? roots hWorkers⟩, h.aborted,
    fun later hLater => ⟨posted_prefix_of_reaches hLater,
      fun hClosed => h.submitted_of_reaches hClosed hLater⟩,
    fun paths hOutcome fault hFailed => ?_⟩
  · have hZero := (h.unreleased_eq_zero hFinished hAborted).2
    exact ⟨unreleased_eq_zero_iff.mp hZero.1, hZero.2,
      h.getLast?_posted hAborted hFinished⟩
  · rw [h.posted_of_outcome? hOutcome] at hFailed
    simp at hFailed

/-
  A lead that has submitted one source waits at an empty
  queue, and the counter stands at one.
-/
theorem accounts_for_one_queued_task :
    ∃ state : BuildState,
      Reaches ⟨⟨1, []⟩, ⟨1, [['o']]⟩⟩ 1
          (start FileTree.empty [⟨1, [['a']]⟩]) state ∧
        state.lead = .waiting ∧
        state.messages = [] ∧
        state.pending = 1 ∧
        state.unreleased = 1 ∧
        ∃ index task,
          state.tasks[index]? = some task ∧
            task.stage ≠ .finished ∧
            (state.taskStep? ⟨⟨1, []⟩, ⟨1, [['o']]⟩⟩ 1
              index).isSome := by
  have hReaches :
      Reaches ⟨⟨1, []⟩, ⟨1, [['o']]⟩⟩ 1
        (start FileTree.empty [⟨1, [['a']]⟩])
        { tree := FileTree.empty
          seen := []
          pending := 1
          messages := []
          aborted := false
          written := []
          tasks := [⟨⟨1, [['a']]⟩, .queued⟩]
          lead := .waiting } :=
    .step (.step (.step .refl ⟨.lead, rfl⟩) ⟨.lead, rfl⟩)
      ⟨.lead, rfl⟩
  have hBooks :=
    (accounts_for_every_task (by decide) hReaches).1 rfl
  exact ⟨_, hReaches, rfl, rfl, rfl, rfl,
    hBooks.2.2.2 rfl rfl⟩

end BuildState

end ThriftTypings
