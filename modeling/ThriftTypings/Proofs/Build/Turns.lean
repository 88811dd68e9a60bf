import ThriftTypings.Build.Run

/-
  This file says what one turn of a build can do. The turns
  of the lead and of the tasks are listed once, so that an
  invariant is proved by a look at each of them.

  Key definitions include:
    * `BuildState.Turn`
    * `BuildState.Effect`

  Key theorems include:
    * `BuildState.effect_advance`
    * `BuildState.Reaches.keeps`
-/

namespace ThriftTypings

namespace BuildState

variable {roots : Roots} {workers : Int}
variable {state after : BuildState}

-- Turns

/-
  A state in which the task at an index has come to a stage.
-/
def settle
    (state : BuildState)
    (index : Nat)
    (file : Path)
    (stage : Stage) : BuildState :=
  { state with tasks := state.tasks.set index ⟨file, stage⟩ }

/- A task at a new stage changes a count by that task. -/
theorem countP_set
    (counts : Task → Bool)
    {tasks : List Task}
    {index : Nat}
    {old : Task}
    (new : Task)
    (h : tasks[index]? = some old) :
    (tasks.set index new).countP counts +
        (if counts old then 1 else 0) =
      tasks.countP counts +
        (if counts new then 1 else 0) := by
  rcases List.getElem?_eq_some_iff.mp h with ⟨hIndex, hTask⟩
  have hPositive :
      counts old = true → 0 < tasks.countP counts := fun hOld =>
    List.countP_pos_iff.mpr
      ⟨old, List.mem_of_getElem? h, hOld⟩
  rw [List.countP_set hIndex, hTask]
  by_cases hOld : counts old = true
  · have := hPositive hOld
    simp only [hOld, if_true]
    omega
  · simp only [hOld, Bool.false_eq_true, if_false]
    omega

/-
  The turns that an actor may take. A running task does what
  `advance` says; all other turns are spelled out.
-/
inductive Turn
    (roots : Roots)
    (workers : Int)
    (state : BuildState) : Actor → BuildState → Prop where
  | leadSubmits
      {file : Path} {more : List Path}
      (lead : state.lead = .submitting (file :: more)) :
      Turn roots workers state .lead
        { state.submit file with lead := .submitting more }
  | leadCloses
      (lead : state.lead = .submitting []) :
      Turn roots workers state .lead
        { state with lead := .releasing }
  | leadReleases
      (lead : state.lead = .releasing) :
      Turn roots workers state .lead
        { state.release with lead := .waiting }
  | leadTakes
      {message : Message} {more : List Message}
      (lead : state.lead = .waiting)
      (messages : state.messages = message :: more) :
      Turn roots workers state .lead
        { state with
          messages := more
          lead := .aborting message }
  | leadAborts
      {message : Message}
      (lead : state.lead = .aborting message) :
      Turn roots workers state .lead
        { state with
          aborted := true
          lead := .cancelling message }
  | leadCancels
      {message : Message}
      (lead : state.lead = .cancelling message) :
      Turn roots workers state .lead
        { state with
          tasks := state.tasks.map cancelled
          lead := .joining message }
  | leadJoins
      {message : Message}
      (lead : state.lead = .joining message)
      (idle : state.tasks.any isRunning = false) :
      Turn roots workers state .lead
        { state with lead := .done message }
  | taskStarts
      {index : Nat} {file : Path}
      (task : state.tasks[index]? = some ⟨file, .queued⟩)
      (may : state.mayStart workers index = true) :
      Turn roots workers state (.task index)
        (state.settle index file (.running .entering))
  | taskRuns
      {index : Nat} {file : Path} {point : Point}
      (task :
        state.tasks[index]? = some ⟨file, .running point⟩) :
      Turn roots workers state (.task index)
        ((state.advance roots file point).1.settle index file
          (state.advance roots file point).2)

theorem turn_of_leadStep?
    (h : state.leadStep? = some after) :
    Turn roots workers state .lead after := by
  simp only [leadStep?] at h
  split at h
  · next hLead =>
      cases h
      exact .leadCloses hLead
  · next hLead =>
      cases h
      exact .leadSubmits hLead
  · next hLead =>
      cases h
      exact .leadReleases hLead
  · next hLead =>
      split at h
      · cases h
      · next hMessages =>
          cases h
          exact .leadTakes hLead hMessages
  · next hLead =>
      cases h
      exact .leadAborts hLead
  · next hLead =>
      cases h
      exact .leadCancels hLead
  · next hLead =>
      split at h
      · cases h
      · next hIdle =>
          cases h
          exact .leadJoins hLead (by simpa using hIdle)
  · cases h

theorem turn_of_taskStep?
    {index : Nat}
    (h : state.taskStep? roots workers index = some after) :
    Turn roots workers state (.task index) after := by
  simp only [taskStep?] at h
  split at h
  · cases h
  · next task hTask =>
      rcases task with ⟨file, stage⟩
      dsimp only at h
      split at h
      · split at h
        · next hMay =>
            cases h
            exact .taskStarts hTask hMay
        · cases h
      · cases h
        exact .taskRuns hTask
      · cases h
      · cases h

/- Every step of the machine is one of the listed turns. -/
theorem turn_of_step?
    {actor : Actor}
    (h : state.step? roots workers actor = some after) :
    Turn roots workers state actor after := by
  cases actor with
  | lead => exact turn_of_leadStep? h
  | task index => exact turn_of_taskStep? h

theorem Step.turn
    (h : Step roots workers state after) :
    ∃ actor, Turn roots workers state actor after := by
  rcases h with ⟨actor, hStep⟩
  exact ⟨actor, turn_of_step? hStep⟩

-- What a Running Task Does to the Others

/-
  What a turn of a running task does to what is shared: it
  touches no more than the files and the records of them, or
  it submits a source, reports a fault, or releases.
-/
inductive Effect
    (state : BuildState)
    (file : Path) :
    Point → BuildState → Stage → Prop where
  | quiet
      {old : Point}
      (tree : FileTree) (seen written : List Path)
      (point : Point) :
      Effect state file old
        { state with
          tree := tree
          seen := seen
          written := written }
        (.running point)
  | submits
      (include_ : Text) (more : List Text) :
      Effect state file (.submitting (include_ :: more))
        (state.submit (file.included include_))
        (.running (.submitting more))
  | reports
      (fault : BuildFault) :
      Effect state file (.reporting fault)
        (state.post (.failed fault)) (.running .releasing)
  | releases :
      Effect state file .releasing state.release .finished

theorem effect_advance
    (roots : Roots)
    (state : BuildState)
    (file : Path)
    (point : Point) :
    Effect state file point
      (state.advance roots file point).1
      (state.advance roots file point).2 := by
  cases point with
  | entering =>
      simp only [advance]
      split <;> exact .quiet _ _ _ _
  | admitting =>
      simp only [advance]
      split <;> exact .quiet _ _ _ _
  | preparing =>
      simp only [advance]
      split <;> exact .quiet _ _ _ _
  | making prepared =>
      simp only [advance]
      split <;> exact .quiet _ _ _ _
  | writing prepared =>
      simp only [advance]
      split <;> exact .quiet _ _ _ _
  | recording target includes => exact .quiet _ _ _ _
  | submitting includes =>
      cases includes with
      | nil => exact .quiet _ _ _ _
      | cons include_ more => exact .submits _ _
  | reporting fault => exact .reports fault
  | releasing => exact .releases

theorem exists_effect
    (roots : Roots)
    (state : BuildState)
    (file : Path)
    (point : Point) :
    ∃ next stage,
      state.advance roots file point = (next, stage) ∧
        Effect state file point next stage :=
  ⟨_, _, rfl, effect_advance roots state file point⟩

-- Reachable States

/- What holds at first and is kept by steps holds always. -/
theorem Reaches.keeps
    {start : BuildState}
    {P : BuildState → Prop}
    (hReaches : Reaches roots workers start state)
    (hStart : P start)
    (hTurn : ∀ before after actor,
      P before → Turn roots workers before actor after →
        P after) :
    P state := by
  induction hReaches with
  | refl => exact hStart
  | step _ hStep ih =>
      rcases hStep.turn with ⟨actor, hLast⟩
      exact hTurn _ _ actor ih hLast

/- A run goes on as a run from any of its states. -/
theorem Reaches.trans
    {first second third : BuildState}
    (hFirst : Reaches roots workers first second)
    (hSecond : Reaches roots workers second third) :
    Reaches roots workers first third := by
  induction hSecond with
  | refl => exact hFirst
  | step _ hStep ih => exact .step ih hStep

end BuildState

end ThriftTypings
