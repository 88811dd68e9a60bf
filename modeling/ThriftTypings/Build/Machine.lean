import ThriftTypings.Build.Rendering

/-
  This file defines the machine that runs a build: a lead
  that submits sources and waits for an outcome, and tasks
  that each compile one source and submit its includes.

  The lead and the tasks take turns in any order. A counter
  says how many of them have work left; when it reaches
  zero, the message that all is finished goes into the same
  queue as the faults. The first message decides.
-/

namespace ThriftTypings

-- Tasks and the Lead

/- What is reported to the lead. -/
inductive Message where
  | finished
  | failed (fault : BuildFault)
  deriving DecidableEq, Repr

/- What a running task does next. -/
inductive Point where
  | entering
  | admitting
  | preparing
  | making (prepared : Prepared)
  | writing (prepared : Prepared)
  | recording (target : Path) (includes : List Text)
  | submitting (includes : List Text)
  | reporting (fault : BuildFault)
  | releasing
  deriving DecidableEq, Repr

/- How far a task has come. -/
inductive Stage where
  | queued
  | running (point : Point)
  | finished
  | cancelled
  deriving DecidableEq, Repr

/- A task: its source and how far it has come. -/
structure Task where
  file : Path
  stage : Stage
  deriving DecidableEq, Repr

/- What the lead does next. -/
inductive Lead where
  | submitting (files : List Path)
  | releasing
  | waiting
  | aborting (message : Message)
  | cancelling (message : Message)
  | joining (message : Message)
  | done (message : Message)
  deriving DecidableEq, Repr

/- Who takes a turn. -/
inductive Actor where
  | lead
  | task (index : Nat)
  deriving DecidableEq, Repr

-- States

/-
  The state of a build. `pending` counts the lead, until it
  has submitted everything, and the tasks that have not
  released.
-/
structure BuildState where
  tree : FileTree
  seen : List Path
  pending : Nat
  messages : List Message
  aborted : Bool
  written : List Path
  tasks : List Task
  lead : Lead
  deriving DecidableEq, Repr

namespace BuildState

/- The state before anything has happened. -/
def start
    (tree : FileTree)
    (files : List Path) : BuildState where
  tree := tree
  seen := []
  pending := 1
  messages := []
  aborted := false
  written := []
  tasks := []
  lead := .submitting files

/- A source is submitted, unless the build is aborted. -/
def submit
    (state : BuildState)
    (file : Path) : BuildState :=
  if state.aborted then state
  else
    { state with
      pending := state.pending + 1
      tasks := state.tasks ++ [⟨file, .queued⟩] }

/- Something goes into the queue of messages. -/
def post
    (state : BuildState)
    (message : Message) : BuildState :=
  { state with messages := state.messages ++ [message] }

/- One less has work left. The last one says so. -/
def release
    (state : BuildState) : BuildState :=
  let left := { state with pending := state.pending - 1 }
  if left.pending = 0 then left.post .finished else left

-- Turns of Tasks

/-
  One turn of a running task. It compiles its source only
  if no other task was admitted for it before.
-/
def advance
    (roots : Roots)
    (file : Path)
    (state : BuildState) : Point → BuildState × Stage
  | .entering =>
      if state.aborted then (state, .running .releasing)
      else (state, .running .admitting)
  | .admitting =>
      if file ∈ state.seen then
        (state, .running .releasing)
      else
        ({ state with seen := file :: state.seen },
          .running .preparing)
  | .preparing =>
      match roots.prepare state.tree file with
      | .error fault => (state, .running (.reporting fault))
      | .ok prepared => (state, .running (.making prepared))
  | .making prepared =>
      match
        state.tree.makeDirectories prepared.target.parent
      with
      | (.ok (), tree) =>
          ({ state with tree := tree },
            .running (.writing prepared))
      | (.error fault, tree) =>
          ({ state with tree := tree },
            .running (.reporting
              (Roots.writeFault prepared.relative fault)))
  | .writing prepared =>
      match
        state.tree.write prepared.target
          (Utf8.encode prepared.rendering.text)
      with
      | .ok tree =>
          ({ state with tree := tree },
            .running (.recording prepared.target
              prepared.rendering.includes))
      | .error fault =>
          (state,
            .running (.reporting
              (Roots.writeFault prepared.relative fault)))
  | .recording target includes =>
      ({ state with written := state.written ++ [target] },
        .running (.submitting includes))
  | .submitting [] => (state, .running .releasing)
  | .submitting (include_ :: more) =>
      (state.submit (file.included include_),
        .running (.submitting more))
  | .reporting fault =>
      (state.post (.failed fault), .running .releasing)
  | .releasing => (state.release, .finished)

/- Is the task running? -/
def isRunning
    (task : Task) : Bool :=
  match task.stage with
  | .running _ => true
  | _ => false

/- Is the task still waiting for a worker? -/
def isQueued
    (task : Task) : Bool :=
  task.stage == .queued

/-
  May the task at an index be started? Workers take tasks in
  the order in which they were submitted.
-/
def mayStart
    (workers : Int)
    (state : BuildState)
    (index : Nat) : Bool :=
  (state.tasks.countP isRunning : Int) < workers &&
    !(state.tasks.take index).any isQueued

/- One turn of the task at an index, if it has one. -/
def taskStep?
    (roots : Roots)
    (workers : Int)
    (state : BuildState)
    (index : Nat) : Option BuildState :=
  match state.tasks[index]? with
  | none => none
  | some task =>
      match task.stage with
      | .queued =>
          if state.mayStart workers index then
            some
              { state with
                tasks := state.tasks.set index
                  { task with stage := .running .entering } }
          else
            none
      | .running point =>
          let (after, stage) :=
            state.advance roots task.file point
          some
            { after with
              tasks := after.tasks.set index
                { task with stage := stage } }
      | .finished => none
      | .cancelled => none

-- Turns of the Lead

/- A task that has not started will not start any more. -/
def cancelled
    (task : Task) : Task :=
  if isQueued task then { task with stage := .cancelled }
  else task

/-
  One turn of the lead, if it has one. It waits for a first
  message, then aborts the build, cancels the tasks that
  have not started and waits for those that run.
-/
def leadStep?
    (state : BuildState) : Option BuildState :=
  match state.lead with
  | .submitting [] => some { state with lead := .releasing }
  | .submitting (file :: more) =>
      some
        { state.submit file with lead := .submitting more }
  | .releasing => some { state.release with lead := .waiting }
  | .waiting =>
      match state.messages with
      | [] => none
      | message :: more =>
          some
            { state with
              messages := more
              lead := .aborting message }
  | .aborting message =>
      some
        { state with
          aborted := true
          lead := .cancelling message }
  | .cancelling message =>
      some
        { state with
          tasks := state.tasks.map cancelled
          lead := .joining message }
  | .joining message =>
      if state.tasks.any isRunning then none
      else some { state with lead := .done message }
  | .done _ => none

-- Steps

/- One turn of an actor, if it has one. -/
def step?
    (roots : Roots)
    (workers : Int)
    (state : BuildState) : Actor → Option BuildState
  | .lead => state.leadStep?
  | .task index => state.taskStep? roots workers index

/- One step of a build, by any actor that has a turn. -/
def Step
    (roots : Roots)
    (workers : Int)
    (before after : BuildState) : Prop :=
  ∃ actor, before.step? roots workers actor = some after

/- The states that any order of turns may lead to. -/
inductive Reaches
    (roots : Roots)
    (workers : Int)
    (start : BuildState) : BuildState → Prop where
  | refl : Reaches roots workers start start
  | step
      {middle final : BuildState}
      (before : Reaches roots workers start middle)
      (turn : Step roots workers middle final) :
      Reaches roots workers start final

end BuildState

end ThriftTypings
