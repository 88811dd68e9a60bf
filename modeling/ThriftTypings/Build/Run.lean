import ThriftTypings.Build.Machine
import ThriftTypings.Build.Workers

/-
  This file defines complete builds: the roots are resolved,
  the old output is removed, and the machine runs until the
  lead is done.

  The order of turns is the simplest one: the lead goes
  first, and the tasks run one after the other in the order
  in which they were submitted. There is no bound on the
  turns of a build, since every run of the machine ends.
-/

namespace ThriftTypings

-- Runs in Order

namespace BuildState

/-
  The task that is next in order: one that runs, or else the
  first one that is queued.
-/
def nextTask?
    (state : BuildState) : Option Nat :=
  (state.tasks.findIdx? isRunning).or
    (state.tasks.findIdx? isQueued)

/- The next turn in order: the lead goes first. -/
def nextTurn?
    (roots : Roots)
    (workers : Int)
    (state : BuildState) : Option BuildState :=
  match state.leadStep? with
  | some after => some after
  | none =>
      state.nextTask?.bind (state.taskStep? roots workers)

/- Turns in order, until there is none. -/
def runInOrder
    (roots : Roots)
    (workers : Int)
    (state : BuildState) : BuildState :=
  match state.nextTurn? roots workers with
  | none => state
  | some after => after |>.runInOrder roots workers
partial_fixpoint

/-
  What a build came to, once the lead is done: the paths
  that were written, in order, or the fault.
-/
def outcome?
    (state : BuildState) :
    Option (Except BuildFault (List Path)) :=
  match state.lead with
  | .done .finished =>
      some (.ok (state.written.mergeSort Path.le))
  | .done (.failed fault) => some (.error fault)
  | _ => none

end BuildState

-- Requests

/- What a build is asked to do. -/
structure BuildRequest where
  inputs : List Text
  source : Text
  output : Text
  workers : Option Int
  deriving DecidableEq, Repr

/- What a build finds around it. -/
structure Surroundings where
  directory : Path
  setting : Option Text
  processors : Option Int
  deriving DecidableEq, Repr

/- The roots of a build, resolved. -/
def BuildRequest.roots
    (request : BuildRequest)
    (directory : Path) : Roots where
  source := Path.resolve directory request.source
  output := Path.resolve directory request.output

-- The Old Output

/-
  Does the output root hold the source root? Decided on the
  spelling of the two.
-/
def Roots.outputHoldsSource
    (roots : Roots) : Bool :=
  let base :=
    (roots.output.text.reverse.dropWhile (· == '/')).reverse
  roots.source.text == roots.output.text ||
    Text.startsWith roots.source.text (base ++ ['/'])

/- Removes the old output, if that is safe. -/
def removeOutput
    (roots : Roots)
    (tree : FileTree) : Except BuildFault FileTree :=
  if roots.outputHoldsSource then
    .error
      (.holdsSource roots.output.text roots.source.text)
  else if tree.isThere roots.output then
    match tree.removeTree roots.output with
    | .error fault =>
        .error (.unremovable roots.output.text fault)
    | .ok removed => .ok removed
  else
    .ok tree

-- Builds

/- The machine of a build, ready to run on a tree. -/
def BuildRequest.machine
    (request : BuildRequest)
    (roots : Roots)
    (tree : FileTree) : BuildState :=
  BuildState.start tree
    (request.inputs.map (Path.resolve roots.source))

/-
  What a build leaves: its outcome, if it came to one, the
  tree once the old output was removed, the tree in the end,
  and the sources that were submitted, each one once.
-/
structure Build where
  outcome : Option (Except BuildFault (List Path))
  cleared : FileTree
  tree : FileTree
  asked : List Path
  deriving Repr

/- The build that failed before it asked for a source. -/
def Build.refused
    (fault : BuildFault)
    (tree : FileTree) : Build where
  outcome := some (.error fault)
  cleared := tree
  tree := tree
  asked := []

/- The build that a run of the machine makes. -/
def Build.ofState
    (cleared : FileTree)
    (state : BuildState) : Build where
  outcome := state.outcome?
  cleared := cleared
  tree := state.tree
  asked := (state.tasks.map Task.file).eraseDups

/- A whole build. -/
def compile
    (surroundings : Surroundings)
    (request : BuildRequest)
    (tree : FileTree) : Build :=
  let roots := request.roots surroundings.directory
  match
    workerCount request.workers surroundings.setting
      surroundings.processors
  with
  | .error fault => .refused fault tree
  | .ok workers =>
      match removeOutput roots tree with
      | .error fault => .refused fault tree
      | .ok removed =>
          .ofState removed
            ((request.machine roots removed).runInOrder
              roots workers)

end ThriftTypings
