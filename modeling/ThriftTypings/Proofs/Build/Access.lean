import ThriftTypings.Proofs.Build.Guard

/-
  This file tells a build as a conversation with its file
  tree: it clears a path, reads files, makes directories and
  writes files, and each of these is answered.

  Actors take turns along a schedule. The log of a run holds
  what it asked of the tree, and nothing else about the tree
  matters to it: where the log gets the same answers, the
  run goes the same way.

  Key definitions include:
    * `Access` and `Access.perform`
    * `Access.answers` and `Access.replay`

  Key theorems include:
    * `buildAlong_of_answers`
    * `exists_schedule_of_compile`
-/

namespace ThriftTypings

-- Accesses

/- What a build asks of its file tree. -/
inductive Access where
  | clears (path : Path)
  | reads (path : Path)
  | makes (path : Path)
  | writes (path : Path) (content : List UInt8)
  deriving DecidableEq, Repr

namespace Access

/- The answer to an access in a tree, and the tree after. -/
def perform
    (tree : FileTree) :
    Access → Except FileFault (List UInt8) × FileTree
  | .clears path =>
      if tree.isThere path then
        match tree.removeTree path with
        | .ok removed => (.ok [], removed)
        | .error fault => (.error fault, tree)
      else
        (.ok [], tree)
  | .reads path => (tree.read path, tree)
  | .makes path =>
      match tree.makeDirectories path with
      | (.ok (), made) => (.ok [], made)
      | (.error fault, made) => (.error fault, made)
  | .writes path content =>
      match tree.write path content with
      | .ok written => (.ok [], written)
      | .error fault => (.error fault, tree)

/- Clearing that fails leaves the tree as it is. -/
theorem perform_clears_of_error
    {tree left : FileTree}
    {path : Path}
    {fault : FileFault}
    (h : (Access.clears path).perform tree =
      (.error fault, left)) :
    left = tree := by
  simp only [perform] at h
  split at h
  · split at h
    · cases h
    · cases h
      rfl
  · cases h

/- The answers to accesses, one after the other. -/
def answers :
    List Access → FileTree →
      List (Except FileFault (List UInt8))
  | [], _ => []
  | access :: more, tree =>
      (access.perform tree).1 ::
        answers more (access.perform tree).2

/- The tree after accesses, one after the other. -/
def replay : List Access → FileTree → FileTree
  | [], tree => tree
  | access :: more, tree =>
      replay more (access.perform tree).2

theorem answers_append
    (first second : List Access)
    (tree : FileTree) :
    answers (first ++ second) tree =
      answers first tree ++
        answers second (replay first tree) := by
  induction first generalizing tree with
  | nil => rfl
  | cons access more ih =>
      rw [List.cons_append, answers, answers, ih, replay,
        List.cons_append]

theorem replay_append
    (first second : List Access)
    (tree : FileTree) :
    replay (first ++ second) tree =
      replay second (replay first tree) := by
  induction first generalizing tree with
  | nil => rfl
  | cons access more ih =>
      rw [List.cons_append, replay, ih, replay]

@[simp] theorem length_answers
    (accesses : List Access)
    (tree : FileTree) :
    (answers accesses tree).length = accesses.length := by
  induction accesses generalizing tree with
  | nil => rfl
  | cons access more ih =>
      rw [answers, List.length_cons, ih, List.length_cons]

/- The same answers to all are the same to each part. -/
theorem answers_append_inj
    {first second : List Access}
    {tree other : FileTree}
    (h : answers (first ++ second) other =
      answers (first ++ second) tree) :
    answers first other = answers first tree ∧
      answers second (replay first other) =
        answers second (replay first tree) := by
  rw [answers_append, answers_append] at h
  apply List.append_inj h
  rw [length_answers, length_answers]

end Access

-- What a Turn Asks

/-
  What a running task asks when it goes on from a point. It
  does not read a file that is not below the source root.
-/
def Point.accesses
    (roots : Roots)
    (file : Path) : Point → List Access
  | .preparing =>
      if (Path.below? roots.source file).isSome then
        [.reads file]
      else
        []
  | .making prepared => [.makes prepared.target.parent]
  | .writing prepared =>
      [.writes prepared.target
        (Utf8.encode prepared.rendering.text)]
  | _ => []

namespace BuildState

variable {roots : Roots} {workers : Int}
variable {state after : BuildState} {file : Path}

/- What an actor asks in its turn. -/
def accesses
    (roots : Roots)
    (state : BuildState) : Actor → List Access
  | .lead => []
  | .task index =>
      match state.tasks[index]? with
      | some ⟨file, .running point⟩ =>
          point.accesses roots file
      | _ => []

/- The state with another tree. -/
def onTree
    (state : BuildState)
    (tree : FileTree) : BuildState :=
  { state with tree := tree }

theorem onTree_tree
    (state : BuildState) :
    state.onTree state.tree = state :=
  rfl

theorem submit_onTree
    (state : BuildState)
    (tree : FileTree)
    (file : Path) :
    (state.onTree tree).submit file =
      (state.submit file).onTree tree := by
  unfold submit onTree
  dsimp only
  split <;> rfl

theorem release_onTree
    (state : BuildState)
    (tree : FileTree) :
    (state.onTree tree).release =
      state.release.onTree tree := by
  unfold release onTree post
  dsimp only
  split <;> rfl

/- What is read is all that preparing a source depends on. -/
theorem prepare_of_answers
    {tree other : FileTree}
    (h : Access.answers
        (Point.preparing.accesses roots file) other =
      Access.answers
        (Point.preparing.accesses roots file) tree) :
    roots.prepare other file = roots.prepare tree file := by
  unfold Roots.prepare
  cases hBelow : Path.below? roots.source file with
  | none =>
      simp [Roots.prepareWith, Path.relativeTo, hBelow]
  | some below =>
      have hRead : other.read file = tree.read file := by
        simpa [Point.accesses, hBelow, Access.answers,
          Access.perform] using h
      rw [hRead]

/-
  A running task goes the same way in two trees that answer
  what it asks alike.
-/
theorem advance_onTree
    (state : BuildState)
    (other : FileTree)
    (file : Path)
    (point : Point)
    (h : Access.answers (point.accesses roots file) other =
      Access.answers (point.accesses roots file)
        state.tree) :
    (state.onTree other).advance roots file point =
      ((state.advance roots file point).1.onTree
          (Access.replay (point.accesses roots file) other),
        (state.advance roots file point).2) := by
  cases point with
  | entering =>
      by_cases hAborted : state.aborted = true
      · simp [advance, onTree, hAborted, Point.accesses,
          Access.replay]
      · simp [advance, onTree, hAborted, Point.accesses,
          Access.replay]
  | admitting =>
      by_cases hSeen : file ∈ state.seen
      · simp [advance, onTree, hSeen, Point.accesses,
          Access.replay]
      · simp [advance, onTree, hSeen, Point.accesses,
          Access.replay]
  | preparing =>
      have hReplay : Access.replay
          (Point.preparing.accesses roots file) other =
            other := by
        simp only [Point.accesses]
        split <;> rfl
      have hPrepare := prepare_of_answers h
      rw [hReplay]
      cases hTree : roots.prepare state.tree file with
      | error fault => simp [advance, onTree, hPrepare, hTree]
      | ok prepared =>
          simp [advance, onTree, hPrepare, hTree]
  | making prepared =>
      simp only [Point.accesses, Access.answers,
        Access.perform, List.cons.injEq, and_true] at h
      simp only [advance, onTree, Point.accesses,
        Access.replay, Access.perform]
      rcases hOther : other.makeDirectories
        prepared.target.parent with ⟨answer, made⟩
      rcases hState : state.tree.makeDirectories
        prepared.target.parent with ⟨expected, grown⟩
      rw [hOther, hState] at h
      cases answer <;> cases expected <;> simp_all
  | writing prepared =>
      simp only [Point.accesses, Access.answers,
        Access.perform, List.cons.injEq, and_true] at h
      simp only [advance, onTree, Point.accesses,
        Access.replay, Access.perform]
      cases hOther : other.write prepared.target
        (Utf8.encode prepared.rendering.text) <;>
      cases hState : state.tree.write prepared.target
        (Utf8.encode prepared.rendering.text) <;>
      simp_all
  | recording target includes => rfl
  | submitting includes =>
      cases includes with
      | nil => rfl
      | cons include_ more =>
          simp only [advance, submit_onTree]
          rfl
  | reporting fault => rfl
  | releasing =>
      simp only [advance, release_onTree]
      rfl

/- The same for the turn of any actor. -/
theorem step?_onTree
    (roots : Roots)
    (workers : Int)
    (state : BuildState)
    (other : FileTree)
    (actor : Actor)
    (h : Access.answers (state.accesses roots actor) other =
      Access.answers (state.accesses roots actor)
        state.tree) :
    (state.onTree other).step? roots workers actor =
      (state.step? roots workers actor).map
        (onTree ·
          (Access.replay (state.accesses roots actor)
            other)) := by
  cases actor with
  | lead =>
      simp only [step?, accesses, Access.replay]
      unfold leadStep?
      simp only [submit_onTree, release_onTree]
      unfold onTree
      dsimp only
      split <;> try rfl
      · split <;> rfl
      · split <;> rfl
  | task index =>
      have hTasks : (state.onTree other).tasks[index]? =
          state.tasks[index]? := rfl
      simp only [step?, taskStep?, accesses, hTasks] at h ⊢
      cases hTask : state.tasks[index]? with
      | none => rfl
      | some task =>
          rcases task with ⟨file, stage⟩
          rw [hTask] at h
          cases stage with
          | queued =>
              have hMay : (state.onTree other).mayStart workers
                  index = state.mayStart workers index := rfl
              dsimp only
              rw [hMay]
              split <;> rfl
          | running point =>
              dsimp only
              rw [advance_onTree state other file point h]
              rfl
          | finished => rfl
          | cancelled => rfl

/- The tree after a turn is what was asked of it. -/
theorem tree_of_step?
    {actor : Actor}
    (h : state.step? roots workers actor = some after) :
    after.tree =
      Access.replay (state.accesses roots actor)
        state.tree := by
  have hSame := step?_onTree roots workers state state.tree
    actor rfl
  rw [onTree_tree, h, Option.map_some] at hSame
  exact congrArg BuildState.tree (Option.some.inj hSame)

/- Whoever has no turn asks nothing. -/
theorem accesses_of_no_step
    {actor : Actor}
    (h : state.step? roots workers actor = none) :
    state.accesses roots actor = [] := by
  cases actor with
  | lead => rfl
  | task index =>
      simp only [step?, taskStep?] at h
      unfold accesses
      dsimp only
      rcases hTask : state.tasks[index]? with
        _ | ⟨file, stage⟩
      · rfl
      · cases stage with
        | running point => simp [hTask] at h
        | queued => rfl
        | finished => rfl
        | cancelled => rfl

-- Runs Along a Schedule

/-
  The state after actors have taken turns in a given order.
  An actor that has no turn is passed over.
-/
def along
    (roots : Roots)
    (workers : Int) : List Actor → BuildState → BuildState
  | [], state => state
  | actor :: more, state =>
      along roots workers more
        ((state.step? roots workers actor).getD state)

/- What was asked of the tree meanwhile. -/
def log
    (roots : Roots)
    (workers : Int) : List Actor → BuildState → List Access
  | [], _ => []
  | actor :: more, state =>
      state.accesses roots actor ++
        log roots workers more
          ((state.step? roots workers actor).getD state)

/-
  A run goes the same way in two trees that answer its log
  alike.
-/
theorem along_onTree
    (roots : Roots)
    (workers : Int)
    (schedule : List Actor)
    (state : BuildState)
    (other : FileTree)
    (h : Access.answers (state.log roots workers schedule)
        other =
      Access.answers (state.log roots workers schedule)
        state.tree) :
    (state.onTree other).along roots workers schedule =
      (state.along roots workers schedule).onTree
        (Access.replay (state.log roots workers schedule)
          other) := by
  induction schedule generalizing state other with
  | nil => rfl
  | cons actor more ih =>
      rcases Access.answers_append_inj h with ⟨hNow, hLater⟩
      have hStep := step?_onTree roots workers state other
        actor hNow
      unfold along log
      rw [hStep, Access.replay_append]
      cases hTurn : state.step? roots workers actor with
      | none =>
          rw [hTurn, accesses_of_no_step hTurn] at hLater
          rw [accesses_of_no_step hTurn]
          exact ih state other hLater
      | some after =>
          rw [hTurn, Option.getD_some,
            ← tree_of_step? hTurn] at hLater
          exact ih after _ hLater

/- The tree after a run is what was asked of it. -/
theorem tree_along
    (roots : Roots)
    (workers : Int)
    (schedule : List Actor)
    (state : BuildState) :
    (state.along roots workers schedule).tree =
      Access.replay (state.log roots workers schedule)
        state.tree := by
  have hSame := along_onTree roots workers schedule state
    state.tree rfl
  rw [onTree_tree] at hSame
  exact congrArg BuildState.tree hSame

/-
  What holds of a log and a state at first, and is kept by
  every turn, holds after every run.
-/
theorem log_keeps
    {P : List Access → BuildState → Prop}
    (schedule : List Actor)
    {before : List Access}
    (hStart : P before state)
    (hTurn : ∀ log before after actor,
      P log before → Turn roots workers before actor after →
        P (log ++ before.accesses roots actor) after) :
    P (before ++ state.log roots workers schedule)
      (state.along roots workers schedule) := by
  induction schedule generalizing before state with
  | nil =>
      rw [log, List.append_nil]
      exact hStart
  | cons actor more ih =>
      unfold along log
      cases hStep : state.step? roots workers actor with
      | none =>
          rw [accesses_of_no_step hStep]
          exact ih hStart
      | some after =>
          rw [← List.append_assoc]
          exact ih (hTurn _ _ _ _ hStart (turn_of_step? hStep))

theorem along_append
    (roots : Roots)
    (workers : Int)
    (first second : List Actor)
    (state : BuildState) :
    state.along roots workers (first ++ second) =
      (state.along roots workers first).along roots workers
        second := by
  induction first generalizing state with
  | nil => rfl
  | cons actor more ih =>
      rw [List.cons_append, along, ih, along]

/- Every run has a schedule. -/
theorem Reaches.exists_along
    {first : BuildState}
    (h : Reaches roots workers first state) :
    ∃ schedule,
      first.along roots workers schedule = state := by
  induction h with
  | refl => exact ⟨[], rfl⟩
  | step _ hStep ih =>
      rcases ih with ⟨schedule, hSchedule⟩
      rcases hStep with ⟨actor, hActor⟩
      refine ⟨schedule ++ [actor], ?_⟩
      rw [along_append, hSchedule, along, hActor]
      rfl

end BuildState

-- Whole Builds

/- A whole build, with turns in a given order. -/
def buildAlong
    (schedule : List Actor)
    (surroundings : Surroundings)
    (request : BuildRequest)
    (tree : FileTree) : Build :=
  let roots := request.roots surroundings.directory
  match
    workerCount request.workers surroundings.setting
      surroundings.processors
  with
  | .error fault => .refused fault tree
  | .ok workers =>
      match removeOutput roots tree with
      | .error fault => .refused fault tree
      | .ok removed =>
          .ofState removed
            ((request.machine roots removed).along roots
              workers schedule)

/- What a whole build asks of the tree. -/
def accessLog
    (schedule : List Actor)
    (surroundings : Surroundings)
    (request : BuildRequest)
    (tree : FileTree) : List Access :=
  let roots := request.roots surroundings.directory
  match
    workerCount request.workers surroundings.setting
      surroundings.processors
  with
  | .error _ => []
  | .ok workers =>
      if roots.outputHoldsSource then []
      else
        .clears roots.output ::
          match removeOutput roots tree with
          | .error _ => []
          | .ok removed =>
              (request.machine roots removed).log roots
                workers schedule

section Whole

variable {schedule : List Actor}
variable {surroundings : Surroundings}
variable {request : BuildRequest} {tree other : FileTree}

theorem BuildRequest.machine_onTree
    (request : BuildRequest)
    (roots : Roots)
    (tree other : FileTree) :
    (request.machine roots tree).onTree other =
      request.machine roots other :=
  rfl

/- Past the guard, removing is clearing the output root. -/
theorem removeOutput_eq
    {roots : Roots}
    (hGuard : roots.outputHoldsSource = false)
    (tree : FileTree) :
    removeOutput roots tree =
      match (Access.clears roots.output).perform tree with
      | (.ok _, removed) => .ok removed
      | (.error fault, _) =>
          .error (.unremovable roots.output.text fault) := by
  simp only [removeOutput, hGuard, Bool.false_eq_true,
    if_false, Access.perform]
  split
  · cases tree.removeTree roots.output <;> rfl
  · rfl

/-
  A build goes the same way in two trees that answer its log
  alike.
-/
theorem buildAlong_of_answers
    (h : Access.answers
        (accessLog schedule surroundings request tree)
        other =
      Access.answers
        (accessLog schedule surroundings request tree)
        tree) :
    (buildAlong schedule surroundings request other).outcome =
        (buildAlong schedule surroundings request
          tree).outcome ∧
      (buildAlong schedule surroundings request other).tree =
        Access.replay
          (accessLog schedule surroundings request tree)
          other := by
  unfold accessLog at h
  unfold buildAlong accessLog
  dsimp only at h ⊢
  cases hCount : workerCount request.workers
      surroundings.setting surroundings.processors with
  | error fault => exact ⟨rfl, rfl⟩
  | ok workers =>
      rw [hCount] at h
      dsimp only at h ⊢
      by_cases hGuard : (request.roots
          surroundings.directory).outputHoldsSource = true
      · rw [if_pos hGuard, removeOutput_of_guard hGuard,
          removeOutput_of_guard hGuard]
        exact ⟨rfl, rfl⟩
      · rw [if_neg hGuard] at h ⊢
        have hOpen := Bool.eq_false_iff.mpr hGuard
        rw [removeOutput_eq hOpen tree] at h ⊢
        rw [removeOutput_eq hOpen other]
        simp only [Access.answers, List.cons.injEq] at h
        simp only [Access.replay]
        rcases h with ⟨hClears, hRun⟩
        rcases hTree : (Access.clears
          (request.roots surroundings.directory).output).perform
            tree with ⟨answer, removed⟩
        rcases hOther : (Access.clears
          (request.roots surroundings.directory).output).perform
            other with ⟨again, left⟩
        rw [hTree] at hClears hRun
        rw [hOther] at hClears hRun
        cases hClears
        cases answer with
        | error fault =>
            rw [Access.perform_clears_of_error hOther]
            exact ⟨rfl, rfl⟩
        | ok _ =>
            have hSame := BuildState.along_onTree
              (request.roots surroundings.directory) workers
              schedule (request.machine
                (request.roots surroundings.directory) removed)
              left hRun
            dsimp only
            rw [← BuildRequest.machine_onTree, hSame]
            exact ⟨rfl, rfl⟩

/- What a whole build asks decides what it leaves. -/
theorem buildAlong_tree
    (schedule : List Actor)
    (surroundings : Surroundings)
    (request : BuildRequest)
    (tree : FileTree) :
    (buildAlong schedule surroundings request tree).tree =
      Access.replay
        (accessLog schedule surroundings request tree)
        tree :=
  (buildAlong_of_answers rfl).2

/- A build in order is one along a schedule. -/
theorem exists_schedule_of_compile
    (surroundings : Surroundings)
    (request : BuildRequest)
    (tree : FileTree) :
    ∃ schedule,
      compile surroundings request tree =
        buildAlong schedule surroundings request tree := by
  unfold compile buildAlong
  dsimp only
  cases workerCount request.workers surroundings.setting
      surroundings.processors with
  | error fault => exact ⟨[], rfl⟩
  | ok workers =>
      dsimp only
      cases removeOutput
          (request.roots surroundings.directory) tree with
      | error fault => exact ⟨[], rfl⟩
      | ok removed =>
          rcases (BuildState.reaches_runInOrder
            (request.roots surroundings.directory) workers
            (request.machine
              (request.roots surroundings.directory)
              removed)).1.exists_along with
            ⟨schedule, hSchedule⟩
          refine ⟨schedule, ?_⟩
          dsimp only
          rw [hSchedule]

end Whole

end ThriftTypings
