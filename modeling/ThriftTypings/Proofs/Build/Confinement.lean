import ThriftTypings.Proofs.Build.Access
import ThriftTypings.Proofs.Build.Closure
import ThriftTypings.Proofs.Build.Imports

/-
  This file proves that a build keeps to its roots, whatever
  its inputs and includes spell and whatever the schedule.

  A task asks for its source only below the source root. It
  makes and writes what mirrors that source below the output
  root: the same directories, and a name of its own. Paths
  are compared by what they spell, without a look at links.

  Key definitions include:
    * `Roots.Mirrors`
    * `BuildState.Aims`

  Key theorems include:
    * `BuildState.Confined.turn`
    * `BuildRequest.stays_within_its_roots`
-/

namespace ThriftTypings

variable {point : Point}

-- Mirrored Paths

namespace Roots

variable {roots : Roots} {file : Path}

/-
  A path mirrors a source if it lies strictly below the
  output root, without steps to the same directory or up, in
  the directory that the source has below its own root, and
  has the name of a module.
-/
structure Mirrors
    (roots : Roots)
    (file path : Path) : Prop where
  below : roots.output.segments <+: path.segments
  strictly : path.segments ≠ roots.output.segments
  undotted : ∀ segment ∈ path.segments,
    segment ≠ Path.here ∧ segment ≠ Path.above
  directory : ∃ directories,
    file.parent.segments =
        roots.source.segments ++ directories ∧
      path.parent.segments =
        roots.output.segments ++ directories
  extension : Path.outputExtension <:+ path.name
  slashes : path.slashes = roots.output.slashes

/- A module goes where it mirrors its source. -/
theorem mirrors_target
    (hOutput : roots.output.IsCanonical)
    (hFile : file.IsCanonical)
    (hHolds : roots.Holds file) :
    roots.Mirrors file (roots.target file) := by
  rcases hHolds with ⟨below, hBelow, hSegments⟩
  have hRelative : Path.relativeTo roots.source file =
      .ok (Text.joined ['/'] below) := by
    simp [Path.relativeTo,
      Path.below?_eq_some_iff.mpr ⟨hBelow, hSegments⟩]
  rcases Path.exists_liesIn hFile hRelative with
    ⟨directories, name, hLies⟩
  have hTarget : roots.target file =
      { roots.output with
        segments :=
          roots.output.segments ++
            (directories ++ [Path.moduleName name]) } := by
    rw [target, hSegments, List.drop_left]
    exact hLies.output_eq roots.output
  have hName : Path.IsName (Path.moduleName name) :=
    Path.isName_moduleName (hLies.named name (by simp))
  rw [hTarget]
  refine ⟨List.prefix_append _ _, by simp, ?_,
    ⟨directories, hLies.parent_segments, ?_⟩, ?_, rfl⟩
  · intro segment hMem
    have hSegment : Path.IsName segment := by
      rcases List.mem_append.mp hMem with hRoot | hInside
      · exact hOutput.names segment hRoot
      · rcases List.mem_append.mp hInside with hWay | hLast
        · exact hLies.named segment (by simp [hWay])
        · rw [List.mem_singleton.mp hLast]
          exact hName
    exact ⟨hSegment.notHere, hSegment.notAbove⟩
  · rw [Path.parent, ← List.append_assoc,
      List.dropLast_concat]
  · simp [Path.name, Path.moduleName]

end Roots

-- What Tasks Aim At

namespace BuildState

variable {roots : Roots} {workers : Int}
variable {state after : BuildState} {file : Path}
variable {log more : List Access}

/-
  What a running task is about to make, write or record
  belongs to the source that it has read.
-/
def Aims
    (roots : Roots)
    (log : List Access)
    (file : Path) : Point → Prop
  | .making prepared =>
      .reads file ∈ log ∧
        prepared.target = roots.target file
  | .writing prepared =>
      .reads file ∈ log ∧
        prepared.target = roots.target file
  | .recording target _ =>
      ∃ content, .writes target content ∈ log
  | _ => True

/- The accesses that a build may make, by what it read. -/
inductive Allowed
    (roots : Roots)
    (log : List Access) : Access → Prop where
  | clears : Allowed roots log (.clears roots.output)
  | reads
      {file : Path}
      (canonical : file.IsCanonical)
      (holds : roots.Holds file) :
      Allowed roots log (.reads file)
  | makes
      {file : Path}
      (read : .reads file ∈ log) :
      Allowed roots log (.makes (roots.target file).parent)
  | writes
      {file : Path} {content : List UInt8}
      (read : .reads file ∈ log) :
      Allowed roots log
        (.writes (roots.target file) content)

theorem Aims.mono
    (h : Aims roots log file point) :
    Aims roots (log ++ more) file point := by
  cases point with
  | making prepared =>
      exact ⟨List.mem_append_left _ h.1, h.2⟩
  | writing prepared =>
      exact ⟨List.mem_append_left _ h.1, h.2⟩
  | recording target includes =>
      rcases h with ⟨content, hWritten⟩
      exact ⟨content, List.mem_append_left _ hWritten⟩
  | _ => trivial

theorem Allowed.mono
    {access : Access}
    (h : Allowed roots log access) :
    Allowed roots (log ++ more) access := by
  cases h with
  | clears => exact .clears
  | reads hCanonical hHolds => exact .reads hCanonical hHolds
  | makes hRead => exact .makes (List.mem_append_left _ hRead)
  | writes hRead =>
      exact .writes (List.mem_append_left _ hRead)

/- What a running task asks for is allowed. -/
theorem allowed_accesses
    {access : Access}
    (hFile : file.IsCanonical)
    (h : Aims roots log file point)
    (hMem : access ∈ point.accesses roots file) :
    Allowed roots log access := by
  cases point with
  | preparing =>
      simp only [Point.accesses] at hMem
      split at hMem
      · next hBelow =>
          rcases Option.isSome_iff_exists.mp hBelow with
            ⟨below, hSome⟩
          rw [List.mem_singleton.mp hMem]
          exact .reads hFile
            ⟨below, Path.below?_eq_some_iff.mp hSome⟩
      · cases hMem
  | making prepared =>
      rw [List.mem_singleton.mp hMem, h.2]
      exact .makes h.1
  | writing prepared =>
      rw [List.mem_singleton.mp hMem, h.2]
      exact .writes h.1
  | entering => cases hMem
  | admitting => cases hMem
  | recording target includes => cases hMem
  | submitting includes => cases hMem
  | reporting fault => cases hMem
  | releasing => cases hMem

/- A running task aims at its own module all along. -/
theorem aims_advance
    {point next : Point}
    (h : Aims roots log file point)
    (hNext : (state.advance roots file point).2 =
      .running next) :
    Aims roots (log ++ point.accesses roots file) file
      next := by
  cases point with
  | entering =>
      simp only [advance] at hNext
      split at hNext
      · cases hNext
        trivial
      · cases hNext
        trivial
  | admitting =>
      simp only [advance] at hNext
      split at hNext
      · cases hNext
        trivial
      · cases hNext
        trivial
  | preparing =>
      simp only [advance] at hNext
      split at hNext
      · cases hNext
        trivial
      · next prepared hPrepared =>
          cases hNext
          rcases Roots.prepare_eq_ok_iff.mp hPrepared with
            ⟨below, _, _, hBelow, hSegments, _, _, hFound⟩
          have hSome := Path.below?_eq_some_iff.mpr
            ⟨hBelow, hSegments⟩
          constructor
          · simp [Point.accesses, hSome]
          · rw [hFound]
  | making prepared =>
      simp only [advance] at hNext
      split at hNext
      · cases hNext
        exact h.mono
      · cases hNext
        trivial
  | writing prepared =>
      simp only [advance] at hNext
      split at hNext
      · cases hNext
        exact ⟨_, List.mem_append_right _
          (List.mem_singleton_self _)⟩
      · cases hNext
        trivial
  | recording target includes =>
      cases hNext
      trivial
  | submitting includes =>
      cases includes <;>
      · cases hNext
        trivial
  | reporting fault =>
      cases hNext
      trivial
  | releasing => cases hNext

/- A running task records only what it has written. -/
theorem mem_advance_written
    {path : Path}
    (h : Aims roots log file point)
    (hMem : path ∈
      (state.advance roots file point).1.written) :
    path ∈ state.written ∨
      ∃ content, .writes path content ∈ log := by
  cases point with
  | recording target includes =>
      simp only [advance, List.mem_append,
        List.mem_singleton] at hMem
      rcases hMem with hOld | hNew
      · exact .inl hOld
      · rw [hNew]
        exact .inr h
  | entering =>
      simp only [advance] at hMem
      split at hMem <;> exact .inl hMem
  | admitting =>
      simp only [advance] at hMem
      split at hMem <;> exact .inl hMem
  | preparing =>
      simp only [advance] at hMem
      split at hMem <;> exact .inl hMem
  | making prepared =>
      simp only [advance] at hMem
      split at hMem <;> exact .inl hMem
  | writing prepared =>
      simp only [advance] at hMem
      split at hMem <;> exact .inl hMem
  | submitting includes =>
      cases includes with
      | nil => exact .inl hMem
      | cons include_ more =>
          rw [advance, submit_written] at hMem
          exact .inl hMem
  | reporting fault => exact .inl hMem
  | releasing =>
      rw [advance, release_written] at hMem
      exact .inl hMem

-- Confined Runs

/-
  All that was asked is allowed, and so will be what comes:
  the sources are canonical, and tasks aim at their modules.
-/
structure Confined
    (roots : Roots)
    (log : List Access)
    (state : BuildState) : Prop where
  inputs : ∀ files, state.lead = .submitting files →
    ∀ file ∈ files, file.IsCanonical
  tasks : ∀ task ∈ state.tasks, task.file.IsCanonical
  points : ∀ file point,
    ⟨file, .running point⟩ ∈ state.tasks →
      Aims roots log file point
  asked : ∀ access ∈ log, Allowed roots log access
  written : ∀ path ∈ state.written,
    ∃ content, .writes path content ∈ log

namespace Confined

theorem start
    (tree : FileTree)
    {files : List Path}
    (hFiles : ∀ file ∈ files, file.IsCanonical) :
    Confined roots [.clears roots.output]
      (start tree files) where
  inputs := by
    intro more hLead
    cases hLead
    exact hFiles
  tasks := by simp [BuildState.start]
  points := by simp [BuildState.start]
  asked := by
    intro access hMem
    rw [List.mem_singleton.mp hMem]
    exact .clears
  written := by simp [BuildState.start]

/- A state with new tasks that aim where they may. -/
theorem goesOn
    (h : Confined roots log state)
    (hMore : ∀ access ∈ more, Allowed roots log access)
    (hInputs : ∀ files, after.lead = .submitting files →
      ∀ file ∈ files, file.IsCanonical)
    (hTasks : ∀ task ∈ after.tasks, task ∈ state.tasks ∨
      task.file.IsCanonical ∧
        ∀ point, task.stage = .running point →
          Aims roots (log ++ more) task.file point)
    (hWritten : ∀ path ∈ after.written,
      path ∈ state.written ∨
        ∃ content, .writes path content ∈ log) :
    Confined roots (log ++ more) after where
  inputs := hInputs
  tasks := by
    intro task hMem
    rcases hTasks task hMem with hOld | hNew
    · exact h.tasks task hOld
    · exact hNew.1
  points := by
    intro file point hMem
    rcases hTasks _ hMem with hOld | hNew
    · exact (h.points file point hOld).mono
    · exact hNew.2 point rfl
  asked := by
    intro access hMem
    rcases List.mem_append.mp hMem with hOld | hNew
    · exact (h.asked access hOld).mono
    · exact (hMore access hNew).mono
  written := by
    intro path hMem
    have hLogged : ∃ content, .writes path content ∈ log := by
      rcases hWritten path hMem with hOld | hNew
      · exact h.written path hOld
      · exact hNew
    rcases hLogged with ⟨content, hContent⟩
    exact ⟨content, List.mem_append_left _ hContent⟩

/- The turn of a running task keeps a run confined. -/
theorem taskRuns
    {index : Nat}
    (h : Confined roots log state)
    (hTask :
      state.tasks[index]? = some ⟨file, .running point⟩) :
    Confined roots (log ++ point.accesses roots file)
      ((state.advance roots file point).1.settle index file
        (state.advance roots file point).2) := by
  have hMem := List.mem_of_getElem? hTask
  have hFile := h.tasks _ hMem
  have hAims := h.points _ _ hMem
  apply h.goesOn
  · intro access hAccess
    exact allowed_accesses hFile hAims hAccess
  · intro files hLead
    apply h.inputs
    rw [← advance_lead roots state file point]
    exact hLead
  · intro task hAfter
    rcases mem_settle_tasks hAfter with hOther | hHere
    · rcases mem_advance_tasks hOther with
        hOld | ⟨include_, _, _, hNew⟩
      · exact .inl hOld
      · rw [hNew]
        refine .inr ⟨hFile.included include_, ?_⟩
        intro next hStage
        cases hStage
    · rw [hHere]
      refine .inr ⟨hFile, ?_⟩
      intro next hStage
      exact aims_advance hAims hStage
  · intro path hPath
    exact mem_advance_written hAims hPath

/- Every turn keeps a run confined. -/
theorem turn
    {actor : Actor}
    (h : Confined roots log state)
    (hTurn : Turn roots workers state actor after) :
    Confined roots (log ++ state.accesses roots actor)
      after := by
  have hNothing : ∀ access ∈ ([] : List Access),
      Allowed roots log access := by
    intro access hMem
    cases hMem
  cases hTurn with
  | @leadSubmits file more hLead =>
      have hInputs := h.inputs _ hLead
      apply h.goesOn hNothing
      · intro files hAfter
        cases hAfter
        intro other hOther
        exact hInputs other (List.mem_cons_of_mem _ hOther)
      · intro task hTask
        rcases mem_submit_tasks hTask with hOld | hNew
        · exact .inl hOld
        · rw [hNew]
          refine .inr ⟨hInputs file List.mem_cons_self, ?_⟩
          intro point hStage
          cases hStage
      · intro path hPath
        rw [submit_written] at hPath
        exact .inl hPath
  | leadCloses _ =>
      apply h.goesOn hNothing
      · intro files hAfter
        cases hAfter
      · exact fun _ hTask => .inl hTask
      · exact fun _ hPath => .inl hPath
  | leadReleases _ =>
      apply h.goesOn hNothing
      · intro files hAfter
        cases hAfter
      · intro task hTask
        rw [release_tasks] at hTask
        exact .inl hTask
      · intro path hPath
        rw [release_written] at hPath
        exact .inl hPath
  | leadTakes _ _ =>
      apply h.goesOn hNothing
      · intro files hAfter
        cases hAfter
      · exact fun _ hTask => .inl hTask
      · exact fun _ hPath => .inl hPath
  | leadAborts _ =>
      apply h.goesOn hNothing
      · intro files hAfter
        cases hAfter
      · exact fun _ hTask => .inl hTask
      · exact fun _ hPath => .inl hPath
  | leadCancels _ =>
      apply h.goesOn hNothing
      · intro files hAfter
        cases hAfter
      · intro task hTask
        rcases mem_cancelled_tasks hTask with
          hOld | ⟨hQueued, hStage⟩
        · exact .inl hOld
        · have hFile := h.tasks _ hQueued
          refine .inr ⟨hFile, ?_⟩
          intro point hPoint
          rw [hStage] at hPoint
          cases hPoint
      · exact fun _ hPath => .inl hPath
  | leadJoins _ _ =>
      apply h.goesOn hNothing
      · intro files hAfter
        cases hAfter
      · exact fun _ hTask => .inl hTask
      · exact fun _ hPath => .inl hPath
  | @taskStarts index file hTask _ =>
      have hFile := h.tasks _ (List.mem_of_getElem? hTask)
      have hAsks : state.accesses roots (.task index) = [] := by
        simp [accesses, hTask]
      rw [hAsks]
      apply h.goesOn hNothing
      · exact h.inputs
      · intro task hAfter
        rcases mem_settle_tasks hAfter with hOld | hNew
        · exact .inl hOld
        · rw [hNew]
          refine .inr ⟨hFile, ?_⟩
          intro point hStage
          cases hStage
          trivial
      · exact fun _ hPath => .inl hPath
  | @taskRuns index file point hTask =>
      have hAsks : state.accesses roots (.task index) =
          point.accesses roots file := by
        simp [accesses, hTask]
      rw [hAsks]
      exact h.taskRuns hTask

end Confined

/- What a build gives in the end was recorded. -/
theorem mem_written_of_outcome?
    {paths : List Path}
    {path : Path}
    (h : state.outcome? = some (.ok paths))
    (hMem : path ∈ paths) :
    path ∈ state.written := by
  unfold outcome? at h
  split at h
  · cases h
    exact List.mem_mergeSort.mp hMem
  · cases h
  · cases h

end BuildState

-- Whole Builds

/-
  What is allowed by what was read mirrors it, or is the
  reading of a source below its root.
-/
theorem mirrors_of_allowed
    {roots : Roots}
    {log : List Access}
    (hOutput : roots.output.IsCanonical)
    (h : ∀ access ∈ log,
      BuildState.Allowed roots log access) :
    (∀ path content, .writes path content ∈ log →
      ∃ file, .reads file ∈ log ∧
        roots.Mirrors file path) ∧
    (∀ path, .makes path ∈ log →
      ∃ file target, .reads file ∈ log ∧
        roots.Mirrors file target ∧ path = target.parent) ∧
    (∀ path, .clears path ∈ log → path = roots.output) ∧
    ∀ path, .reads path ∈ log → roots.Holds path := by
  have hMirrors (file : Path)
      (hRead : .reads file ∈ log) :
      roots.Mirrors file (roots.target file) := by
    cases h _ hRead with
    | reads hFile hHolds =>
        exact Roots.mirrors_target hOutput hFile hHolds
  refine ⟨?_, ?_, ?_, ?_⟩
  · intro path content hMem
    cases h _ hMem with
    | writes hRead => exact ⟨_, hRead, hMirrors _ hRead⟩
  · intro path hMem
    cases h _ hMem with
    | makes hRead => exact ⟨_, _, hRead, hMirrors _ hRead, rfl⟩
  · intro path hMem
    cases h _ hMem with
    | clears => rfl
  · intro path hMem
    cases h _ hMem with
    | reads _ hHolds => exact hHolds

/- The run of a build is confined to its roots. -/
theorem confined_along
    {roots : Roots}
    (hSource : roots.source.IsCanonical)
    (request : BuildRequest)
    (tree : FileTree)
    (workers : Int)
    (schedule : List Actor) :
    BuildState.Confined roots
      (.clears roots.output ::
        (request.machine roots tree).log roots workers
          schedule)
      ((request.machine roots tree).along roots workers
        schedule) := by
  have hFiles : ∀ file ∈
      request.inputs.map (Path.resolve roots.source),
        file.IsCanonical := by
    intro file hMem
    rcases List.mem_map.mp hMem with ⟨input, _, hInput⟩
    rw [← hInput]
    exact hSource.resolve input
  exact BuildState.log_keeps schedule
    (BuildState.Confined.start tree hFiles)
    (fun _ _ _ _ hBefore hTurn => hBefore.turn hTurn)

/-
  Whole builds ask for what they may, and give no path that
  they did not write.
-/
theorem allowed_of_accessLog
    {surroundings : Surroundings}
    {request : BuildRequest}
    (hSource : (request.roots
      surroundings.directory).source.IsCanonical)
    (tree : FileTree)
    (schedule : List Actor) :
    (∀ access ∈
        accessLog schedule surroundings request tree,
      BuildState.Allowed
        (request.roots surroundings.directory)
        (accessLog schedule surroundings request tree)
        access) ∧
    ∀ paths,
      (buildAlong schedule surroundings request
          tree).outcome = some (.ok paths) →
        ∀ path ∈ paths, ∃ content,
          .writes path content ∈
            accessLog schedule surroundings request tree := by
  unfold accessLog buildAlong
  dsimp only
  cases workerCount request.workers surroundings.setting
      surroundings.processors with
  | error fault => simp [Build.refused]
  | ok workers =>
      dsimp only
      by_cases hGuard : (request.roots
          surroundings.directory).outputHoldsSource = true
      · rw [removeOutput_of_guard hGuard]
        simp [hGuard, Build.refused]
      · rw [if_neg hGuard]
        cases removeOutput
            (request.roots surroundings.directory) tree with
        | error fault =>
            simp [Build.refused, BuildState.Allowed.clears]
        | ok removed =>
            have hConfined := confined_along hSource request
              removed workers schedule
            refine ⟨hConfined.asked, ?_⟩
            intro paths hPaths path hMem
            apply hConfined.written
            exact BuildState.mem_written_of_outcome? hPaths hMem

/-
  The log of a build is all that it asks of the tree: the
  tree after the build follows from it, and in another tree
  that answers it alike the build goes the same way.

  What is written mirrors a source that was read, below the
  output root, and directories are made only for that. The
  output root is all that is cleared, sources are read only
  below the source root, and what the build gives in the end
  was written.
-/
theorem BuildRequest.stays_within_its_roots
    (request : BuildRequest)
    (surroundings : Surroundings)
    (hSource : (request.roots
      surroundings.directory).source.IsCanonical)
    (hOutput : (request.roots
      surroundings.directory).output.IsCanonical)
    (tree : FileTree)
    (schedule : List Actor) :
    let roots := request.roots surroundings.directory
    let build := buildAlong schedule surroundings request
    let log := accessLog schedule surroundings request tree
    ((build tree).tree = Access.replay log tree ∧
      ∀ other,
        Access.answers log other = Access.answers log tree →
          (build other).outcome = (build tree).outcome ∧
            (build other).tree = Access.replay log other) ∧
    (∀ path content, .writes path content ∈ log →
      ∃ file, .reads file ∈ log ∧
        roots.Mirrors file path) ∧
    (∀ path, .makes path ∈ log →
      ∃ file target, .reads file ∈ log ∧
        roots.Mirrors file target ∧ path = target.parent) ∧
    (∀ path, .clears path ∈ log → path = roots.output) ∧
    (∀ path, .reads path ∈ log → roots.Holds path) ∧
    ∀ paths, (build tree).outcome = some (.ok paths) →
      ∀ path ∈ paths, ∃ content,
        .writes path content ∈ log := by
  intro roots build log
  rcases allowed_of_accessLog hSource tree schedule with
    ⟨hAllowed, hGiven⟩
  rcases mirrors_of_allowed hOutput hAllowed with
    ⟨hWrites, hMakes, hClears, hReads⟩
  refine ⟨⟨buildAlong_tree _ _ _ _, ?_⟩, hWrites, hMakes,
    hClears, hReads, hGiven⟩
  intro other hAnswers
  exact buildAlong_of_answers hAnswers

-- Inputs That Lead Away

namespace Escaping

/- One source below s, and another one beside it. -/
def tree : FileTree where
  entries :=
    [([['s']], .directory),
     ([['s'], ['a']], .file []),
     ([['t']], .file [])]

def surroundings : Surroundings where
  directory := ⟨1, []⟩
  setting := none
  processors := none

/- One input winds its way, and one leaves the root. -/
def request : BuildRequest where
  inputs := ["d/../a".toList, "../t".toList]
  source := ['s']
  output := ['o']
  workers := some 2

/- Both inputs are submitted, and taken up together. -/
def schedule : List Actor :=
  [.lead, .lead, .task 0, .task 1, .task 0, .task 1,
    .task 0, .task 1, .task 1, .task 0]

/- The input that leaves the root is not read. -/
theorem accessLog_eq :
    accessLog schedule surroundings request tree =
      [.clears ⟨1, [['o']]⟩,
       .reads ⟨1, [['s'], ['a']]⟩] := by
  cbv

end Escaping

/- Of two inputs only the one below the root is read. -/
theorem BuildRequest.stays_within_escaped_roots :
    Access.reads ⟨1, [['s'], ['a']]⟩ ∈
        accessLog Escaping.schedule Escaping.surroundings
          Escaping.request Escaping.tree ∧
      (Escaping.request.roots
        Escaping.surroundings.directory).Holds
          ⟨1, [['s'], ['a']]⟩ := by
  have hRead : Access.reads ⟨1, [['s'], ['a']]⟩ ∈
      accessLog Escaping.schedule Escaping.surroundings
        Escaping.request Escaping.tree := by
    rw [Escaping.accessLog_eq]
    simp
  have hWithin := stays_within_its_roots Escaping.request
    Escaping.surroundings (by decide) (by decide)
    Escaping.tree Escaping.schedule
  exact ⟨hRead, hWithin.2.2.2.2.1 _ hRead⟩

end ThriftTypings
