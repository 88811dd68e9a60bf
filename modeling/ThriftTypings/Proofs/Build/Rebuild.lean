import ThriftTypings.Proofs.Build.Frame
import ThriftTypings.Proofs.Build.Mirror
import ThriftTypings.Workspace

/-
  This file proves that a build does not depend on what was
  in its output root, nor on the builds before it.

  Two trees that agree outside the output root are the same
  once it is cleared, so the build goes the same way in
  both. Builds before it can have left directories above the
  output root. If the build succeeds, or if there was no
  directory to make above, they do not matter either.

  Key definitions include:
    * `rebuilt`
    * `Leaves`

  Key theorems include:
    * `BuildRequest.Starts.rebuilt`
    * `BuildRequest.touches_only_its_output`
-/

namespace ThriftTypings

open FileTree

variable {more : List Text}

-- What Calm Runs Are Granted

namespace BuildState

variable {roots : Roots} {workers : Int}
variable {state after : BuildState} {file : Path}

/- What went well in the end went well from the start. -/
theorem Calm.of_along
    (schedule : List Actor)
    (h : Calm (state.along roots workers schedule)) :
    Calm state := by
  induction schedule generalizing state with
  | nil => exact h
  | cons actor more ih =>
      have hNext := ih h
      cases hStep : state.step? roots workers actor with
      | none =>
          rw [hStep] at hNext
          exact hNext
      | some after =>
          rw [hStep] at hNext
          exact hNext.of_turn (turn_of_step? hStep)

/- A task that goes on in a calm run was granted all. -/
theorem granted_of_advance
    {index : Nat}
    {point : Point}
    (hTask :
      state.tasks[index]? = some ⟨file, .running point⟩)
    (h : Calm
      ((state.advance roots file point).1.settle index file
        (state.advance roots file point).2)) :
    ∀ answer ∈ Access.answers (point.accesses roots file)
        state.tree,
      ∃ content, answer = .ok content := by
  intro answer hMem
  cases point with
  | preparing =>
      cases hPrepare : roots.prepare state.tree file with
      | error fault =>
          simp only [advance, hPrepare] at h
          exact absurd h (Covered.not_reporting hTask)
      | ok prepared =>
          rcases Roots.prepare_eq_ok_iff.mp hPrepare with
            ⟨_, document, _, _, _, hDocument, _⟩
          simp only [Point.accesses] at hMem
          split at hMem
          · rw [List.mem_singleton.mp hMem, Access.perform]
            unfold FileTree.document? at hDocument
            split at hDocument
            · cases hDocument
            · next content hRead => exact ⟨content, hRead⟩
          · cases hMem
  | making prepared =>
      rw [List.mem_singleton.mp hMem, Access.perform]
      rcases hMade : state.tree.makeDirectories
        prepared.target.parent with ⟨granted, made⟩
      cases granted with
      | ok _ => exact ⟨[], rfl⟩
      | error fault =>
          simp only [advance, hMade] at h
          exact absurd h (Covered.not_reporting hTask)
  | writing prepared =>
      rw [List.mem_singleton.mp hMem, Access.perform]
      cases hWritten : state.tree.write prepared.target
          (Utf8.encode prepared.rendering.text) with
      | ok written => exact ⟨[], rfl⟩
      | error fault =>
          simp only [advance, hWritten] at h
          exact absurd h (Covered.not_reporting hTask)
  | entering => cases hMem
  | admitting => cases hMem
  | recording target includes => cases hMem
  | submitting includes => cases hMem
  | reporting fault => cases hMem
  | releasing => cases hMem

theorem granted_of_turn
    {actor : Actor}
    (hTurn : Turn roots workers state actor after)
    (h : Calm after) :
    ∀ answer ∈ Access.answers (state.accesses roots actor)
        state.tree,
      ∃ content, answer = .ok content := by
  intro answer hMem
  cases hTurn with
  | taskRuns hTask =>
      simp only [accesses, hTask] at hMem
      exact granted_of_advance hTask h answer hMem
  | taskStarts hTask _ =>
      simp only [accesses, hTask] at hMem
      cases hMem
  | leadSubmits _ => cases hMem
  | leadCloses _ => cases hMem
  | leadReleases _ => cases hMem
  | leadTakes _ _ => cases hMem
  | leadAborts _ => cases hMem
  | leadCancels _ => cases hMem
  | leadJoins _ _ => cases hMem

/- A calm run was granted all that it asked. -/
theorem granted_of_calm
    (schedule : List Actor)
    (h : Calm (state.along roots workers schedule)) :
    ∀ answer ∈
        Access.answers (state.log roots workers schedule)
          state.tree,
      ∃ content, answer = .ok content := by
  induction schedule generalizing state with
  | nil =>
      intro answer hMem
      cases hMem
  | cons actor more ih =>
      intro answer hMem
      rw [along] at h
      rw [log, Access.answers_append, List.mem_append] at hMem
      cases hStep : state.step? roots workers actor with
      | none =>
          rw [hStep] at h hMem
          rw [accesses_of_no_step hStep] at hMem
          rcases hMem with hNow | hLater
          · cases hNow
          · exact ih h answer hLater
      | some next =>
          rw [hStep, Option.getD_some] at h hMem
          rw [← tree_of_step? hStep] at hMem
          rcases hMem with hNow | hLater
          · exact granted_of_turn (turn_of_step? hStep)
              (h.of_along more) answer hNow
          · exact ih h answer hLater

theorem accounted_along
    (h : Accounted state)
    (schedule : List Actor) :
    Accounted (state.along roots workers schedule) := by
  induction schedule generalizing state with
  | nil => exact h
  | cons actor more ih =>
      apply ih
      cases hStep : state.step? roots workers actor with
      | none => exact h
      | some after => exact h.turn (turn_of_step? hStep)

end BuildState

-- Answers Where Directories Were Made Before

namespace Access

variable {tree now : FileTree} {root : Path}
variable {log : List Access}

/-
  If all that is asked in a tree is granted, so it is where
  directories above the path were made before, and there is
  the same below the path in the end.
-/
theorem answers_of_opens
    {spot : Spot tree root}
    (hRooted : tree.IsRooted)
    (hRoot : root.IsCanonical)
    (hAskable : root.IsAskable)
    (hNow : spot.Opens now)
    (h : ∀ access ∈ log, access.Below root)
    (hGranted : ∀ answer ∈ answers log tree,
      ∃ content, answer = .ok content) :
    answers log now = answers log tree ∧
      (replay log now).under root =
        (replay log tree).under root := by
  have hTree := spot.opens hRooted
  induction log with
  | nil =>
      refine ⟨rfl, ?_⟩
      rw [replay, replay, hNow.under_eq hRoot hAskable,
        hTree.under_eq hRoot hAskable]
  | cons access more ih =>
      have hMore : ∀ other ∈ more, other.Below root :=
        fun other hMem => h other (List.mem_cons_of_mem _ hMem)
      rcases hGranted _ List.mem_cons_self with
        ⟨content, hContent⟩
      cases h access List.mem_cons_self with
      | @reads path =>
          have hRead : now.read path = tree.read path := by
            rw [show tree.read path = .ok content from
              hContent]
            exact read_of_keeps hNow.grows.keeps hContent
          rcases ih hMore (fun answer hMem =>
            hGranted answer (List.mem_cons_of_mem _ hMem))
            with ⟨hAnswers, hEnd⟩
          refine ⟨?_, hEnd⟩
          unfold answers
          exact congrArg₂ List.cons hRead hAnswers
      | @makes path hPath _ hSegments =>
          rw [perform_makes] at hContent
          have hMade : (tree.makeDirectories path).1 =
              .ok () := by
            cases hAnswer : (tree.makeDirectories path).1 with
            | error fault =>
                rw [hAnswer] at hContent
                cases hContent
            | ok _ => rfl
          rcases hTree.same_makeDirectories hNow hPath
            hSegments hMade with ⟨hAlso, hSame⟩
          rcases answers_of_same hSame hMore with
            ⟨hAnswers, hEnd⟩
          rw [answers, answers, replay, replay, perform_makes,
            perform_makes, hMade, hAlso]
          exact ⟨congrArg _ hAnswers.symm,
            hEnd.symm.under root⟩
      | @writes path _ _ hPath _ hStrictly hSegments =>
          rcases hTree.not_write hPath hStrictly hSegments _
            with ⟨fault, hFault⟩
          rw [perform, hFault] at hContent
          cases hContent

end Access

-- What Is Left to the Next Build

/-
  A tree whose path can be cleared, such that what is left
  then fulfils a condition.
-/
structure Leaves
    (root : Path)
    (P : FileTree → Prop)
    (now : FileTree) : Prop where
  rooted : now.IsRooted
  clearable : now.IsClearable root
  cleared : ∀ left, now.Clears root left → P left

section Leaves

variable {tree now left : FileTree} {root : Path}

/- A cleared tree leaves itself. -/
theorem leaves_of_same
    (hRooted : tree.IsRooted)
    (hAbsent : tree.isThere root = false)
    (h : Same now tree) :
    Leaves root (Same · tree) now := by
  have hNow : now.isThere root = false := by
    rw [← hAbsent, isThere, isThere, h.find]
  refine ⟨?_, ?_, ?_⟩
  · intro place name entry hEntry
    rw [h] at hEntry ⊢
    exact hRooted place name entry hEntry
  · intro place hFind
    simp [isThere, hFind] at hNow
  · intro left hLeft place
    rw [hLeft.entries, outside_of_absent hNow]
    exact h place

theorem leaves_of_grows
    {spot : Spot tree root}
    (hRoot : root.IsCanonical)
    (hAskable : root.IsAskable)
    (h : spot.Grows now) :
    Leaves root spot.Opens now where
  rooted := h.rooted
  clearable := h.isClearable hRoot hAskable
  cleared := fun _ hLeft =>
    h.opens_outside hRoot hAskable hLeft.entries

/- What a tree leaves, it leaves whoever clears it. -/
theorem Clears.leaves
    {P : FileTree → Prop}
    (hTree : tree.IsRooted)
    (hClearable : tree.IsClearable root)
    (hCleared : tree.Clears root left)
    (h : Leaves root P left) :
    Leaves root P tree := by
  refine ⟨hTree, hClearable, ?_⟩
  intro other hOther
  apply h.cleared
  refine ⟨hOther.rooted, hOther.absent, ?_⟩
  rw [hOther.entries, outside_of_absent hCleared.absent,
    hCleared.entries]

end Leaves

-- Builds After Builds

/- The tree after one build after the other. -/
def rebuilt
    (surroundings : Surroundings)
    (request : BuildRequest) :
    List (List Actor) → FileTree → FileTree
  | [], tree => tree
  | schedule :: more, tree =>
      rebuilt surroundings request more
        (buildAlong schedule surroundings request tree).tree

section Rebuild

variable {tree other removed left : FileTree}
variable {surroundings : Surroundings}
variable {request : BuildRequest} {workers : Int}

/-
  What a tree leaves to a build, a build leaves to the next
  one, if accesses below the output root keep it. So there
  is a next one, and it starts from that.
-/
theorem BuildRequest.starts_rebuilt
    {P : FileTree → Prop}
    (hDirectory : surroundings.directory.IsCanonical)
    (hWorkers : request.HasWorkers surroundings)
    (hApart : ¬ (request.roots
      surroundings.directory).SpelledWithin)
    (hKept : ∀ log left, P left →
      (∀ access ∈ log, access.Below
        (request.roots surroundings.directory).output) →
        Leaves (request.roots surroundings.directory).output
          P (Access.replay log left))
    (earlier : List (List Actor))
    (h : Leaves
      (request.roots surroundings.directory).output P tree) :
    ∃ workers left,
      request.Starts surroundings
          (rebuilt surroundings request earlier tree) workers
          left ∧
        P left := by
  induction earlier generalizing tree with
  | nil =>
      rcases BuildRequest.exists_starts hDirectory h.rooted
        ⟨hWorkers, hApart, h.clearable⟩ with
        ⟨workers, left, hStarts⟩
      exact ⟨workers, left, hStarts,
        h.cleared left hStarts.cleared⟩
  | cons schedule more ih =>
      rcases BuildRequest.exists_starts hDirectory h.rooted
        ⟨hWorkers, hApart, h.clearable⟩ with
        ⟨workers, left, hStarts⟩
      apply ih
      rw [hStarts.build_eq, Build.ofState,
        BuildState.tree_along]
      exact hKept _ left (h.cleared left hStarts.cleared)
        (request.below_of_log hDirectory left workers
          schedule)

/- A build that is refused is refused again. -/
theorem rebuilt_of_refused
    (hDirectory : surroundings.directory.IsCanonical)
    (h : ¬ request.MayStart surroundings tree)
    (earlier : List (List Actor)) :
    rebuilt surroundings request earlier tree = tree := by
  induction earlier with
  | nil => rfl
  | cons schedule more ih =>
      rcases buildAlong_refused hDirectory h schedule with
        ⟨fault, hRefused⟩
      rw [rebuilt, hRefused]
      exact ih

/- Builds that get the same answers go the same way. -/
theorem BuildRequest.Starts.of_answers
    (h : request.Starts surroundings tree workers removed)
    {count : Int}
    (hOther : request.Starts surroundings other count left)
    (schedule : List Actor)
    (hAnswers :
      let log := (request.machine
        (request.roots surroundings.directory) removed).log
          (request.roots surroundings.directory) workers
          schedule
      Access.answers log left = Access.answers log removed) :
    (buildAlong schedule surroundings request
        other).outcome =
      (buildAlong schedule surroundings request
        tree).outcome ∧
    (buildAlong schedule surroundings request other).tree =
      Access.replay ((request.machine
        (request.roots surroundings.directory) removed).log
          (request.roots surroundings.directory) workers
          schedule) left := by
  have hCount : count = workers := by
    have hBoth := hOther.count.symm.trans h.count
    cases hBoth
    rfl
  have hRun := BuildState.along_onTree
    (request.roots surroundings.directory) workers schedule
    (request.machine
      (request.roots surroundings.directory) removed)
    left hAnswers
  rw [BuildRequest.machine_onTree] at hRun
  rw [h.build_eq, hOther.build_eq, hCount, hRun]
  exact ⟨rfl, rfl⟩

theorem BuildRequest.Starts.tree_eq
    (h : request.Starts surroundings tree workers removed)
    (schedule : List Actor) :
    (buildAlong schedule surroundings request tree).tree =
      Access.replay ((request.machine
        (request.roots surroundings.directory) removed).log
          (request.roots surroundings.directory) workers
          schedule) removed := by
  rw [h.build_eq, Build.ofState, BuildState.tree_along]
  rfl

/- What is the same once cleared is the same in the end. -/
theorem BuildRequest.Starts.of_same
    (hDirectory : surroundings.directory.IsCanonical)
    (h : request.Starts surroundings tree workers removed)
    {count : Int}
    (hOther : request.Starts surroundings other count left)
    (hSame : Same left removed)
    (schedule : List Actor) :
    (buildAlong schedule surroundings request
        other).outcome =
      (buildAlong schedule surroundings request
        tree).outcome ∧
    Same
      (buildAlong schedule surroundings request other).tree
      (buildAlong schedule surroundings request
        tree).tree := by
  have hBelow := request.below_of_log hDirectory removed
    workers schedule
  rcases Access.answers_of_same hSame hBelow with
    ⟨hAnswers, hEnd⟩
  rcases h.of_answers hOther schedule hAnswers with
    ⟨hOutcome, hTree⟩
  rw [hTree, h.tree_eq]
  exact ⟨hOutcome, hEnd⟩

/- A build that succeeds was granted all that it asked. -/
theorem BuildRequest.Starts.granted
    (h : request.Starts surroundings tree workers removed)
    {schedule : List Actor}
    {paths : List Path}
    (hPaths : (buildAlong schedule surroundings request
      tree).outcome = some (.ok paths)) :
    ∀ answer ∈ Access.answers
        ((request.machine
          (request.roots surroundings.directory) removed).log
            (request.roots surroundings.directory) workers
            schedule) removed,
      ∃ content, answer = .ok content := by
  rw [h.build_eq] at hPaths
  have hCalm := (BuildState.calm_of_outcome?
    (BuildState.accounted_along
      (BuildState.accounted_start removed _) schedule)
    hPaths).1
  exact BuildState.granted_of_calm schedule hCalm

/-
  Builds leave as much as there was, or nothing but more
  directories above the output root.
-/
theorem BuildRequest.Starts.same_or_opens
    (hDirectory : surroundings.directory.IsCanonical)
    (h : request.Starts surroundings tree workers removed)
    (earlier : List (List Actor)) :
    ∃ count left,
      request.Starts surroundings
          (ThriftTypings.rebuilt surroundings request earlier
            tree) count left ∧
        (Same left removed ∨
          (request.roots
            surroundings.directory).output.IsAskable ∧
          ∃ spot : Spot removed
              (request.roots surroundings.directory).output,
            spot.Opens left) := by
  have hRoot : (request.roots
      surroundings.directory).output.IsCanonical :=
    hDirectory.resolve request.output
  rcases h.may with ⟨hWorkers, hApart, hClearable⟩
  rcases h.cleared with ⟨hRooted, hAbsent, _⟩
  rcases sealed_or_spot hRooted hRoot hAbsent with
    hSealed | ⟨hAskable, ⟨spot⟩⟩
  · have hKept (log : List Access) (left : FileTree)
        (hSame : Same left removed)
        (hLog : ∀ access ∈ log, access.Below
          (request.roots surroundings.directory).output) :
        Leaves (request.roots surroundings.directory).output
          (Same · removed) (Access.replay log left) := by
      apply leaves_of_same hRooted hAbsent
      rw [← Access.replay_of_sealed hSealed hLog]
      exact (Access.answers_of_same hSame hLog).2
    have hLeaves := Clears.leaves h.rooted hClearable
      h.cleared (leaves_of_same hRooted hAbsent fun _ => rfl)
    rcases BuildRequest.starts_rebuilt hDirectory hWorkers
      hApart hKept earlier hLeaves with
      ⟨count, left, hAgain, hSame⟩
    exact ⟨count, left, hAgain, .inl hSame⟩
  · have hKept (log : List Access) (left : FileTree)
        (hOpens : spot.Opens left)
        (hLog : ∀ access ∈ log, access.Below
          (request.roots surroundings.directory).output) :
        Leaves (request.roots surroundings.directory).output
          spot.Opens (Access.replay log left) := by
      apply leaves_of_grows hRoot hAskable
      exact Access.grows_replay hOpens.grows hLog
    have hLeaves := Clears.leaves h.rooted hClearable
      h.cleared
      (leaves_of_grows hRoot hAskable (spot.grows hRooted))
    rcases BuildRequest.starts_rebuilt hDirectory hWorkers
      hApart hKept earlier hLeaves with
      ⟨count, left, hAgain, hOpens⟩
    exact ⟨count, left, hAgain, .inr ⟨hAskable, spot, hOpens⟩⟩

/- What is left once the output is cleared stays there. -/
theorem BuildRequest.Starts.keeps
    (hDirectory : surroundings.directory.IsCanonical)
    (h : request.Starts surroundings tree workers removed)
    (earlier : List (List Actor))
    (schedule : List Actor) :
    let build := buildAlong schedule surroundings request
      (ThriftTypings.rebuilt surroundings request earlier
        tree)
    Keeps removed build.cleared ∧
      Keeps removed build.tree := by
  intro build
  rcases h.same_or_opens hDirectory earlier with
    ⟨count, left, hAgain, hLeft⟩
  have hKeeps : Keeps removed left := by
    intro place entry hEntry
    rcases hLeft with hSame | ⟨_, spot, hOpens⟩
    · rw [hSame place, hEntry]
    · exact hOpens.grows.keeps place entry hEntry
  rw [show build.cleared = left from
      congrArg Build.cleared (hAgain.build_eq schedule),
    show build.tree = _ from hAgain.tree_eq schedule]
  refine ⟨hKeeps, fun place entry hEntry => ?_⟩
  have hLeftEntry := hKeeps place entry hEntry
  rcases Access.sealed_or_grows hAgain.cleared.rooted
    (hDirectory.resolve request.output)
    hAgain.cleared.absent
    (request.below_of_log hDirectory left count schedule)
    with hSealed | ⟨_, spot, hGrows⟩
  · rw [hSealed]
    exact hLeftEntry
  · exact hGrows.keeps place entry hLeftEntry

/- Builds before a build make no difference to it. -/
theorem BuildRequest.Starts.rebuilt
    (hDirectory : surroundings.directory.IsCanonical)
    (h : request.Starts surroundings tree workers removed)
    {schedule : List Actor}
    (hEnds :
      (∃ paths, (buildAlong schedule surroundings request
        tree).outcome = some (.ok paths)) ∨
      removed.isDirectory
        (request.roots
          surroundings.directory).output.parent = true)
    (earlier : List (List Actor)) :
    (buildAlong schedule surroundings request
        (ThriftTypings.rebuilt surroundings request earlier
          tree)).outcome =
      (buildAlong schedule surroundings request
        tree).outcome ∧
    (buildAlong schedule surroundings request
        (ThriftTypings.rebuilt surroundings request earlier
          tree)).tree.under
        (request.roots surroundings.directory).output =
      (buildAlong schedule surroundings request
        tree).tree.under
        (request.roots surroundings.directory).output := by
  have hRoot : (request.roots
      surroundings.directory).output.IsCanonical :=
    hDirectory.resolve request.output
  have hRooted := h.cleared.rooted
  have hBelow := request.below_of_log hDirectory removed
    workers schedule
  rcases h.same_or_opens hDirectory earlier with
    ⟨count, left, hAgain, hSame | ⟨hAskable, spot, hOpens⟩⟩
  · rcases h.of_same hDirectory hAgain hSame schedule with
      ⟨hOutcome, hEnd⟩
    exact ⟨hOutcome, hEnd.under _⟩
  · rcases hEnds with ⟨paths, hPaths⟩ | hParent
    · rcases Access.answers_of_opens hRooted hRoot hAskable
        hOpens hBelow (h.granted hPaths) with
        ⟨hAnswers, hEnd⟩
      rcases h.of_answers hAgain schedule hAnswers with
        ⟨hOutcome, hFinal⟩
      rw [hFinal, h.tree_eq]
      exact ⟨hOutcome, hEnd⟩
    · have hRest := spot.rest_eq_nil hRooted hRoot hParent
      rcases h.of_same hDirectory hAgain (hOpens.same hRest)
        schedule with ⟨hOutcome, hEnd⟩
      exact ⟨hOutcome, hEnd.under _⟩

/- The guard and the workers do not look at the tree. -/
theorem outcome_of_not_started
    (hDirectory : surroundings.directory.IsCanonical)
    (h : ¬ request.HasWorkers surroundings ∨
      (request.roots surroundings.directory).SpelledWithin)
    (schedule : List Actor)
    (tree other : FileTree) :
    (buildAlong schedule surroundings request
        other).outcome =
      (buildAlong schedule surroundings request
        tree).outcome := by
  unfold buildAlong
  dsimp only
  cases hCount : workerCount request.workers
      surroundings.setting surroundings.processors with
  | error fault => rfl
  | ok workers =>
      rcases h with hNone | hWithin
      · exact absurd ⟨workers, hCount⟩ hNone
      · rw [← Roots.outputHoldsSource_iff
          (hDirectory.resolve request.source)
          (hDirectory.resolve request.output)] at hWithin
        dsimp only
        rw [removeOutput_of_guard hWithin,
          removeOutput_of_guard hWithin]
        rfl

end Rebuild

-- Builds in a Workspace

namespace Workspace

variable {surroundings : Surroundings}
variable {request : BuildRequest}
variable {tree now : FileTree} {place : Place}

/- The workspace after one build after the other. -/
def rebuilt
    (request : BuildRequest) :
    List (List Actor) → Workspace → Workspace
  | [], workspace => workspace
  | schedule :: more, workspace =>
      rebuilt request more
        (workspace.compileBy (buildAlong schedule) request).2

/- The workspace of a tree and what is around its builds. -/
def around
    (surroundings : Surroundings)
    (place : Place)
    (tree : FileTree) : Workspace where
  tree := tree
  directory := some place
  setting := surroundings.setting
  processors := surroundings.processors

theorem compileBy_around
    (hPlace : surroundings.directory = ⟨1, place⟩)
    (build : Surroundings → BuildRequest → FileTree → Build)
    (request : BuildRequest)
    (tree : FileTree) :
    let workspace := around surroundings place tree
    let built := build surroundings request tree
    workspace.compileBy build request =
      (some built,
        (workspace.onTree built.cleared).onTree
          built.tree) := by
  intro workspace built
  have hSame : workspace.surroundingsAt place =
      surroundings := by
    rcases surroundings with ⟨directory, setting, processors⟩
    cases hPlace
    rfl
  unfold compileBy
  dsimp only [workspace, around] at hSame ⊢
  rw [hSame]

theorem onTree_around
    (h : now.get? place = some .directory) :
    (around surroundings place tree).onTree now =
      around surroundings place now := by
  simp [onTree, around, Option.filter, isDirectoryAt, h]

/- Without a directory there is no build any more. -/
theorem rebuilt_of_gone
    {workspace : Workspace}
    (h : workspace.directory = none)
    (earlier : List (List Actor)) :
    workspace.rebuilt request earlier = workspace := by
  induction earlier with
  | nil => rfl
  | cons schedule more ih =>
      rw [rebuilt, compileBy, h]
      exact ih

/- While builds keep the directory, it is the same place. -/
theorem rebuilt_around
    (hPlace : surroundings.directory = ⟨1, place⟩)
    (hKept : ∀ earlier schedule,
      let build := buildAlong schedule surroundings request
        (ThriftTypings.rebuilt surroundings request earlier
          tree)
      build.cleared.get? place = some .directory ∧
        build.tree.get? place = some .directory)
    (earlier : List (List Actor)) :
    (around surroundings place tree).rebuilt request
        earlier =
      around surroundings place
        (ThriftTypings.rebuilt surroundings request earlier
          tree) := by
  induction earlier generalizing tree with
  | nil => rfl
  | cons schedule more ih =>
      rcases hKept [] schedule with ⟨hCleared, hEnd⟩
      rw [ThriftTypings.rebuilt] at hCleared hEnd
      rw [rebuilt, compileBy_around hPlace]
      dsimp only
      rw [onTree_around hCleared, onTree_around hEnd]
      exact ih fun others next =>
        hKept (schedule :: others) next

/- A build removes the directory at a place. -/
structure Loses
    (surroundings : Surroundings)
    (request : BuildRequest)
    (tree : FileTree)
    (place : Place) : Prop where
  may : request.MayStart surroundings tree
  covers : tree.Covers
    (request.roots surroundings.directory).output place

theorem Loses.gone
    (h : Loses surroundings request tree place)
    (hDirectory : surroundings.directory.IsCanonical)
    (hTree : tree.IsRooted)
    (schedule : List Actor) :
    (buildAlong schedule surroundings request
      tree).cleared.get? place = none := by
  rcases BuildRequest.exists_starts hDirectory hTree h.may
    with ⟨workers, removed, hStarts⟩
  rw [hStarts.build_eq]
  exact hStarts.cleared.vacant h.may.clearable h.covers

theorem kept_of_not_loses
    (hDirectory : surroundings.directory.IsCanonical)
    (hTree : tree.IsRooted)
    (hHere : tree.get? place = some .directory)
    (h : ¬ Loses surroundings request tree place)
    (earlier : List (List Actor))
    (schedule : List Actor) :
    let build := buildAlong schedule surroundings request
      (ThriftTypings.rebuilt surroundings request earlier
        tree)
    build.cleared.get? place = some .directory ∧
      build.tree.get? place = some .directory := by
  intro build
  by_cases hMay : request.MayStart surroundings tree
  · rcases BuildRequest.exists_starts hDirectory hTree hMay
      with ⟨workers, removed, hStarts⟩
    have hLeft : removed.get? place = some .directory := by
      rw [← hHere]
      by_contra hChanged
      exact h ⟨hMay,
        hStarts.cleared.covers hMay.clearable hChanged⟩
    rcases hStarts.keeps hDirectory earlier schedule with
      ⟨hCleared, hEnd⟩
    exact ⟨hCleared _ _ hLeft, hEnd _ _ hLeft⟩
  · rcases buildAlong_refused hDirectory hMay schedule with
      ⟨fault, hRefused⟩
    have hBuild : build = .refused fault tree := by
      rw [← hRefused, ← rebuilt_of_refused hDirectory hMay
        earlier]
    rw [hBuild]
    exact ⟨hHere, hHere⟩

/-
  After earlier builds there is a build, the same one as
  without a workspace, unless these removed the directory.
-/
theorem compileBy_rebuilt
    (hPlace : surroundings.directory = ⟨1, place⟩)
    (hDirectory : surroundings.directory.IsCanonical)
    (hTree : tree.IsRooted)
    (hHere : tree.get? place = some .directory)
    (earlier : List (List Actor))
    (schedule : List Actor) :
    let next := (((around surroundings place tree).rebuilt
      request earlier).compileBy (buildAlong schedule)
        request).1
    (earlier ≠ [] ∧ Loses surroundings request tree place →
        next = none) ∧
      (¬ (earlier ≠ [] ∧
          Loses surroundings request tree place) →
        next = some (buildAlong schedule surroundings request
          (ThriftTypings.rebuilt surroundings request earlier
            tree))) := by
  intro next
  constructor
  · rintro ⟨hEarlier, hLoses⟩
    rcases earlier with _ | ⟨first, more⟩
    · exact absurd rfl hEarlier
    · have hGone := hLoses.gone hDirectory hTree first
      dsimp only [next]
      rw [rebuilt, compileBy_around hPlace]
      dsimp only
      rw [rebuilt_of_gone, compileBy]
      all_goals
        simp [onTree, around, Option.filter, isDirectoryAt,
          hGone]
  · intro hNot
    have hWorkspace : (around surroundings place tree).rebuilt
        request earlier = around surroundings place
          (ThriftTypings.rebuilt surroundings request earlier
            tree) := by
      by_cases hNone : earlier = []
      · rw [hNone]
        rfl
      · refine rebuilt_around hPlace ?_ earlier
        exact kept_of_not_loses hDirectory hTree hHere
          fun hLoses => hNot ⟨hNone, hLoses⟩
    dsimp only [next]
    rw [hWorkspace, compileBy_around hPlace]

end Workspace

-- Whole Builds

/-
  A build changes nothing but what is in the directory that
  its output root denotes, before or after, and directories
  above it that were missing. It changes nothing at all if
  it has no workers, if the guard refuses its roots, or if
  its output root is a file or a link.

  In two trees that agree outside the output root, and where
  it is nothing or a directory, the build comes to the same
  outcome, and to the same tree unless it is refused.

  Earlier builds make no difference to the outcome and to
  what is in the output root, if the build succeeds, or if
  the directory above the output root is there once that is
  cleared. But there is no build any more, and no outcome,
  if the first of them removed the directory in use.
-/
theorem BuildRequest.touches_only_its_output
    (request : BuildRequest)
    (surroundings : Surroundings)
    (hDirectory : surroundings.directory.IsCanonical)
    (tree : FileTree)
    (hTree : tree.IsRooted)
    (schedule : List Actor) :
    let roots := request.roots surroundings.directory
    let build := buildAlong schedule surroundings request
    (∀ place,
      (build tree).tree.get? place ≠ tree.get? place →
        tree.Covers roots.output place ∨
          (build tree).tree.Covers roots.output place ∨
          tree.get? place = none ∧
            (build tree).tree.LiesOver roots.output place) ∧
    (¬ request.HasWorkers surroundings ∨
        roots.SpelledWithin ∨
        ¬ tree.IsClearable roots.output →
      (build tree).FailsUntouched tree) ∧
    (∀ other,
      other.IsRooted →
        tree.IsClearable roots.output →
        other.IsClearable roots.output →
        AgreeOutside roots.output tree other →
          (build other).outcome = (build tree).outcome ∧
            (request.HasWorkers surroundings →
              ¬ roots.SpelledWithin →
                Same (build other).tree
                  (build tree).tree)) ∧
    (∀ earlier,
      (∃ paths, (build tree).outcome = some (.ok paths)) ∨
          (build tree).cleared.isDirectory
            roots.output.parent = true →
        let again :=
          build (rebuilt surroundings request earlier tree)
        again.outcome = (build tree).outcome ∧
          again.tree.under roots.output =
            (build tree).tree.under roots.output) ∧
    ∀ place earlier,
      surroundings.directory = ⟨1, place⟩ →
      tree.get? place = some .directory →
        let workspace :=
          Workspace.around surroundings place tree
        let next :=
          ((workspace.rebuilt request earlier).compileBy
            (buildAlong schedule) request).1
        let isGone := earlier ≠ [] ∧
          Workspace.Loses surroundings request tree place
        (isGone → next = none) ∧
          (¬ isGone → next = some (build
            (rebuilt surroundings request earlier
              tree))) := by
  intro roots build
  have hRefused (h : ¬ request.MayStart surroundings tree) :
      (build tree).FailsUntouched tree := by
    rcases buildAlong_refused hDirectory h schedule with
      ⟨fault, hFault⟩
    rw [show build tree = .refused fault tree from hFault]
    exact Build.failsUntouched_refused fault tree
  refine ⟨?_, ?_, ?_, ?_, fun _ earlier hPlace hHere =>
    Workspace.compileBy_rebuilt hPlace hDirectory hTree hHere
      earlier schedule⟩
  · intro place hChanged
    by_cases hMay : request.MayStart surroundings tree
    · rcases exists_starts hDirectory hTree hMay with
        ⟨workers, removed, hStarts⟩
      have hFinal := hStarts.tree_eq schedule
      rw [show (build tree).tree = _ from hFinal]
        at hChanged ⊢
      exact Access.changed_of_clears
        (hDirectory.resolve request.output) hMay.clearable
        hStarts.cleared
        (request.below_of_log hDirectory removed workers
          schedule) hChanged
    · rw [(hRefused hMay).untouched] at hChanged
      exact absurd rfl hChanged
  · intro hReason
    apply hRefused
    rintro ⟨hWorkers, hApart, hClearable⟩
    rcases hReason with hNone | hWithin | hBlocked
    · exact hNone hWorkers
    · exact hApart hWithin
    · exact hBlocked hClearable
  · intro other hOther hClearable hAlso hAgree
    by_cases hStarts : ¬ request.HasWorkers surroundings ∨
        roots.SpelledWithin
    · refine ⟨outcome_of_not_started hDirectory hStarts
        schedule tree other, ?_⟩
      intro hWorkers hApart
      rcases hStarts with hNone | hWithin
      · exact absurd hWorkers hNone
      · exact absurd hWithin hApart
    · push Not at hStarts
      rcases hStarts with ⟨hWorkers, hApart⟩
      rcases exists_starts hDirectory hTree
        ⟨hWorkers, hApart, hClearable⟩ with
        ⟨workers, removed, hStarts⟩
      rcases exists_starts hDirectory hOther
        ⟨hWorkers, hApart, hAlso⟩ with
        ⟨count, left, hAgain⟩
      have hSame :=
        (hStarts.cleared.same hAgain.cleared hAgree).symm
      rcases hStarts.of_same hDirectory hAgain hSame
        schedule with ⟨hOutcome, hEnd⟩
      exact ⟨hOutcome, fun _ _ => hEnd⟩
  · intro earlier hEnds
    by_cases hMay : request.MayStart surroundings tree
    · rcases exists_starts hDirectory hTree hMay with
        ⟨workers, removed, hStarts⟩
      rw [show (build tree).cleared = removed from congrArg
        Build.cleared (hStarts.build_eq schedule)] at hEnds
      exact hStarts.rebuilt hDirectory hEnds earlier
    · rw [rebuilt_of_refused hDirectory hMay earlier]
      exact ⟨rfl, rfl⟩

-- An Output Root in Missing Directories

namespace Nested

/- One empty source. -/
def tree : FileTree where
  entries :=
    [([['s']], .directory),
     ([['s'], ['a']], .file [])]

/- The same after a directory was made. -/
def deeper : FileTree where
  entries := ([['m']], .directory) :: tree.entries

def surroundings : Surroundings where
  directory := ⟨1, []⟩
  setting := none
  processors := none

def request
    (output : Text) : BuildRequest where
  inputs := [['a']]
  source := ['s']
  output := output
  workers := some 1

def roots
    (output : Text) : Roots :=
  (request output).roots surroundings.directory

def file : Path where
  slashes := 1
  segments := [['s'], ['a']]

/- Long enough for the source, whether it fails or not. -/
def schedule : List Actor :=
  [.lead, .lead, .lead, .task 0, .task 0, .task 0, .task 0,
    .task 0, .task 0, .task 0, .task 0, .task 0, .lead,
    .lead, .lead, .lead]

/- A name that is too long by one. -/
def long : Text :=
  List.replicate 256 'x'

def deep : Text :=
  ['m', '/'] ++ long ++ ['/', 'o']

theorem isRooted_tree : tree.IsRooted :=
  (isPlain_of_entries (by decide) (by decide)).isRooted

theorem source_eq
    (output : Text) :
    (roots output).source = ⟨1, [['s']]⟩ := by
  have hSource : Path.resolve ⟨1, []⟩ ['s'] =
      ⟨1, [['s']]⟩ := by
    decide
  exact hSource

theorem machine_eq
    (output : Text)
    (now : FileTree) :
    (request output).machine (roots output) now =
      BuildState.start now [file] := by
  have hFile : Path.resolve ⟨1, [['s']]⟩ ['a'] = file := by
    decide
  rw [BuildRequest.machine, source_eq, ← hFile]
  rfl

theorem prepare_eq
    {now : FileTree}
    (output : Text)
    (h : now.read file = .ok []) :
    (roots output).prepare now file =
      .ok
        { relative := ['a']
          target := (roots output).target file
          rendering := ⟨['\n'], []⟩ } := by
  have hIncludes : Twins.empty.includes = [] := by
    cbv
  have hText : TypeScript.generate Twins.empty =
      .ok ['\n'] := by
    cbv
  apply Roots.prepare_eq_ok_iff.mpr
  refine ⟨[['a']], Twins.empty, ['\n'], by simp, ?_,
    Twins.document?_of_empty h, hText, ?_⟩
  · rw [source_eq]
    rfl
  · rw [hIncludes]
    rfl

theorem buildAlong_eq
    {now : FileTree}
    (output : Text)
    (h : removeOutput (roots output) now = .ok now) :
    buildAlong schedule surroundings (request output) now =
      .ofState now
        ((BuildState.start now [file]).along (roots output)
          1 schedule) := by
  have hCount : workerCount (request output).workers
      surroundings.setting surroundings.processors =
        .ok 1 := rfl
  unfold buildAlong
  rw [hCount]
  dsimp only
  rw [show removeOutput ((request output).roots
    surroundings.directory) now = .ok now from h,
    ← machine_eq output]
  rfl

/- The build of the source, by what comes of its module. -/
theorem outcome_of_made
    {now made : FileTree}
    {output : Text}
    {result : Except FileFault Unit}
    (hRemoved : removeOutput (roots output) now = .ok now)
    (hRead : now.read file = .ok [])
    (hMade : now.makeDirectories
      ((roots output).target file).parent = (result, made)) :
    let build := buildAlong schedule surroundings
      (request output) now
    (∀ written, result = .ok () →
      made.write ((roots output).target file)
        (Utf8.encode ['\n']) = .ok written →
      build.outcome =
        some (.ok [(roots output).target file])) ∧
    (∀ fault, result = .error fault →
      build.outcome =
          some (.error (Roots.writeFault ['a'] fault)) ∧
        build.tree = made) := by
  intro build
  have hBuild := buildAlong_eq output hRemoved
  have hPrepared := prepare_eq output hRead
  constructor
  all_goals
    intros
    simp [build, *, Build.ofState, schedule,
      BuildState.along, BuildState.step?,
      BuildState.leadStep?, BuildState.start,
      BuildState.submit, BuildState.release,
      BuildState.taskStep?, BuildState.mayStart,
      BuildState.advance, BuildState.isRunning,
      BuildState.isQueued, BuildState.cancelled,
      BuildState.post, BuildState.outcome?]

theorem read_tree : tree.read file = .ok [] := by
  cbv

theorem read_deeper : deeper.read file = .ok [] := by
  cbv

theorem target_shallow :
    (roots "m/o".toList).target file =
      ⟨1, [['m'], ['o'], "a.ts".toList]⟩ := by
  decide

theorem outcome_shallow :
    (buildAlong schedule surroundings
      (request "m/o".toList) tree).outcome =
        some (.ok [⟨1, [['m'], ['o'], "a.ts".toList]⟩]) := by
  have hRemoved : removeOutput (roots "m/o".toList) tree =
      .ok tree := by
    cbv
  have hMade : tree.makeDirectories
      ((roots "m/o".toList).target file).parent =
        (.ok (), ⟨([['m'], ['o']], .directory) ::
          deeper.entries⟩) := by
    rw [target_shallow]
    cbv
  rw [← target_shallow]
  apply (outcome_of_made hRemoved read_tree hMade).1 _ rfl
  · rw [target_shallow]
    cbv

theorem not_covers
    (place : Place) :
    ¬ tree.Covers (roots "m/o".toList).output place := by
  rintro ⟨root, hDenotes, _⟩
  have hMissing : tree.isDirectory
      (roots "m/o".toList).output = false := by
    cbv
  rw [isDirectory, hDenotes.find] at hMissing
  simp [isDirectoryAt, hDenotes.entry] at hMissing

/- A path over the name that is too long. -/
def beyond
    (more : List Text) : Path where
  slashes := 1
  segments := ['m'] :: long :: more

theorem isAskable_beyond :
    (beyond []).IsAskable ∧ (beyond [['o']]).IsAskable := by
  unfold Path.IsAskable Path.IsShort
  decide +kernel

theorem output_deep : (roots deep).output = beyond [['o']] := by
  decide +kernel

theorem parent_deep :
    ((roots deep).target file).parent = beyond [['o']] := by
  decide +kernel

theorem long_spec :
    Path.IsName long ∧
      nameLimit < (Utf8.encode long).length := by
  decide +kernel

theorem isProper_first : Path.IsProper ['m'] :=
  ⟨by decide, by decide, by decide, by decide⟩

/- Nothing is looked up beyond a name that is missing. -/
theorem find_tree
    (h : (beyond more).IsAskable)
    (last : Bool) :
    tree.find last (beyond more) =
      .error (refusal .notFound (beyond more)) := by
  have hFollow : tree.follow last linkLimit []
      (beyond more).segments = .error .notFound := by
    have hNone : tree.get? ([] ++ [['m']]) = none := by
      decide
    rw [beyond, follow_proper rfl isProper_first, hNone]
    exact if_neg (by simp)
  rw [find_of_isAskable h, hFollow]

/- Once it is there, the next name is too long. -/
theorem find_deeper
    (h : (beyond more).IsAskable)
    (last : Bool) :
    deeper.find last (beyond more) =
      .error (refusal .nameTooLong (beyond more)) := by
  have hFollow : deeper.follow last linkLimit []
      (beyond more).segments = .error .nameTooLong := by
    rcases long_spec with ⟨hName, hLong⟩
    have hHere : deeper.get? ([] ++ [['m']]) =
        some .directory := by
      decide
    rw [beyond, follow_proper rfl isProper_first, hHere]
    dsimp only
    rw [follow]
    simp only [hHere, ne_eq, not_true_eq_false, if_false,
      hName.nonempty, hName.notHere, or_self, hName.notAbove,
      hLong, if_true]
  rw [find_of_isAskable h, hFollow]

theorem makeDirectory_deeper
    (h : (beyond more).IsAskable) :
    deeper.makeDirectory (beyond more) =
        .error (refusal .nameTooLong (beyond more)) ∧
      deeper.isDirectory (beyond more) = false := by
  rw [makeDirectory, isDirectory, find_deeper h,
    find_deeper h]
  exact ⟨rfl, rfl⟩

theorem makeDirectories_deeper :
    deeper.makeDirectories (beyond [['o']]) =
      (.error (refusal .nameTooLong (beyond [['o']])),
        deeper) := by
  rcases makeDirectory_deeper isAskable_beyond.2 with
    ⟨hMade, hNot⟩
  rw [FileTree.makeDirectories, hMade]
  dsimp only
  rw [hNot]
  rfl

/- The first directory can be made, but not the second. -/
theorem makeDirectories_tree :
    tree.makeDirectories (beyond [['o']]) =
      (.error (refusal .nameTooLong (beyond [])),
        deeper) := by
  have hFirst : tree.makeDirectories (beyond []).parent =
      (.ok (), deeper) := by
    have hAbove : (beyond []).parent = ⟨1, [['m']]⟩ := rfl
    rw [hAbove]
    cbv
  have hSecond : tree.makeDirectories
      (beyond [['o']]).parent =
        (.error (refusal .nameTooLong (beyond [])),
          deeper) := by
    rcases makeDirectory_deeper isAskable_beyond.1 with
      ⟨hMade, hNot⟩
    have hAbove : (beyond [['o']]).parent = beyond [] := rfl
    rw [hAbove, makeDirectories_above (by simp [beyond])
      (find_tree isAskable_beyond.1 false), hFirst]
    dsimp only
    rw [hMade]
    dsimp only
    rw [hNot, Bool.and_false]
    rfl
  rw [makeDirectories_above (by simp [beyond])
    (find_tree isAskable_beyond.2 false), hSecond]

theorem removed_deep :
    removeOutput (roots deep) tree = .ok tree ∧
      removeOutput (roots deep) deeper = .ok deeper := by
  have hGuard : (roots deep).outputHoldsSource = false := by
    decide +kernel
  unfold removeOutput
  rw [hGuard, output_deep, isThere, isThere,
    find_tree isAskable_beyond.2,
    find_deeper isAskable_beyond.2]
  exact ⟨rfl, rfl⟩

/- The second build blames another directory. -/
theorem outcome_deep :
    (buildAlong schedule surroundings (request deep)
        (rebuilt surroundings (request deep) [schedule]
          tree)).outcome ≠
      (buildAlong schedule surroundings (request deep)
        tree).outcome := by
  have hFirst := makeDirectories_tree
  have hAgain := makeDirectories_deeper
  rw [← parent_deep] at hFirst hAgain
  rcases (outcome_of_made removed_deep.1 read_tree
    hFirst).2 _ rfl with ⟨hOutcome, hTree⟩
  rcases (outcome_of_made removed_deep.2 read_deeper
    hAgain).2 _ rfl with ⟨hOther, _⟩
  rw [rebuilt, rebuilt, hTree, hOther, hOutcome]
  decide +kernel

end Nested

/-
  A build that makes the directory above its output root and
  succeeds comes to the same when it is done again.
-/
theorem BuildRequest.rebuilds_a_nested_output :
    let request := Nested.request "m/o".toList
    let build := buildAlong Nested.schedule
      Nested.surroundings request
    let again := build
      (rebuilt Nested.surroundings request
        [Nested.schedule, []] Nested.tree)
    let workspace :=
      Workspace.around Nested.surroundings [] Nested.tree
    again.outcome =
        some (.ok [⟨1, [['m'], ['o'], "a.ts".toList]⟩]) ∧
      again.tree.under ⟨1, [['m'], ['o']]⟩ =
        (build Nested.tree).tree.under
          ⟨1, [['m'], ['o']]⟩ ∧
      ((workspace.rebuilt request
        [Nested.schedule, []]).compileBy
          (buildAlong Nested.schedule) request).1 =
        some again := by
  intro request build again workspace
  have hBuild := touches_only_its_output request
    Nested.surroundings (by decide) Nested.tree
    Nested.isRooted_tree Nested.schedule
  rcases hBuild.2.2.2.1 [Nested.schedule, []]
    (.inl ⟨_, Nested.outcome_shallow⟩) with
    ⟨hOutcome, hUnder⟩
  refine ⟨hOutcome.trans Nested.outcome_shallow, hUnder, ?_⟩
  apply (hBuild.2.2.2.2 [] [Nested.schedule, []] rfl rfl).2
  exact fun hGone => Nested.not_covers [] hGone.2.covers

-- Builds That Do Not Come to the Same

namespace Stale

/- An output root with an old module in it. -/
def tree : FileTree where
  entries :=
    [([['s']], .directory),
     ([['o']], .directory),
     ([['o'], ['b']], .file [])]

/- The same without the output root. -/
def bare : FileTree :=
  tree.erase [['o']]

/- The workers are refused. -/
def request : BuildRequest where
  inputs := []
  source := ['s']
  output := ['o']
  workers := some 0

def output : Path where
  slashes := 1
  segments := [['o']]

theorem find_output :
    tree.find false output = .ok (.present [['o']]) := by
  cbv

theorem clears_bare : tree.Clears output bare :=
  clears_erase
    (isPlain_of_entries (by decide) (by decide)).isRooted
    (by simp) find_output

theorem agreeOutside_bare :
    AgreeOutside output tree bare := by
  intro place
  rw [outside_of_absent clears_bare.absent,
    clears_bare.entries]

end Stale

namespace Vanished

/- A workspace whose directory is the output root. -/
def workspace : Workspace where
  tree := ⟨[([['s']], .directory), ([['o']], .directory)]⟩
  directory := some [['o']]
  setting := none
  processors := none

def request : BuildRequest where
  inputs := []
  source := "../s".toList
  output := ['.']
  workers := some 1

end Vanished

/-
  A build that removes the directory in which it runs cannot
  be done again, for nothing can be resolved any more. What
  is in the output root does not come to the same after a
  build that is refused, and a build that fails above its
  output root may fail elsewhere next time.
-/
theorem BuildRequest.rebuilding_may_differ :
    ((Vanished.workspace.compile Vanished.request).1.map
          Build.outcome =
        some (some (.ok [])) ∧
      ((Vanished.workspace.compile
          Vanished.request).2.compile
            Vanished.request).1.isNone = true) ∧
    (AgreeOutside Stale.output Stale.tree Stale.bare ∧
      Stale.tree.IsClearable Stale.output ∧
      Stale.bare.IsClearable Stale.output ∧
      (buildAlong [] Nested.surroundings Stale.request
          Stale.tree).tree.under Stale.output ≠
        (buildAlong [] Nested.surroundings Stale.request
          Stale.bare).tree.under Stale.output) ∧
    let build := buildAlong Nested.schedule
      Nested.surroundings (Nested.request Nested.deep)
    (build (rebuilt Nested.surroundings
        (Nested.request Nested.deep) [Nested.schedule]
        Nested.tree)).outcome ≠
      (build Nested.tree).outcome := by
  refine ⟨⟨?_, ?_⟩, ⟨Stale.agreeOutside_bare, ?_, ?_, ?_⟩,
    ?_⟩
  · cbv
  · cbv
  · intro place hFind
    rw [Stale.find_output] at hFind
    cases hFind
    rfl
  · intro place hFind
    have hAbsent := Stale.clears_bare.absent
    simp [isThere, hFind] at hAbsent
  · intro hSame
    have hOld : Stale.tree.under Stale.output [['b']] =
        some (.file []) := by
      cbv
    have hNone : Stale.bare.under Stale.output [['b']] =
        none := by
      cbv
    have hBoth := hOld.symm.trans
      ((congrFun hSame [['b']]).trans hNone)
    cases hBoth
  · exact Nested.outcome_deep

end ThriftTypings
