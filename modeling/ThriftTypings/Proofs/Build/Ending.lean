import Mathlib
import ThriftTypings.Proofs.Build.Accounting
import ThriftTypings.Proofs.Path.Canonical

/-
  This file proves that every build ends, whatever the order
  of turns and whatever includes what.

  A source is admitted once under each of its paths, and only
  a path of limited length can be read. So only finitely many
  sources can ever bring in further ones. Between two of
  these the work that is left gets less with every turn.

  Key definitions include:
    * `BuildState.unread` and `BuildState.work`

  Key theorems include:
    * `BuildState.done_of_stuck`
    * `BuildState.outcome?_runInOrder`
-/

namespace ThriftTypings

variable {prepared : Prepared} {middle : BuildState}
variable {tree : FileTree} {path : Path}

variable {file : Path} {index : Nat}

-- Short Paths

namespace Text

theorem length_le_length_encode
    (text : Text) :
    text.length ≤ (Utf8.encode text).length := by
  induction text with
  | nil => simp
  | cons c rest ih =>
      have hChar : 0 < c.utf8Size := Char.utf8Size_pos c
      simp only [Utf8.encode, List.flatMap_cons,
        List.length_append, List.length_cons,
        String.length_utf8EncodeChar] at ih ⊢
      omega

/- Joined parts take up their number and each their length. -/
theorem length_joined
    (separator : Char)
    (parts : List Text) :
    parts.length ≤ (joined [separator] parts).length + 1 ∧
      ∀ part ∈ parts,
        part.length ≤ (joined [separator] parts).length := by
  simp only [joined]
  induction parts with
  | nil => simp
  | cons first rest ih =>
      cases rest with
      | nil => simp
      | cons second more =>
          rw [List.intercalate_cons_cons]
          simp only [List.length_append, List.length_cons,
            List.mem_cons, List.length_nil] at ih ⊢
          refine ⟨by omega, ?_⟩
          rintro part (rfl | hPart)
          · omega
          · have hRest := ih.2 part hPart
            omega

end Text

theorem finite_char :
    Finite Char :=
  Finite.of_injective Char.ordinal Char.ordinal_injective

namespace Path

/- The parts of a short path are few and short. -/
theorem IsShort.bounded
    (h : path.IsShort) :
    path.slashes ≤ pathLimit ∧
      path.segments.length ≤ pathLimit + 1 ∧
      ∀ segment ∈ path.segments,
        segment.length ≤ pathLimit := by
  have hLength := Nat.le_trans
    (Text.length_le_length_encode path.text) h
  have hJoined := Text.length_joined '/' path.segments
  simp only [text] at hLength
  split at hLength
  · next hEmpty =>
      simp [hEmpty]
  · simp only [List.length_append, List.length_replicate]
      at hLength
    refine ⟨by omega, by omega, fun segment hSegment => ?_⟩
    have hPart := hJoined.2 segment hSegment
    omega

/- Only finitely many paths are short. -/
theorem finite_setOf_isShort :
    {path : Path | path.IsShort}.Finite := by
  have := finite_char
  let Part := {part : Text // part.length ≤ pathLimit}
  have : Finite Part :=
    (List.finite_length_le Char pathLimit).to_subtype
  have hLists :
      {parts : List Part |
        parts.length ≤ pathLimit + 1}.Finite :=
    List.finite_length_le Part (pathLimit + 1)
  have hPairs :=
    ((Set.finite_le_nat pathLimit).prod hLists).image
      fun pair : Nat × List Part =>
        (⟨pair.1, pair.2.map Subtype.val⟩ : Path)
  refine hPairs.subset ?_
  intro path hShort
  rcases hShort.bounded with ⟨hSlashes, hLength, hParts⟩
  refine ⟨(path.slashes,
    path.segments.attachWith _ hParts), ⟨hSlashes, ?_⟩, ?_⟩
  · exact (List.length_attachWith).trans_le hLength
  · simp

/- The short paths. -/
noncomputable def shorts : Finset Path :=
  finite_setOf_isShort.toFinset

theorem mem_shorts_iff
    {path : Path} :
    path ∈ shorts ↔ path.IsShort := by
  simp [shorts]

end Path

/- What can be read has a short path. -/
theorem FileTree.isShort_of_read
    {content : List UInt8}
    (h : tree.read path = .ok content) :
    path.IsShort := by
  simp only [FileTree.read, FileTree.find] at h
  by_cases hNull : '\x00' ∈ path.text
  · simp [hNull] at h
  · by_cases hLong :
        pathLimit < (Utf8.encode path.text).length
    · simp [hNull, hLong] at h
    · exact Nat.le_of_not_lt hLong

theorem Roots.isShort_of_prepare
    {roots : Roots}
    (h : roots.prepare tree file = .ok prepared) :
    file.IsShort := by
  simp only [Roots.prepare, Roots.prepareWith] at h
  split at h
  · cases h
  · split at h
    · cases h
    · next hRead => exact FileTree.isShort_of_read hRead

-- Weights

/- A bound of the turns of a queued task, without others. -/
def queuedWeight : Nat := 6

namespace Point

/-
  More than the turns that a task has left, if it is not
  preparing, together with those of the tasks it submits, as
  long as these get no further than to prepare.
-/
def weight : Point → Nat
  | .entering => 5
  | .admitting => 4
  | .preparing => 3
  | .making prepared =>
      (queuedWeight + 1) * prepared.rendering.includes.length +
        5
  | .writing prepared =>
      (queuedWeight + 1) * prepared.rendering.includes.length +
        4
  | .recording _ includes =>
      (queuedWeight + 1) * includes.length + 3
  | .submitting includes =>
      (queuedWeight + 1) * includes.length + 2
  | .reporting _ => 2
  | .releasing => 1

end Point

/- The same for a stage. -/
def Stage.weight : Stage → Nat
  | .queued => queuedWeight
  | .running point => point.weight
  | .finished => 0
  | .cancelled => 0

/- The same for the lead. -/
def Lead.weight : Lead → Nat
  | .submitting files =>
      (queuedWeight + 1) * files.length + 6
  | .releasing => 5
  | .waiting => 4
  | .aborting _ => 3
  | .cancelling _ => 2
  | .joining _ => 1
  | .done _ => 0

namespace BuildState

variable {roots : Roots} {workers : Int}
variable {state after : BuildState}

/- The weight of all that is left to do. -/
def work
    (state : BuildState) : Nat :=
  (state.tasks.map fun task => task.stage.weight).sum +
    state.lead.weight

/- Is the task about to read a source of a short path? -/
noncomputable def readsShort
    (task : Task) : Bool :=
  decide (task.stage = .running .preparing) &&
    decide (task.file ∈ Path.shorts)

/-
  The short paths that were not read yet: those that no task
  was admitted for, and those that are about to be read.
-/
noncomputable def unread
    (state : BuildState) : Nat :=
  (Path.shorts \ state.seen.toFinset).card +
    state.tasks.countP readsShort

theorem sum_map_set
    (weigh : Task → Nat)
    {tasks : List Task}
    {old : Task}
    (new : Task)
    (h : tasks[index]? = some old) :
    ((tasks.set index new).map weigh).sum + weigh old =
      (tasks.map weigh).sum + weigh new := by
  induction tasks generalizing index with
  | nil => simp at h
  | cons first rest ih =>
      cases index with
      | zero =>
          simp only [List.getElem?_cons_zero,
            Option.some.injEq] at h
          subst h
          simp only [List.set_cons_zero, List.map_cons,
            List.sum_cons]
          omega
      | succ index =>
          simp only [List.getElem?_cons_succ] at h
          have hRest := ih h
          simp only [List.set_cons_succ, List.map_cons,
            List.sum_cons]
          omega

theorem work_settle
    {old : Stage}
    (h : state.tasks[index]? = some ⟨file, old⟩)
    (new : Stage) :
    (state.settle index file new).work + old.weight =
      state.work + new.weight := by
  have hSum :=
    sum_map_set (fun task => task.stage.weight)
      ⟨file, new⟩ h
  simp only [work, settle] at hSum ⊢
  omega

theorem work_submit_le
    (state : BuildState)
    (file : Path) :
    (state.submit file).work ≤
      state.work + queuedWeight := by
  cases hAborted : state.aborted with
  | true =>
      rw [submit_of_aborted hAborted]
      omega
  | false =>
      simp only [work, submit_tasks hAborted, submit_lead,
        List.map_append, List.sum_append, List.map_cons,
        List.map_nil, List.sum_cons, List.sum_nil,
        Stage.weight]
      omega

theorem unread_settle
    {old : Stage}
    (h : state.tasks[index]? = some ⟨file, old⟩)
    (new : Stage) :
    (state.settle index file new).unread +
        (if readsShort ⟨file, old⟩ then 1 else 0) =
      state.unread +
        (if readsShort ⟨file, new⟩ then 1 else 0) := by
  have hCount := countP_set readsShort ⟨file, new⟩ h
  simp only [unread, settle]
  omega

theorem not_readsShort
    {stage : Stage}
    (h : stage ≠ .running .preparing) :
    readsShort ⟨file, stage⟩ = false := by
  simp [readsShort, h]

theorem unread_submit
    (state : BuildState)
    (file : Path) :
    (state.submit file).unread = state.unread := by
  unfold submit
  split
  · rfl
  · simp [unread, not_readsShort]

theorem unread_release
    (state : BuildState) :
    state.release.unread = state.unread := by
  simp only [release]
  split <;> rfl

theorem unread_cancel_le
    (state : BuildState)
    (lead : Lead) :
    BuildState.unread
        { state with
          tasks := state.tasks.map cancelled
          lead := lead } ≤
      state.unread := by
  simp only [unread, List.countP_map]
  refine Nat.add_le_add_left
    (List.countP_mono_left fun task _ hReads => ?_) _
  simp only [Function.comp_apply, cancelled] at hReads
  split at hReads
  · simp [readsShort] at hReads
  · exact hReads

/- Cancelled tasks have no work left. -/
theorem sum_map_cancelled_le
    (tasks : List Task) :
    ((tasks.map cancelled).map
        fun task => task.stage.weight).sum ≤
      (tasks.map fun task => task.stage.weight).sum := by
  induction tasks with
  | nil => simp
  | cons task rest ih =>
      have hTask :
          (cancelled task).stage.weight ≤
            task.stage.weight := by
        simp only [cancelled]
        split
        · exact Nat.zero_le _
        · exact Nat.le_refl _
      simp only [List.map_cons, List.sum_cons]
      omega

/- The short path of a task that is admitted is read next. -/
theorem unread_admitted
    (h : state.tasks[index]? =
      some ⟨file, .running .admitting⟩)
    (hSeen : file ∉ state.seen) :
    (BuildState.settle
        { state with seen := file :: state.seen } index file
        (.running .preparing)).unread =
      state.unread := by
  have hCount :=
    unread_settle h (.running .preparing)
  have hOld :
      readsShort ⟨file, .running .admitting⟩ = false :=
    not_readsShort (by simp)
  simp only [unread, settle, List.toFinset_cons, hOld,
    Finset.sdiff_insert, Bool.false_eq_true, if_false]
    at hCount ⊢
  by_cases hShort : file ∈ Path.shorts
  · have hCard :=
      Finset.card_erase_add_one
        (s := Path.shorts \ state.seen.toFinset)
        (a := file) (by simp [hShort, hSeen])
    have hNew :
        readsShort ⟨file, .running .preparing⟩ = true := by
      simp [readsShort, hShort]
    simp only [hNew, if_true] at hCount
    omega
  · have hNew :
        readsShort ⟨file, .running .preparing⟩ = false := by
      simp [readsShort, hShort]
    rw [Finset.erase_eq_of_notMem (by simp [hShort])]
    simp only [hNew, Bool.false_eq_true, if_false] at hCount
    omega

-- Descent

/- First what is unread counts, then the work that is left. -/
noncomputable def rank
    (state : BuildState) : Nat × Nat :=
  (state.unread, state.work)

/- One rank is lower than another. -/
def Below : Nat × Nat → Nat × Nat → Prop :=
  Prod.Lex (· < ·) (· < ·)

theorem below_of_le_of_lt
    (hUnread : after.unread ≤ state.unread)
    (hWork : after.work < state.work) :
    Below after.rank state.rank :=
  Prod.Lex.right' _ hUnread hWork

/-
  A task that goes on without a read leaves less work, if
  what it adds elsewhere weighs less than its own progress.
-/
theorem below_of_settle
    (added : Nat)
    {old new : Stage}
    (hTask : middle.tasks[index]? = some ⟨file, old⟩)
    (hUnread : middle.unread ≤ state.unread)
    (hWork : middle.work ≤ state.work + added)
    (hNew : new ≠ .running .preparing)
    (hWeight : added + new.weight < old.weight) :
    Below (middle.settle index file new).rank state.rank := by
  have hCount := unread_settle hTask new
  have hSum := work_settle hTask new
  simp only [not_readsShort hNew, Bool.false_eq_true,
    if_false] at hCount
  exact below_of_le_of_lt (by omega) (by omega)

/- The same for a task that adds nothing elsewhere. -/
theorem below_of_quiet
    {old new : Point}
    (hTask :
      middle.tasks[index]? = some ⟨file, .running old⟩)
    (hUnread : middle.unread ≤ state.unread)
    (hWork : middle.work ≤ state.work)
    (hNew : new ≠ .preparing)
    (hWeight : new.weight < old.weight) :
    Below
      (middle.settle index file (.running new)).rank
      state.rank :=
  below_of_settle 0 hTask hUnread hWork
    (by simpa using hNew)
    (by simpa [Stage.weight] using hWeight)

theorem work_release
    (state : BuildState) :
    state.release.work = state.work := by
  simp only [release]
  split <;> rfl

/- A task that reads a source has read one more. -/
theorem below_of_prepared
    (hTask :
      state.tasks[index]? =
        some ⟨file, .running .preparing⟩)
    (hPrepared :
      roots.prepare state.tree file = .ok prepared) :
    Below
      (state.settle index file
        (.running (.making prepared))).rank state.rank := by
  have hShort := Path.mem_shorts_iff.mpr
    (Roots.isShort_of_prepare hPrepared)
  have hCount :=
    unread_settle hTask (.running (.making prepared))
  have hOld :
      readsShort ⟨file, .running .preparing⟩ = true := by
    simp [readsShort, hShort]
  have hNew :
      readsShort
        ⟨file, .running (.making prepared)⟩ = false :=
    not_readsShort (by simp)
  simp only [hOld, hNew, Bool.false_eq_true, if_true,
    if_false] at hCount
  exact .left _ _ (by omega)

theorem advance_descends
    {point : Point}
    (hTask :
      state.tasks[index]? = some ⟨file, .running point⟩) :
    Below
      ((state.advance roots file point).1.settle index file
        (state.advance roots file point).2).rank
      state.rank := by
  have hSame := Nat.le_refl state.unread
  have hWork := Nat.le_refl state.work
  cases point with
  | entering =>
      simp only [advance]
      split <;>
        exact below_of_quiet hTask hSame hWork (by simp)
          (by simp [Point.weight])
  | admitting =>
      simp only [advance]
      split
      · exact below_of_quiet hTask hSame hWork (by simp)
          (by simp [Point.weight])
      · next hSeen =>
          have hSum := work_settle hTask (.running .preparing)
          simp only [Stage.weight, Point.weight] at hSum
          refine below_of_le_of_lt
            (unread_admitted hTask hSeen).le ?_
          change (state.settle index file
            (.running .preparing)).work < state.work
          omega
  | preparing =>
      simp only [advance]
      split
      · exact below_of_quiet hTask hSame hWork (by simp)
          (by simp [Point.weight])
      · next hPrepared =>
          exact below_of_prepared hTask hPrepared
  | making prepared =>
      simp only [advance]
      split
      · exact below_of_quiet hTask hSame hWork (by simp)
          (by simp [Point.weight])
      · exact below_of_quiet hTask hSame hWork (by simp)
          (by simp only [Point.weight]; omega)
  | writing prepared =>
      simp only [advance]
      split
      · exact below_of_quiet hTask hSame hWork (by simp)
          (by simp [Point.weight])
      · exact below_of_quiet hTask hSame hWork (by simp)
          (by simp only [Point.weight]; omega)
  | recording target includes =>
      simp only [advance]
      exact below_of_quiet hTask hSame hWork (by simp)
        (by simp [Point.weight])
  | submitting includes =>
      cases includes with
      | nil =>
          simp only [advance]
          exact below_of_quiet hTask hSame hWork (by simp)
            (by simp [Point.weight])
      | cons include_ more =>
          simp only [advance]
          exact below_of_settle queuedWeight
            (submit_task hTask (file.included include_))
            (unread_submit _ _).le
            (work_submit_le _ _) (by simp)
            (by
              simp only [Stage.weight, Point.weight,
                List.length_cons, Nat.mul_add]
              omega)
  | reporting fault =>
      simp only [advance]
      exact below_of_quiet hTask hSame hWork (by simp)
        (by simp [Point.weight])
  | releasing =>
      have hReleased :
          state.release.tasks[index]? =
            some ⟨file, .running .releasing⟩ := by
        rwa [release_tasks]
      simp only [advance]
      exact below_of_settle 0 hReleased (unread_release _).le
        (work_release _).le (by simp)
        (by simp [Stage.weight, Point.weight])

/- A turn of the lead alone makes its own weight less. -/
theorem below_of_lead
    {lead : Lead}
    (hWeight : lead.weight < state.lead.weight) :
    Below (rank { state with lead := lead }) state.rank :=
  below_of_le_of_lt (Nat.le_refl _)
    (Nat.add_lt_add_left hWeight _)

/- Every turn leads to a lower rank. -/
theorem turn_descends
    {actor : Actor}
    (hTurn : Turn roots workers state actor after) :
    Below after.rank state.rank := by
  cases hTurn with
  | @leadSubmits file more hLead =>
      have hSubmit := work_submit_le state file
      refine below_of_le_of_lt (unread_submit state file).le ?_
      simp only [work, submit_lead, hLead, Lead.weight,
        List.length_cons, Nat.mul_add] at hSubmit ⊢
      omega
  | leadCloses hLead =>
      exact below_of_lead (by simp [hLead, Lead.weight])
  | leadReleases hLead =>
      have hRelease := work_release state
      refine below_of_le_of_lt (unread_release state).le ?_
      simp only [work, release_lead, hLead, Lead.weight]
        at hRelease ⊢
      omega
  | leadTakes hLead hMessages =>
      exact below_of_lead (by simp [hLead, Lead.weight])
  | leadAborts hLead =>
      exact below_of_lead (by simp [hLead, Lead.weight])
  | leadCancels hLead =>
      have hSum := sum_map_cancelled_le state.tasks
      refine below_of_le_of_lt (unread_cancel_le state _) ?_
      simp only [work, hLead, Lead.weight]
      omega
  | leadJoins hLead hIdle =>
      exact below_of_lead (by simp [hLead, Lead.weight])
  | taskStarts hTask hMay =>
      exact below_of_settle 0 hTask (Nat.le_refl _)
        (Nat.le_refl _) (by simp)
        (by simp [Stage.weight, Point.weight, queuedWeight])
  | taskRuns hTask => exact advance_descends hTask

/- There is no run without an end, from any state. -/
theorem wellFounded_step
    (roots : Roots)
    (workers : Int) :
    WellFounded fun after before =>
      Step roots workers before after := by
  have hBelow : WellFounded Below :=
    WellFounded.prod_lex Nat.lt_wfRel.wf Nat.lt_wfRel.wf
  refine Subrelation.wf ?_ (InvImage.wf rank hBelow)
  intro after before hStep
  rcases hStep.turn with ⟨actor, hTurn⟩
  exact turn_descends hTurn

-- Where Runs End

/- A run in order stops only when the lead is done. -/
theorem done_of_nextTurn?
    (hBooks : Accounted state)
    (hWorkers : 1 ≤ workers)
    (hNone : state.nextTurn? roots workers = none) :
    ∃ message, state.lead = .done message := by
  unfold nextTurn? at hNone
  split at hNone
  · cases hNone
  next hLead =>
    -- no task is open, since the next one would have a turn
    have hClosed (task : Task) (hMem : task ∈ state.tasks) :
        isOpen task ≠ true := by
      intro hOpen
      rcases nextTask?_of_isOpen roots hWorkers hMem hOpen
        with ⟨index, _, hNext, _, _, hSome⟩
      rw [hNext, Option.bind_some] at hNone
      simp [hNone] at hSome
    simp only [leadStep?] at hLead
    split at hLead
    · cases hLead
    · cases hLead
    · cases hLead
    · next hWaiting =>
        split at hLead
        · next hMessages =>
            rcases hBooks.exists_isOpen hWaiting hMessages with
              ⟨task, hMem, hOpen⟩
            exact absurd hOpen (hClosed task hMem)
        · cases hLead
    · cases hLead
    · cases hLead
    · split at hLead
      · next hAny =>
          rcases List.any_eq_true.mp hAny with
            ⟨task, hMem, hRuns⟩
          exact absurd (by simp [isOpen, hRuns])
            (hClosed task hMem)
      · cases hLead
    · next message hDone => exact ⟨message, hDone⟩

/- A run comes to a stop only when the lead is done. -/
theorem done_of_stuck
    (hBooks : Accounted state)
    (hWorkers : 1 ≤ workers)
    (hStuck : ∀ actor,
      state.step? roots workers actor = none) :
    ∃ message, state.lead = .done message := by
  have hLead : state.leadStep? = none := hStuck .lead
  have hNone : state.nextTurn? roots workers = none := by
    rw [nextTurn?, hLead]
    cases state.nextTask? with
    | none => rfl
    | some index => exact hStuck (.task index)
  exact done_of_nextTurn? hBooks hWorkers hNone

/- A lead that is done has an outcome. -/
theorem outcome?_of_done
    {message : Message}
    (h : state.lead = .done message) :
    ∃ outcome, state.outcome? = some outcome := by
  cases message with
  | finished => exact ⟨_, by rw [outcome?, h]⟩
  | failed fault => exact ⟨_, by rw [outcome?, h]⟩

-- Runs in Order

theorem step_of_nextTurn?
    (h : state.nextTurn? roots workers = some after) :
    Step roots workers state after := by
  unfold nextTurn? at h
  split at h
  · next hLead =>
      cases h
      exact ⟨.lead, hLead⟩
  · rcases Option.bind_eq_some_iff.mp h with
      ⟨index, _, hTask⟩
    exact ⟨.task index, hTask⟩

/- A run in order is a run, and one that has ended. -/
theorem reaches_runInOrder
    (roots : Roots)
    (workers : Int)
    (state : BuildState) :
    Reaches roots workers state
        (state.runInOrder roots workers) ∧
      (state.runInOrder roots workers).nextTurn? roots
        workers = none := by
  -- The induction is on the state, down to where it is stuck.
  induction state using
    (wellFounded_step roots workers).induction with
  | _ state ih =>
      cases hNext : state.nextTurn? roots workers with
      | none =>
          rw [runInOrder, hNext]
          exact ⟨.refl, hNext⟩
      | some after =>
          have hStep := step_of_nextTurn? hNext
          rcases ih after hStep with ⟨hReaches, hEnd⟩
          rw [runInOrder, hNext]
          exact ⟨(Reaches.step .refl hStep).trans hReaches,
            hEnd⟩

/- A run in order comes to an outcome. -/
theorem outcome?_runInOrder
    (roots : Roots)
    (hWorkers : 1 ≤ workers)
    (tree : FileTree)
    (files : List Path) :
    ∃ outcome,
      ((start tree files).runInOrder roots workers).outcome? =
        some outcome := by
  rcases reaches_runInOrder roots workers (start tree files)
    with ⟨hReaches, hEnd⟩
  rcases done_of_nextTurn? (accounted_of_reaches hReaches)
    hWorkers hEnd with ⟨message, hDone⟩
  exact outcome?_of_done hDone

end BuildState

end ThriftTypings
