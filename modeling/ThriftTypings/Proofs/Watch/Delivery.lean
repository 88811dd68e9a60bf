import Mathlib.Data.List.Forall2
import ThriftTypings.Watch.Watcher

/-
  This file proves what the loops of a watcher deliver. In
  every order of events each loop has begun one call for
  each batch that it took and that holds something that
  matters, in the order of the batches, with the paths of
  just those changes. Which calls raise an error makes no
  difference to this.

  What a turn can do is said once, by `Loop.Turns`. What is
  delivered follows from there, turn by turn and then event
  by event.

  Key definitions include:
    * `Delivered`
    * `Loop.Delivers`

  Key theorems include:
    * `Watcher.dialogue_run`
    * `Watcher.delivers_each_batch_once`
-/

namespace ThriftTypings

namespace Watch

variable {effect : Effect} {index : Nat} {directory : Text}
variable {debounce : Int}

-- Batches

/- Does something in the batch matter? -/
def matters
    (ignored : List Text)
    (batch : List Change) : Bool :=
  batch.any (Change.passes ignored)

/-
  The paths are those of the changes in the batch that
  matter, each once.
-/
structure Delivered
    (ignored : List Text)
    (batch : List Change)
    (paths : List Text) : Prop where
  nodup : paths.Nodup
  mem_iff : ∀ path, path ∈ paths ↔
    ∃ change ∈ batch, change.passes ignored = true ∧
      (Path.ofText change.path).text = path

theorem nodup_eraseDups
    (texts : List Text) :
    texts.eraseDups.Nodup := by
  induction hn : texts.length using Nat.strongRecOn
    generalizing texts with
  | ind n ih =>
      cases texts with
      | nil => exact List.nodup_nil
      | cons text more =>
          rw [List.eraseDups_cons, List.nodup_cons]
          constructor
          · simp
          · have hShort := List.length_filter_le
              (fun other => !other == text) more
            rw [List.length_cons] at hn
            exact ih _ (by omega) _ rfl

theorem delivered_relevant
    (ignored : List Text)
    (batch : List Change) :
    Delivered ignored batch (relevant ignored batch) := by
  constructor
  · exact (List.mergeSort_perm _ _).nodup_iff.mpr
      (nodup_eraseDups _)
  · intro path
    simp only [relevant, List.mem_mergeSort,
      List.mem_eraseDups, List.mem_map, List.mem_filter,
      and_assoc]

theorem relevant_isEmpty
    (ignored : List Text)
    (batch : List Change) :
    (relevant ignored batch).isEmpty =
      !matters ignored batch := by
  rw [Bool.eq_iff_iff, List.isEmpty_iff, Bool.not_eq_true',
    matters, List.any_eq_false, List.eq_nil_iff_forall_not_mem]
  have hRelevant := delivered_relevant ignored batch
  constructor
  · intro hNone change hMem hPasses
    exact hNone _ ((hRelevant.mem_iff _).mpr
      ⟨change, hMem, hPasses, rfl⟩)
  · intro hNone path hMem
    obtain ⟨change, hChange, hPasses, _⟩ :=
      (hRelevant.mem_iff path).mp hMem
    exact hNone change hChange hPasses

-- Turns

namespace Loop

/- What a turn can do, and the paths that a call begins with. -/
inductive Turns
    (ignored : List Text)
    (raises : Nat → Bool)
    (number : Nat) :
    Loop → Option (List Text) → Loop → Prop where
  | begins
      {script : Script}
      {left : List (List Change)}
      {calls : List Call} :
      Turns ignored raises number
        ⟨script, left, calls, .fresh⟩ none
        ⟨script, left, calls, .waiting⟩
  | passes
      {script : Script}
      {batch : List Change}
      {left : List (List Change)}
      {calls : List Call}
      (nothing : matters ignored batch = false) :
      Turns ignored raises number
        ⟨script, batch :: left, calls, .waiting⟩ none
        ⟨script, left, calls, .waiting⟩
  | delivers
      {script : Script}
      {batch : List Change}
      {left : List (List Change)}
      {calls : List Call}
      (something : matters ignored batch = true) :
      Turns ignored raises number
        ⟨script, batch :: left, calls, .waiting⟩
        (some (relevant ignored batch))
        ⟨script, left, calls,
          .calling number (relevant ignored batch)⟩
  | comesBack
      {script : Script}
      {left : List (List Change)}
      {calls : List Call}
      {called : Nat}
      {paths : List Text} :
      Turns ignored raises number
        ⟨script, left, calls, .calling called paths⟩ none
        ⟨script, left,
          calls ++
            [⟨paths,
              if raises called then .raised else .returned⟩],
          .waiting⟩
  | ends
      {batches : List (List Change)}
      {calls : List Call} :
      Turns ignored raises number
        ⟨⟨batches, .stops⟩, [], calls, .waiting⟩ none
        ⟨⟨batches, .stops⟩, [], calls, .ended⟩
  | fails
      {batches : List (List Change)}
      {calls : List Call}
      {message : Text} :
      Turns ignored raises number
        ⟨⟨batches, .fails message⟩, [], calls, .waiting⟩ none
        ⟨⟨batches, .fails message⟩, [], calls,
          .failed message⟩

variable {ignored : List Text} {raises : Nat → Bool}
variable {number : Nat} {loop after : Loop}
variable {paths? : Option (List Text)}

theorem turns_of_turn
    (h : loop.turn ignored raises number =
      some (paths?, after)) :
    Turns ignored raises number loop paths? after := by
  obtain ⟨script, left, calls, phase⟩ := loop
  cases phase with
  | fresh =>
      cases h
      exact .begins
  | waiting =>
      cases left with
      | nil =>
          obtain ⟨batches, ending⟩ := script
          cases ending with
          | stops =>
              cases h
              exact .ends
          | blocks => cases h
          | fails message =>
              cases h
              exact .fails
      | cons batch more =>
          simp only [turn, relevant_isEmpty] at h
          cases hMatters : matters ignored batch with
          | false =>
              simp only [hMatters, Bool.not_false, if_true,
                Option.some.injEq, Prod.mk.injEq] at h
              obtain ⟨rfl, rfl⟩ := h
              exact .passes hMatters
          | true =>
              simp only [hMatters, Bool.not_true,
                Bool.false_eq_true, if_false,
                Option.some.injEq, Prod.mk.injEq] at h
              obtain ⟨rfl, rfl⟩ := h
              exact .delivers hMatters
  | calling called paths =>
      cases h
      exact .comesBack
  | ended => cases h
  | failed message => cases h
  | cancelled => cases h

/-
  The loop is at rest: it is over, or it waits for a batch
  that does not come.
-/
def Rests
    (loop : Loop) : Prop :=
  loop.isLive = false ∨
    loop.phase = .waiting ∧ loop.left = [] ∧
      loop.script.ending = .blocks

theorem rests_of_turn_eq_none
    (h : loop.turn ignored raises number = none) :
    loop.Rests := by
  obtain ⟨script, left, calls, phase⟩ := loop
  cases phase with
  | waiting =>
      cases left with
      | nil =>
          obtain ⟨batches, ending⟩ := script
          cases ending with
          | blocks => exact .inr ⟨rfl, rfl, rfl⟩
          | stops => cases h
          | fails message => cases h
      | cons batch more =>
          simp only [turn] at h
          split at h <;> cases h
  | fresh => cases h
  | calling called paths => cases h
  | ended => exact .inl rfl
  | failed message => exact .inl rfl
  | cancelled => exact .inl rfl

theorem Turns.isLive
    (h : Turns ignored raises number loop paths? after) :
    loop.isLive = true := by
  cases h <;> rfl

theorem Turns.turnsLeft_lt
    (h : Turns ignored raises number loop paths? after) :
    after.turnsLeft < loop.turnsLeft := by
  cases h <;> simp only [turnsLeft, List.length_cons] <;>
    omega

theorem Turns.script
    (h : Turns ignored raises number loop paths? after) :
    after.script = loop.script := by
  cases h <;> rfl

theorem Turns.not_cancelled
    (h : Turns ignored raises number loop paths? after) :
    after.phase ≠ .cancelled := by
  cases h <;> exact nofun

-- What a Loop Delivers

/- The paths of the call that goes on, if there is one. -/
def current
    (loop : Loop) : List (List Text) :=
  match loop.phase with
  | .calling _ paths => [paths]
  | _ => []

/- The paths of all calls that the loop has begun. -/
def called
    (loop : Loop) : List (List Text) :=
  loop.calls.map Call.paths ++ loop.current

/-
  The loop has begun one call for each batch that it took
  and that matters, in order. It has come to an end, or has
  failed, only after the last batch and as its script says.
-/
structure Delivers
    (ignored : List Text)
    (loop : Loop) : Prop where
  taken : ∃ taken,
    loop.script.batches = taken ++ loop.left ∧
      List.Forall₂ (Delivered ignored)
        (taken.filter (matters ignored)) loop.called
  ended : loop.phase = .ended →
    loop.left = [] ∧ loop.script.ending = .stops
  failed : ∀ message, loop.phase = .failed message →
    loop.left = [] ∧ loop.script.ending = .fails message

theorem delivers_new
    (ignored : List Text)
    (script : Script) :
    Delivers ignored (new script) where
  taken := ⟨[], rfl, .nil⟩
  ended := nofun
  failed := nofun

theorem called_cancel
    (loop : Loop) :
    loop.cancel.called = loop.called := by
  obtain ⟨script, left, calls, phase⟩ := loop
  cases phase <;> simp [cancel, called, current]

theorem Turns.called
    (h : Turns ignored raises number loop paths? after) :
    after.called = loop.called ++ paths?.toList := by
  cases h <;> simp [Loop.called, current]

theorem Delivers.turn
    (h : Delivers ignored loop)
    (hTurn : Turns ignored raises number loop paths? after) :
    Delivers ignored after := by
  obtain ⟨taken, hTaken, hCalled⟩ := h.taken
  have hAfter := hTurn.called
  cases hTurn with
  | begins => exact ⟨⟨taken, hTaken, hCalled⟩, nofun, nofun⟩
  | @passes script batch left calls nothing =>
      refine ⟨⟨taken ++ [batch], by simpa using hTaken, ?_⟩,
        nofun, nofun⟩
      rw [List.filter_append, List.filter_singleton, nothing,
        hAfter]
      simpa using hCalled
  | @delivers script batch left calls something =>
      refine ⟨⟨taken ++ [batch], by simpa using hTaken, ?_⟩,
        nofun, nofun⟩
      rw [List.filter_append, List.filter_singleton,
        something, hAfter]
      exact List.rel_append hCalled
        (.cons (delivered_relevant ignored batch) .nil)
  | comesBack =>
      refine ⟨⟨taken, hTaken, ?_⟩, nofun, nofun⟩
      rw [hAfter]
      simpa using hCalled
  | ends =>
      exact ⟨⟨taken, hTaken, hCalled⟩, fun _ => ⟨rfl, rfl⟩,
        nofun⟩
  | fails =>
      refine ⟨⟨taken, hTaken, hCalled⟩, nofun, ?_⟩
      intro message hFailed
      cases hFailed
      exact ⟨rfl, rfl⟩

/- A loop that was cancelled keeps what it has delivered. -/
theorem Delivers.cancel
    (h : Delivers ignored loop) :
    Delivers ignored loop.cancel := by
  obtain ⟨taken, hTaken, hCalled⟩ := h.taken
  rw [← called_cancel] at hCalled
  obtain ⟨script, left, calls, phase⟩ := loop
  cases phase with
  | fresh => exact ⟨⟨taken, hTaken, hCalled⟩, nofun, nofun⟩
  | waiting => exact ⟨⟨taken, hTaken, hCalled⟩, nofun, nofun⟩
  | calling called paths =>
      exact ⟨⟨taken, hTaken, hCalled⟩, nofun, nofun⟩
  | ended => exact h
  | failed message => exact h
  | cancelled => exact h

end Loop

-- Watchers

/- The paths of the call that an effect begins, if any. -/
def Effect.paths? : Effect → Option (List Text)
  | .called paths => some paths
  | _ => none

@[simp] theorem Effect.paths?_ofPaths
    (paths? : Option (List Text)) :
    (ofPaths paths?).paths? = paths? := by
  cases paths? <;> rfl

/- The calls that a history shows, by their paths. -/
def callsOf
    (history : List (Event × Effect)) : List (List Text) :=
  history.filterMap fun happened => happened.2.paths?

theorem callsOf_append
    (history : List (Event × Effect))
    (event : Event)
    (effect : Effect) :
    callsOf (history ++ [(event, effect)]) =
      callsOf history ++ effect.paths?.toList := by
  rw [callsOf, List.filterMap_append, ← callsOf]
  cases hPaths : effect.paths? <;> simp [hPaths]

namespace Watcher

variable {ignored : List Text}
variable {history : List (Event × Effect)}
variable {raises : Nat → Bool}
variable {watcher after : Watcher}

/- A loop that goes on, or whose error is still to be seen. -/
def IsOpen
    (loop : Loop) : Prop :=
  loop.isLive = true ∨ ∃ message, loop.phase = .failed message

theorem not_isOpen_cancel
    {loop : Loop}
    (h : ∀ message, loop.phase = .failed message → False) :
    ¬IsOpen loop.cancel := by
  obtain ⟨script, left, calls, phase⟩ := loop
  cases phase with
  | failed message => exact (h message rfl).elim
  | fresh => simp [IsOpen, Loop.cancel, Loop.isLive]
  | waiting => simp [IsOpen, Loop.cancel, Loop.isLive]
  | calling called paths =>
      simp [IsOpen, Loop.cancel, Loop.isLive]
  | ended => simp [IsOpen, Loop.cancel, Loop.isLive]
  | cancelled => simp [IsOpen, Loop.cancel, Loop.isLive]

/-
  What holds of a watcher after any history. Every loop
  delivers what it should, a loop that is open is the one
  that is held, and it is the last that began.
-/
structure Sound
    (ignored : List Text)
    (history : List (Event × Effect))
    (watcher : Watcher) : Prop where
  filter : watcher.ignored = ignored
  delivers : ∀ loop ∈ watcher.loops, loop.Delivers ignored
  kept : ∀ index loop,
    watcher.loops[index]? = some loop → IsOpen loop →
      watcher.held = some index
  last : ∀ index, watcher.held = some index →
    index + 1 = watcher.loops.length
  calls : callsOf history =
    watcher.loops.flatMap Loop.called

theorem sound_new
    (directory : Text)
    (ignored : List Text)
    (debounce : Int) :
    Sound ignored [] (new directory ignored debounce) where
  filter := rfl
  delivers := nofun
  kept := nofun
  last := nofun
  calls := rfl

theorem holding?_eq_some_iff
    {loop : Loop} :
    watcher.holding? = some (index, loop) ↔
      watcher.held = some index ∧
        watcher.loops[index]? = some loop := by
  simp only [holding?, Option.bind_eq_some_iff,
    Option.map_eq_some_iff, Prod.mk.injEq]
  constructor
  · rintro ⟨_, hHeld, _, hLoop, rfl, rfl⟩
    exact ⟨hHeld, hLoop⟩
  · rintro ⟨hHeld, hLoop⟩
    exact ⟨index, hHeld, loop, hLoop, rfl, rfl⟩

/- What a turn of a loop does to the watcher. -/
theorem turn_eq_some
    (h : watcher.turn raises index = some (effect, after)) :
    ∃ loop paths? moved,
      watcher.loops[index]? = some loop ∧
        loop.Turns watcher.ignored raises watcher.number
          paths? moved ∧
        effect = .ofPaths paths? ∧
        after =
          { watcher with
            loops := watcher.loops.set index moved
            number :=
              watcher.number + paths?.toList.length } := by
  simp only [turn, Option.bind_eq_bind,
    Option.bind_eq_some_iff, Option.some.injEq,
    Prod.mk.injEq] at h
  obtain ⟨loop, hLoop, ⟨paths?, moved⟩, hTurn, rfl, rfl⟩ := h
  exact ⟨loop, paths?, moved, hLoop,
    Loop.turns_of_turn hTurn, rfl, rfl⟩

namespace Sound

/- The loop that is held stands at the end. -/
theorem split_loops
    {loop : Loop}
    (h : Sound ignored history watcher)
    (hHeld : watcher.held = some index)
    (hLoop : watcher.loops[index]? = some loop) :
    ∃ front, watcher.loops = front ++ [loop] ∧
      ∀ other, watcher.loops.set index other =
        front ++ [other] := by
  obtain ⟨hIndex, rfl⟩ := List.getElem?_eq_some_iff.mp hLoop
  have hSplit : watcher.loops.take index ++
      [watcher.loops[index]] = watcher.loops := by
    rw [List.take_append_getElem, h.last index hHeld,
      List.take_length]
  refine ⟨watcher.loops.take index, hSplit.symm, ?_⟩
  intro other
  have hFront : (watcher.loops.take index).length = index :=
    List.length_take_of_le (Nat.le_of_lt hIndex)
  conv_lhs => rw [← hSplit]
  rw [List.set_append_right _ _ (Nat.le_of_eq hFront), hFront,
    Nat.sub_self]
  rfl

/- What neither moves the watcher nor calls changes nothing. -/
theorem idle
    (h : Sound ignored history watcher)
    (hSilent : effect.paths? = none)
    (event : Event) :
    Sound ignored (history ++ [(event, effect)]) watcher where
  filter := h.filter
  delivers := h.delivers
  kept := h.kept
  last := h.last
  calls := by
    rw [callsOf_append, hSilent, Option.toList_none,
      List.append_nil, h.calls]

/-
  The loop that is held may be replaced by what becomes of
  it, and let go of if that is not open.
-/
theorem replace
    {loop other : Loop}
    (h : Sound ignored history watcher)
    (hHeld : watcher.held = some index)
    (hLoop : watcher.loops[index]? = some loop)
    (hDelivers : other.Delivers ignored)
    (hCalled : other.called =
      loop.called ++ effect.paths?.toList)
    (hFilter : after.ignored = watcher.ignored)
    (hLoops : after.loops = watcher.loops.set index other)
    (hAfter : after.held = some index ∨
      after.held = none ∧ ¬IsOpen other)
    (event : Event) :
    Sound ignored (history ++ [(event, effect)]) after := by
  obtain ⟨front, hFront, hSet⟩ := h.split_loops hHeld hLoop
  rw [hSet] at hLoops
  refine ⟨hFilter.trans h.filter, ?_, ?_, ?_, ?_⟩
  · intro found hMem
    rw [hLoops] at hMem
    rcases List.mem_append.mp hMem with hOld | hNew
    · refine h.delivers found ?_
      rw [hFront]
      exact List.mem_append_left _ hOld
    · rw [List.mem_singleton.mp hNew]
      exact hDelivers
  · intro place found hFound hOpen
    rw [hLoops, ← hSet, List.getElem?_set] at hFound
    split at hFound
    · next hSame =>
        subst hSame
        split at hFound
        · cases hFound
          rcases hAfter with hAfter | ⟨_, hOther⟩
          · exact hAfter
          · exact absurd hOpen hOther
        · cases hFound
    · next hOther =>
        -- only the loop that is held is open
        have hPlace := h.kept place found hFound hOpen
        rw [hHeld] at hPlace
        exact absurd (Option.some.inj hPlace) hOther
  · intro place hPlace
    rcases hAfter with hAfter | ⟨hAfter, _⟩
    · rw [hAfter] at hPlace
      cases hPlace
      rw [hLoops, ← hSet, List.length_set]
      exact h.last index hHeld
    · rw [hAfter] at hPlace
      cases hPlace
  · rw [callsOf_append, h.calls, hLoops, hFront]
    simp [hCalled]

theorem start
    (h : Sound ignored history watcher)
    (script : Script) :
    Sound ignored
      (history ++
        [(.start script, (watcher.start script).1)])
      (watcher.start script).2 := by
  rw [Watcher.start]
  cases hHeld : watcher.held with
  | some index => exact h.idle rfl _
  | none =>
      refine ⟨h.filter, ?_, ?_, ?_, ?_⟩
      · intro loop hMem
        rcases List.mem_append.mp hMem with hOld | hNew
        · exact h.delivers loop hOld
        · rw [List.mem_singleton.mp hNew]
          exact Loop.delivers_new ignored script
      · intro index loop hLoop hOpen
        rcases Nat.lt_or_ge index watcher.loops.length with
          hOld | hNew
        · -- no older loop is open, since none is held
          rw [List.getElem?_append_left hOld] at hLoop
          rw [h.kept index loop hLoop hOpen] at hHeld
          cases hHeld
        · obtain ⟨hIndex, -⟩ :=
            List.getElem?_eq_some_iff.mp hLoop
          rw [List.length_append, List.length_singleton]
            at hIndex
          exact congrArg some (by omega)
      · intro index hIndex
        cases hIndex
        simp
      · rw [callsOf_append, h.calls, List.flatMap_append]
        rfl

theorem stop
    (h : Sound ignored history watcher) :
    Sound ignored (history ++ [(.stop, watcher.stop.1)])
      watcher.stop.2 := by
  rw [Watcher.stop]
  cases hHolding : watcher.holding? with
  | none =>
      have hSame : Sound ignored
          (history ++ [(.stop, .nothing)]) watcher :=
        h.idle rfl _
      refine ⟨hSame.filter, hSame.delivers, ?_, nofun,
        hSame.calls⟩
      intro index loop hLoop hOpen
      have hHeld := h.kept index loop hLoop hOpen
      rw [holding?_eq_some_iff.mpr ⟨hHeld, hLoop⟩] at hHolding
      cases hHolding
  | some pair =>
      obtain ⟨index, loop⟩ := pair
      obtain ⟨hHeld, hLoop⟩ := holding?_eq_some_iff.mp hHolding
      dsimp only
      split
      · exact h.idle rfl _
      · next hNotFailed =>
          have hDelivers := h.delivers loop
            (List.mem_of_getElem? hLoop)
          refine h.replace hHeld hLoop hDelivers.cancel
            ?_ ?_ ?_ (.inr ⟨?_, ?_⟩) _
          · rw [Loop.called_cancel]
            exact (List.append_nil _).symm
          · rfl
          · rfl
          · rfl
          · exact not_isOpen_cancel hNotFailed

theorem turn
    (h : Sound ignored history watcher)
    (hTurn : watcher.turn raises index =
      some (effect, after)) :
    Sound ignored (history ++ [(.turn index, effect)])
      after := by
  obtain ⟨loop, paths?, moved, hLoop, hTurns, rfl, rfl⟩ :=
    turn_eq_some hTurn
  have hHeld := h.kept index loop hLoop (.inl hTurns.isLive)
  have hDelivers := h.delivers loop (List.mem_of_getElem? hLoop)
  rw [h.filter] at hTurns
  refine h.replace hHeld hLoop (hDelivers.turn hTurns)
    ?_ ?_ ?_ (.inl ?_) _
  · rw [hTurns.called, Effect.paths?_ofPaths]
  · rfl
  · rfl
  · exact hHeld

theorem wait
    (h : Sound ignored history watcher)
    (hWait : watcher.wait = some (effect, after)) :
    Sound ignored (history ++ [(.wait, effect)]) after := by
  rw [Watcher.wait] at hWait
  split at hWait
  · cases hWait
    exact h.idle rfl _
  · split at hWait
    · cases hWait
      exact h.idle rfl _
    · split at hWait
      · cases hWait
      · cases hWait
        exact h.idle rfl _

/- One event keeps a watcher sound, whichever it is. -/
theorem act
    {event : Event}
    (h : Sound ignored history watcher)
    (hAct : watcher.act raises event = some (effect, after)) :
    Sound ignored (history ++ [(event, effect)]) after := by
  cases event with
  | start script =>
      have hStart := h.start script
      rw [Option.some.inj hAct] at hStart
      exact hStart
  | stop =>
      have hStop := h.stop
      rw [Option.some.inj hAct] at hStop
      exact hStop
  | wait => exact h.wait hAct
  | turn index => exact h.turn hAct

end Sound

theorem sound_of_reaches
    (h : Reaches raises (new directory ignored debounce)
      history watcher) :
    Sound ignored history watcher := by
  induction h with
  | refl => exact sound_new directory ignored debounce
  | step before happens ih => exact ih.act happens

-- Failed Loops

/- The loop that is held has failed with a message. -/
def FailedWith
    (watcher : Watcher)
    (message : Text) : Prop :=
  ∃ index loop,
    watcher.holding? = some (index, loop) ∧
      loop.phase = .failed message

namespace FailedWith

variable {message : Text}

theorem start
    (h : watcher.FailedWith message)
    (script : Script) :
    watcher.start script = (.nothing, watcher) := by
  obtain ⟨index, loop, hHolding, -⟩ := h
  rw [Watcher.start, (holding?_eq_some_iff.mp hHolding).1]

theorem stop
    (h : watcher.FailedWith message) :
    watcher.stop = (.raised message, watcher) := by
  obtain ⟨index, loop, hHolding, hPhase⟩ := h
  simp only [Watcher.stop, hHolding, hPhase]

theorem wait
    (h : watcher.FailedWith message) :
    watcher.wait = some (.raised message, watcher) := by
  obtain ⟨index, loop, hHolding, hPhase⟩ := h
  simp only [Watcher.wait, hHolding, hPhase]

/- A loop that has failed stays, whatever happens. -/
theorem act
    {event : Event}
    (h : watcher.FailedWith message)
    (hAct : watcher.act raises event = some (effect, after)) :
    after.FailedWith message := by
  cases event with
  | start script =>
      rw [Watcher.act, h.start script] at hAct
      cases hAct
      exact h
  | stop =>
      rw [Watcher.act, h.stop] at hAct
      cases hAct
      exact h
  | wait =>
      rw [Watcher.act, h.wait] at hAct
      cases hAct
      exact h
  | turn place =>
      obtain ⟨index, loop, hHolding, hPhase⟩ := h
      obtain ⟨hHeld, hLoop⟩ := holding?_eq_some_iff.mp hHolding
      obtain ⟨found, paths?, moved, hFound, hTurns, rfl, rfl⟩ :=
        turn_eq_some hAct
      -- a loop that has failed has no turn, so it is another
      have hOther : place ≠ index := by
        rintro rfl
        rw [hLoop] at hFound
        cases hFound
        have hLive := hTurns.isLive
        simp [Loop.isLive, hPhase] at hLive
      refine ⟨index, loop, ?_, hPhase⟩
      refine holding?_eq_some_iff.mpr ⟨hHeld, ?_⟩
      rw [List.getElem?_set_ne hOther]
      exact hLoop

theorem reaches
    {more : List (Event × Effect)}
    {later : Watcher}
    (h : watcher.FailedWith message)
    (hReaches : Reaches raises watcher more later) :
    later.FailedWith message := by
  induction hReaches with
  | refl => exact h
  | step before happens ih => exact ih.act happens

end FailedWith

/- A loop that has failed is the one that is held. -/
theorem Sound.failedWith
    {loop : Loop}
    {message : Text}
    (h : Sound ignored history watcher)
    (hMem : loop ∈ watcher.loops)
    (hPhase : loop.phase = .failed message) :
    watcher.FailedWith message := by
  obtain ⟨index, hLoop⟩ := List.mem_iff_getElem?.mp hMem
  have hHeld := h.kept index loop hLoop
    (.inr ⟨message, hPhase⟩)
  exact ⟨index, loop,
    holding?_eq_some_iff.mpr ⟨hHeld, hLoop⟩, hPhase⟩

/- Stopping lets go of a loop, unless it has failed. -/
theorem stop_cases
    (watcher : Watcher) :
    (∃ message, watcher.FailedWith message) ∨
      watcher.stop.1 = .nothing ∧
        watcher.stop.2.held = none := by
  rw [stop]
  cases hHolding : watcher.holding? with
  | none => exact .inr ⟨rfl, rfl⟩
  | some pair =>
      obtain ⟨index, loop⟩ := pair
      dsimp only
      split
      · next message hFailed =>
          exact .inl ⟨message, index, loop, hHolding, hFailed⟩
      · exact .inr ⟨rfl, rfl⟩

/- Waiting comes back with nothing, unless it has failed. -/
theorem wait_cases
    (watcher : Watcher) :
    (∃ message, watcher.FailedWith message) ∨
      watcher.wait = none ∨
      watcher.wait = some (.nothing, watcher) := by
  rw [wait]
  cases hHolding : watcher.holding? with
  | none => exact .inr (.inr rfl)
  | some pair =>
      obtain ⟨index, loop⟩ := pair
      dsimp only
      split
      · next message hFailed =>
          exact .inl ⟨message, index, loop, hHolding, hFailed⟩
      · split
        · exact .inr (.inl rfl)
        · exact .inr (.inr rfl)

-- Errors of the Callback

end Watcher

/- The outcome as if no call raised an error. -/
def Outcome.silenced : Outcome → Outcome
  | .returned => .returned
  | .raised => .returned
  | .interrupted => .interrupted

def Call.silenced
    (call : Call) : Call :=
  { call with outcome := call.outcome.silenced }

def Loop.silenced
    (loop : Loop) : Loop :=
  { loop with calls := loop.calls.map Call.silenced }

theorem Loop.cancel_silenced
    (loop : Loop) :
    loop.silenced.cancel = loop.cancel.silenced := by
  obtain ⟨script, left, calls, phase⟩ := loop
  cases phase <;>
    simp [Loop.silenced, Loop.cancel, Call.silenced,
      Outcome.silenced]

theorem Loop.turn_silenced
    (ignored : List Text)
    (raises : Nat → Bool)
    (number : Nat)
    (loop : Loop) :
    loop.silenced.turn ignored (fun _ => false) number =
      (loop.turn ignored raises number).map
        (Prod.map id Loop.silenced) := by
  obtain ⟨script, left, calls, phase⟩ := loop
  cases phase with
  | fresh => rfl
  | waiting =>
      cases left with
      | nil =>
          obtain ⟨batches, ending⟩ := script
          cases ending <;> rfl
      | cons batch more =>
          simp only [turn, Loop.silenced]
          split <;> rfl
  | calling called paths =>
      cases hRaises : raises called <;>
        simp [turn, Loop.silenced, Call.silenced,
          Outcome.silenced, hRaises]
  | ended => rfl
  | failed message => rfl
  | cancelled => rfl

namespace Watcher

variable {ignored : List Text}
variable {history : List (Event × Effect)}
variable {raises : Nat → Bool}
variable {watcher after : Watcher}

/- The watcher as if no call had raised an error. -/
def silenced
    (watcher : Watcher) : Watcher :=
  { watcher with loops := watcher.loops.map Loop.silenced }

theorem holding?_silenced
    (watcher : Watcher) :
    watcher.silenced.holding? =
      watcher.holding?.map (Prod.map id Loop.silenced) := by
  obtain ⟨_, _, _, loops, held, _⟩ := watcher
  cases held with
  | none => rfl
  | some index =>
      simp only [holding?, silenced, Option.bind_some,
        List.getElem?_map]
      cases loops[index]? <;> rfl

/- Which calls raise an error makes no difference. -/
theorem act_silenced
    (raises : Nat → Bool)
    (watcher : Watcher)
    (event : Event) :
    watcher.silenced.act (fun _ => false) event =
      (watcher.act raises event).map
        (Prod.map id silenced) := by
  cases event with
  | start script =>
      obtain ⟨_, _, _, loops, held, _⟩ := watcher
      cases held with
      | some index => rfl
      | none =>
          simp [act, start, silenced, Loop.silenced, Loop.new]
  | stop =>
      simp only [act, stop, holding?_silenced]
      cases watcher.holding? with
      | none => rfl
      | some pair =>
          obtain ⟨index, loop⟩ := pair
          have hPhase : loop.silenced.phase = loop.phase := rfl
          simp only [Option.map_some, Prod.map, id, hPhase,
            Loop.cancel_silenced]
          cases loop.phase <;> simp [silenced, List.map_set]
  | wait =>
      simp only [act, wait, holding?_silenced]
      cases watcher.holding? with
      | none => rfl
      | some pair =>
          obtain ⟨index, script, left, calls, phase⟩ := pair
          cases phase <;> rfl
  | turn index =>
      simp only [act, turn, silenced, List.getElem?_map]
      cases watcher.loops[index]? with
      | none => rfl
      | some loop =>
          simp only [Option.map_some, Option.bind_eq_bind,
            Option.bind_some, Loop.turn_silenced _ raises]
          cases loop.turn watcher.ignored raises
              watcher.number with
          | none => rfl
          | some pair => simp [silenced, List.map_set]

theorem exists_twin
    {first : Watcher}
    (h : Reaches raises first history watcher)
    (others : Nat → Bool) :
    ∃ twin, Reaches others first history twin ∧
      twin.silenced = watcher.silenced := by
  induction h with
  | refl => exact ⟨first, .refl, rfl⟩
  | @step history middle final event effect before happens
      ih =>
      obtain ⟨twin, hTwin, hAlike⟩ := ih
      have hBoth : (twin.act others event).map
            (Prod.map id silenced) =
          some (effect, final.silenced) := by
        rw [← act_silenced, hAlike, act_silenced raises,
          happens]
        rfl
      obtain ⟨⟨found, last⟩, hLast, hPair⟩ :=
        Option.map_eq_some_iff.mp hBoth
      obtain ⟨rfl, hSame⟩ := Prod.mk.inj hPair
      exact ⟨last, .step hTwin hLast, hSame⟩

-- Loops at Rest

theorem Reaches.trans
    {first second third : Watcher}
    {earlier later : List (Event × Effect)}
    (h : Reaches raises first earlier second)
    (hMore : Reaches raises second later third) :
    Reaches raises first (earlier ++ later) third := by
  induction hMore with
  | refl =>
      rw [List.append_nil]
      exact h
  | step before happens ih =>
      rw [← List.append_assoc]
      exact .step ih happens

/- A loop without a turn is at rest. -/
theorem rests_of_turn_eq_none
    {loop : Loop}
    (hLoop : watcher.loops[index]? = some loop)
    (h : watcher.turn raises index = none) :
    loop.Rests := by
  simp only [turn, hLoop, Option.bind_eq_bind,
    Option.bind_some] at h
  cases hTurn : loop.turn watcher.ignored raises
      watcher.number with
  | none => exact Loop.rests_of_turn_eq_none hTurn
  | some pair =>
      rw [hTurn] at h
      cases h

/- A loop that takes all its turns comes to rest. -/
theorem settled_rests
    (raises : Nat → Bool)
    {index turns : Nat}
    {loop : Loop}
    (hLoop : watcher.loops[index]? = some loop)
    (hTurns : loop.turnsLeft ≤ turns)
    (hPhase : loop.phase ≠ .cancelled) :
    ∃ more last,
      Reaches raises watcher more
          (settled raises index turns watcher) ∧
        (settled raises index turns watcher).loops[index]? =
          some last ∧
        last.script = loop.script ∧
        last.phase ≠ .cancelled ∧
        last.Rests := by
  induction turns generalizing watcher loop with
  | zero =>
      refine ⟨[], loop, .refl, hLoop, rfl, hPhase, .inl ?_⟩
      obtain ⟨script, left, calls, phase⟩ := loop
      cases phase <;> simp_all [Loop.turnsLeft, Loop.isLive]
  | succ turns ih =>
      rw [settled]
      cases hTurn : watcher.turn raises index with
      | none =>
          exact ⟨[], loop, .refl, hLoop, rfl, hPhase,
            rests_of_turn_eq_none hLoop hTurn⟩
      | some pair =>
          obtain ⟨effect, after⟩ := pair
          obtain ⟨found, paths?, moved, hFound, hMoves, -,
            hAfter⟩ := turn_eq_some hTurn
          rw [hLoop] at hFound
          cases hFound
          have hIndex :=
            (List.getElem?_eq_some_iff.mp hLoop).1
          have hMoved : after.loops[index]? = some moved := by
            rw [hAfter]
            exact List.getElem?_set_self hIndex
          have hFewer := hMoves.turnsLeft_lt
          obtain ⟨more, last, hMore, hLast, hScript, hEnd,
            hRests⟩ := ih hMoved (by omega)
              hMoves.not_cancelled
          have hAct : watcher.act raises (.turn index) =
              some (effect, after) := hTurn
          exact ⟨_, last,
            (Reaches.refl.step hAct).trans hMore, hLast,
            hScript.trans hMoves.script, hEnd, hRests⟩

/- A loop that came to rest by itself has delivered all. -/
theorem delivered_all
    {loop : Loop}
    (h : loop.Delivers ignored)
    (hPhase : loop.phase ≠ .cancelled)
    (hRests : loop.Rests) :
    List.Forall₂ (Delivered ignored)
      (loop.script.batches.filter (matters ignored))
      (loop.calls.map Call.paths) := by
  obtain ⟨taken, hTaken, hCalled⟩ := h.taken
  have hLast : loop.left = [] ∧ loop.current = [] := by
    rcases hRests with hOver | ⟨hWaits, hLeft, -⟩
    · rw [Loop.isLive] at hOver
      rw [Loop.current]
      cases hEnd : loop.phase with
      | ended => exact ⟨(h.ended hEnd).1, rfl⟩
      | failed message =>
          exact ⟨(h.failed message hEnd).1, rfl⟩
      | cancelled => exact absurd hEnd hPhase
      | fresh => simp [hEnd] at hOver
      | waiting => simp [hEnd] at hOver
      | calling called paths => simp [hEnd] at hOver
    · rw [Loop.current, hWaits]
      exact ⟨hLeft, rfl⟩
  rw [Loop.called, hLast.2, List.append_nil] at hCalled
  rw [hTaken, hLast.1, List.append_nil]
  exact hCalled

-- Requests

/-
  A request is answered as it should be. A start that finds
  no loop held begins one, and comes back with the calls for
  all batches that matter. Nothing else makes a call. Only a
  stop or a wait brings an error, that of the loop held.
-/
structure Answered
    (ignored : List Text)
    (raises : Nat → Bool)
    (watcher : Watcher)
    (request : Request)
    (reply : Reply)
    (after : Watcher) : Prop where
  reaches : ∃ more, Reaches raises watcher more after
  starts : ∀ script, request = .start script →
    watcher.held = none →
      reply.began = true ∧
        List.Forall₂ (Delivered ignored)
          (script.batches.filter (matters ignored))
          (reply.calls.map Call.paths)
  rests : (∀ script, request = .start script →
      watcher.held ≠ none) →
    reply.began = false ∧ reply.calls = []
  error_iff : ∀ message, reply.error = some message ↔
    (request = .stop ∨ request = .wait) ∧
      watcher.FailedWith message

/- Requests in turn, each answered as it should be. -/
inductive Dialogue
    (ignored : List Text)
    (raises : Nat → Bool) :
    Watcher → List Request → List (Reply × Watcher) →
      Prop where
  | nil
      {watcher : Watcher} :
      Dialogue ignored raises watcher [] []
  | cons
      {watcher after : Watcher}
      {request : Request}
      {reply : Reply}
      {requests : List Request}
      {replies : List (Reply × Watcher)}
      (answered :
        Answered ignored raises watcher request reply after)
      (more : Dialogue ignored raises after requests replies) :
      Dialogue ignored raises watcher (request :: requests)
        ((reply, after) :: replies)

theorem answered_start
    (h : Reaches raises (new directory ignored debounce)
      history watcher)
    (hHeld : watcher.held = none)
    (script : Script) :
    Answered ignored raises watcher (.start script)
      (watcher.step raises (.start script)).1
      (watcher.step raises (.start script)).2 := by
  obtain ⟨started, hStart, hLoops⟩ : ∃ started,
      watcher.start script = (.began, started) ∧
        started.loops = watcher.loops ++ [.new script] := by
    rw [start, hHeld]
    exact ⟨_, rfl, rfl⟩
  have hNew : started.loops[watcher.loops.length]? =
      some (.new script) := by
    rw [hLoops]
    simp
  obtain ⟨more, last, hMore, hLast, hScript, hPhase, hRests⟩ :=
    settled_rests raises hNew (Nat.le_refl _)
      (by simp [Loop.new])
  have hAct : watcher.act raises (.start script) =
      some (.began, started) :=
    congrArg some hStart
  have hAll := (Reaches.refl.step hAct).trans hMore
  have hDelivers :=
    (sound_of_reaches (h.trans hAll)).delivers last
      (List.mem_of_getElem? hLast)
  have hCalls := delivered_all hDelivers hPhase hRests
  rw [hScript] at hCalls
  rw [step, hStart]
  dsimp only
  rw [hLast]
  refine ⟨⟨_, hAll⟩, ?_, ?_, ?_⟩
  · intro other hOther _
    cases hOther
    exact ⟨rfl, hCalls⟩
  · intro hNone
    exact absurd hHeld (hNone script rfl)
  · simp [quiet]

/- Stops and waits are answered by the error of the loop. -/
theorem answered_asked
    {request : Request}
    (hRequest : request = .stop ∨ request = .wait)
    (hReaches : ∃ more, Reaches raises watcher more after)
    (hRaises : ∀ message, watcher.FailedWith message →
      effect = .raised message)
    (hNothing : (∃ message, watcher.FailedWith message) ∨
      effect = .nothing) :
    Answered ignored raises watcher request
      (replyTo (effect, after)).1
      (replyTo (effect, after)).2 := by
  rcases hNothing with ⟨message, hFailed⟩ | rfl
  · cases hRaises message hFailed
    refine ⟨hReaches, ?_, fun _ => ⟨rfl, rfl⟩, ?_⟩
    · rintro script rfl
      simp at hRequest
    · intro other
      constructor
      · intro hOther
        cases hOther
        exact ⟨hRequest, hFailed⟩
      · rintro ⟨_, hOther⟩
        cases hRaises other hOther
        rfl
  · refine ⟨hReaches, ?_, fun _ => ⟨rfl, rfl⟩, ?_⟩
    · rintro script rfl
      simp at hRequest
    · intro message
      constructor
      · intro hNone
        cases hNone
      · rintro ⟨_, hFailed⟩
        cases hRaises message hFailed

theorem answered_step
    (h : Reaches raises (new directory ignored debounce)
      history watcher)
    (request : Request) :
    Answered ignored raises watcher request
      (watcher.step raises request).1
      (watcher.step raises request).2 := by
  cases request with
  | start script =>
      cases hHeld : watcher.held with
      | none => exact answered_start h hHeld script
      | some index =>
          rw [step, start, hHeld]
          refine ⟨⟨[], .refl⟩, ?_, fun _ => ⟨rfl, rfl⟩, ?_⟩
          · intro _ _ hNone
            rw [hHeld] at hNone
            cases hNone
          · simp [replyTo, quiet]
  | stop =>
      have hAct : watcher.act raises .stop =
          some (watcher.stop.1, watcher.stop.2) := rfl
      exact answered_asked (.inl rfl)
        ⟨_, Reaches.refl.step hAct⟩
        (fun _ hFailed => congrArg Prod.fst hFailed.stop)
        (watcher.stop_cases.imp_right And.left)
  | wait =>
      rw [step]
      rcases watcher.wait_cases with
        ⟨message, hFailed⟩ | hWait | hWait
      · have hAct : watcher.act raises .wait =
            some (.raised message, watcher) := hFailed.wait
        rw [hFailed.wait]
        refine answered_asked (.inr rfl)
          ⟨_, Reaches.refl.step hAct⟩ ?_
          (.inl ⟨message, hFailed⟩)
        intro other hOther
        have hSame := hFailed.wait.symm.trans hOther.wait
        cases hSame
        rfl
      all_goals
        rw [hWait]
        refine answered_asked (.inr rfl) ⟨[], .refl⟩ ?_
          (.inr rfl)
        intro message hFailed
        rw [hFailed.wait] at hWait
        cases hWait

theorem dialogue_run
    (h : Reaches raises (new directory ignored debounce)
      history watcher)
    (requests : List Request) :
    Dialogue ignored raises watcher requests
      (watcher.run raises requests) := by
  induction requests generalizing history watcher with
  | nil => exact .nil
  | cons request more ih =>
      have hAnswered := answered_step h request
      obtain ⟨later, hLater⟩ := hAnswered.reaches
      exact .cons hAnswered (ih (h.trans hLater))

/-
  The loops of a watcher deliver each batch that matters
  once. After any history of starts, stops, waits and turns:

  A start begins a loop if and only if none is held, and a
  loop that goes on is the one that is held. Each loop has
  begun one call for each batch that it took and that
  matters, in order and with the paths of just the changes
  that matter, and no other calls were made. A loop without
  a turn has taken all its batches. The same may happen
  whichever calls raise an error, up to the outcomes of the
  calls. Stopping lets go of the loop unless it has failed.
  A loop that has failed stays held for good: stopping and
  waiting raise its error each time, and no start begins
  another. Requests in turn are answered accordingly.
-/
theorem delivers_each_batch_once
    {directory : Text}
    {debounce : Int}
    (h : Reaches raises (new directory ignored debounce)
      history watcher) :
    (∀ script, ∃ effect after,
      watcher.act raises (.start script) =
          some (effect, after) ∧
        (effect = .began ↔ watcher.held = none) ∧
        (watcher.held ≠ none → after = watcher)) ∧
      (∀ index loop,
        watcher.loops[index]? = some loop →
          loop.isLive = true →
            watcher.held = some index ∧
              (watcher.act raises (.turn index) = none →
                loop.left = [] ∧
                  loop.script.ending = .blocks)) ∧
      (∀ loop ∈ watcher.loops, loop.Delivers ignored) ∧
      callsOf history =
        watcher.loops.flatMap Loop.called ∧
      (∀ others, ∃ twin,
        Reaches others (new directory ignored debounce)
            history twin ∧
          twin.silenced = watcher.silenced) ∧
      (∃ effect after,
        watcher.act raises .stop = some (effect, after) ∧
          (after.held = none ∧ effect = .nothing ∨
            ∃ message, watcher.FailedWith message)) ∧
      (∀ loop ∈ watcher.loops, ∀ message,
        loop.phase = .failed message →
          ∀ more later, Reaches raises watcher more later →
            later.FailedWith message ∧
              later.act raises .stop =
                some (.raised message, later) ∧
              later.act raises .wait =
                some (.raised message, later) ∧
              ∀ script, later.act raises (.start script) =
                some (.nothing, later)) ∧
      ∀ requests,
        Dialogue ignored raises watcher requests
          (watcher.run raises requests) := by
  have hSound := sound_of_reaches h
  refine ⟨fun script => ?_, fun index loop hLoop hLive => ?_,
    hSound.delivers, hSound.calls, exists_twin h, ?_, ?_,
    dialogue_run h⟩
  · refine ⟨(watcher.start script).1,
      (watcher.start script).2, rfl, ?_⟩
    cases hHeld : watcher.held with
    | none => simp [start, hHeld]
    | some index => simp [start, hHeld]
  · refine ⟨hSound.kept index loop hLoop (.inl hLive), ?_⟩
    intro hNone
    rcases rests_of_turn_eq_none hLoop hNone with
      hOver | ⟨-, hLeft, hEnding⟩
    · rw [hOver] at hLive
      cases hLive
    · exact ⟨hLeft, hEnding⟩
  · refine ⟨watcher.stop.1, watcher.stop.2, rfl, ?_⟩
    rcases watcher.stop_cases with hFailed | ⟨hEffect, hHeld⟩
    · exact .inr hFailed
    · exact .inl ⟨hHeld, hEffect⟩
  · intro loop hMem message hPhase more later hLater
    have hLast :=
      (hSound.failedWith hMem hPhase).reaches hLater
    exact ⟨hLast, congrArg some hLast.stop, hLast.wait,
      fun script => congrArg some (hLast.start script)⟩

/- A script that delivers twice and then fails. -/
def lossyScript : Script where
  batches :=
    [[⟨.added, "a.thrift".toList⟩,
      ⟨.modified, "notes.md".toList⟩],
     [⟨.deleted, "b.thrift".toList⟩]]
  ending := .fails "lost".toList

/- A watcher after that script, its first call in error. -/
def lossyWatcher : Watcher :=
  ((new ['s'] []).step (· == 0) (.start lossyScript)).2

theorem delivers_in_spite_of_an_error :
    ∃ history,
      Reaches (· == 0) (new ['s'] []) history lossyWatcher ∧
        callsOf history =
          [["a.thrift".toList], ["b.thrift".toList]] ∧
        (∃ twin,
          Reaches (fun _ => false) (new ['s'] []) history
              twin ∧
            twin.silenced = lossyWatcher.silenced) ∧
        (∃ loop ∈ lossyWatcher.loops,
          loop.phase = .failed "lost".toList) ∧
        ∀ more later,
          Reaches (· == 0) lossyWatcher more later →
            later.act (· == 0) .wait =
              some (.raised "lost".toList, later) := by
  obtain ⟨-, -, -, -, -, -, -, hRun⟩ :=
    delivers_each_batch_once
      (Reaches.refl : Reaches (· == 0) (new ['s'] []) [] _)
  have hDialogue := hRun [.start lossyScript]
  obtain ⟨history, hHistory⟩ : ∃ history,
      Reaches (· == 0) (new ['s'] []) history
        lossyWatcher := by
    cases hDialogue with
    | cons answered more => exact answered.reaches
  obtain ⟨-, -, -, hCalls, hTwin, -, hStays, -⟩ :=
    delivers_each_batch_once hHistory
  have hCalled : lossyWatcher.loops.flatMap Loop.called =
      [["a.thrift".toList], ["b.thrift".toList]] := by
    decide +kernel
  have hFailed : ∃ loop ∈ lossyWatcher.loops,
      loop.phase = .failed "lost".toList := by
    decide +kernel
  refine ⟨history, hHistory, hCalls.trans hCalled,
    hTwin _, hFailed, ?_⟩
  intro more later hLater
  obtain ⟨loop, hMem, hPhase⟩ := hFailed
  exact (hStays loop hMem _ hPhase more later hLater).2.2.1

end Watcher

end Watch

end ThriftTypings
