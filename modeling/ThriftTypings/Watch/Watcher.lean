import ThriftTypings.Watch.Loop

/-
  This file defines watchers. A watcher begins loops, and
  holds at most one of them. It may be asked to start, to
  stop and to wait, while its loops take their turns.
-/

namespace ThriftTypings

namespace Watch

-- Watchers

/- A quiet time of so many milliseconds ends a batch. -/
def defaultDebounce : Int := 300

/-
  A watcher: all loops that it has begun, which of them it
  holds, and the number of the next call.
-/
structure Watcher where
  directory : Path
  ignored : List Text
  debounce : Int
  loops : List Loop
  held : Option Nat
  number : Nat
  deriving DecidableEq, Repr

/- What may happen to a watcher. -/
inductive Event where
  | start (script : Script)
  | stop
  | wait
  | turn (index : Nat)
  deriving DecidableEq, Repr

/- What comes of that. -/
inductive Effect where
  | nothing
  | began
  | called (paths : List Text)
  | raised (message : Text)
  deriving DecidableEq, Repr

/- The effect of a turn, by the paths of a call it begins. -/
def Effect.ofPaths : Option (List Text) → Effect
  | none => .nothing
  | some paths => .called paths

namespace Watcher

/- A watcher that holds no loop. -/
def new
    (directory : Text)
    (ignored : List Text)
    (debounce : Int := defaultDebounce) : Watcher where
  directory := Path.ofText directory
  ignored := ignored
  debounce := debounce
  loops := []
  held := none
  number := 0

/- The loop that is held, with its index. -/
def holding?
    (watcher : Watcher) : Option (Nat × Loop) :=
  watcher.held.bind fun index =>
    watcher.loops[index]?.map fun loop => (index, loop)

-- Events

/- A loop begins only if none is held. -/
def start
    (watcher : Watcher)
    (script : Script) : Effect × Watcher :=
  match watcher.held with
  | some _ => (.nothing, watcher)
  | none =>
      (.began,
        { watcher with
          loops := watcher.loops ++ [.new script]
          held := some watcher.loops.length })

/-
  Stopping cancels the loop that is held and lets go of it.
  If it failed, its error is raised and it stays.
-/
def stop
    (watcher : Watcher) : Effect × Watcher :=
  match watcher.holding? with
  | none => (.nothing, { watcher with held := none })
  | some (index, loop) =>
      match loop.phase with
      | .failed message => (.raised message, watcher)
      | _ =>
          (.nothing,
            { watcher with
              loops := watcher.loops.set index loop.cancel
              held := none })

/-
  Waiting comes back when the loop that is held is over. If
  it failed, its error is raised.
-/
def wait
    (watcher : Watcher) : Option (Effect × Watcher) :=
  match watcher.holding? with
  | none => some (.nothing, watcher)
  | some (_, loop) =>
      match loop.phase with
      | .failed message => some (.raised message, watcher)
      | _ =>
          if loop.isLive then none
          else some (.nothing, watcher)

/- A turn of a loop, which may begin a call. -/
def turn
    (raises : Nat → Bool)
    (watcher : Watcher)
    (index : Nat) : Option (Effect × Watcher) := do
  let loop ← watcher.loops[index]?
  let (paths?, after) ←
    loop.turn watcher.ignored raises watcher.number
  some
    (.ofPaths paths?,
      { watcher with
        loops := watcher.loops.set index after
        number := watcher.number + paths?.toList.length })

/- One event, if it may happen now. -/
def act
    (raises : Nat → Bool)
    (watcher : Watcher) : Event → Option (Effect × Watcher)
  | .start script => some (watcher.start script)
  | .stop => some watcher.stop
  | .wait => watcher.wait
  | .turn index => watcher.turn raises index

/- The states that any order of events may lead to. -/
inductive Reaches
    (raises : Nat → Bool)
    (first : Watcher) :
    List (Event × Effect) → Watcher → Prop where
  | refl : Reaches raises first [] first
  | step
      {history : List (Event × Effect)}
      {middle final : Watcher}
      {event : Event}
      {effect : Effect}
      (before : Reaches raises first history middle)
      (happens :
        middle.act raises event = some (effect, final)) :
      Reaches raises first (history ++ [(event, effect)])
        final

end Watcher

-- Requests

/- What may be asked of a watcher. -/
inductive Request where
  | start (script : Script)
  | stop
  | wait
  deriving DecidableEq, Repr

/-
  What a request comes to: whether a loop began, the calls
  that it made, and the error that was raised, if any.
-/
structure Reply where
  began : Bool
  calls : List Call
  error : Option Text
  deriving DecidableEq, Repr

namespace Watcher

/- The reply to a request that did nothing. -/
def quiet : Reply where
  began := false
  calls := []
  error := none

/- A loop takes so many turns, or fewer if it comes to rest. -/
def settled
    (raises : Nat → Bool)
    (index : Nat) : Nat → Watcher → Watcher
  | 0, watcher => watcher
  | turns + 1, watcher =>
      match watcher.turn raises index with
      | none => watcher
      | some (_, after) => settled raises index turns after

/- The reply to an effect that leaves the loops alone. -/
def replyTo : Effect × Watcher → Reply × Watcher
  | (.raised message, after) =>
      ({ quiet with error := some message }, after)
  | (_, after) => (quiet, after)

/-
  One request. A loop that begins takes its turns at once,
  until it comes to rest. Nothing is waited for that would
  not come.
-/
def step
    (raises : Nat → Bool)
    (watcher : Watcher) : Request → Reply × Watcher
  | .start script =>
      match watcher.start script with
      | (.began, started) =>
          let index := watcher.loops.length
          let after :=
            settled raises index (Loop.new script).turnsLeft
              started
          let calls :=
            match after.loops[index]? with
            | none => []
            | some loop => loop.calls
          ({ quiet with began := true, calls := calls }, after)
      | other => replyTo other
  | .stop => replyTo watcher.stop
  | .wait => replyTo (watcher.wait.getD (.nothing, watcher))

/- Several requests in turn. -/
def run
    (raises : Nat → Bool) :
    Watcher → List Request → List (Reply × Watcher)
  | _, [] => []
  | watcher, request :: more =>
      let result := watcher.step raises request
      result :: run raises result.2 more

end Watcher

end Watch

end ThriftTypings
