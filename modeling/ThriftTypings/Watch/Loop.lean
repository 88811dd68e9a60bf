import ThriftTypings.Watch.Filter

/-
  This file defines the loop of a watcher, which takes
  batches of changes one by one and hands what matters to a
  callback.

  What the source of changes yields is given by a script:
  batches, and what comes after them. A loop goes on turn by
  turn: it takes a batch, begins a call, or comes back from
  one. It may be cancelled between any two turns.
-/

namespace ThriftTypings

namespace Watch

-- Batches

/-
  The paths of the changes in a batch that matter, each
  once, in ascending order.
-/
def relevant
    (ignored : List Text)
    (batch : List Change) : List Text :=
  ((batch.filter (Change.passes ignored)).map fun change =>
    (Path.ofText change.path).text).eraseDups.mergeSort Text.le

-- Scripts

/- What comes after the batches of a script. -/
inductive Ending where
  | stops
  | blocks
  | fails (message : Text)
  deriving DecidableEq, Repr

/- What the source of changes yields. -/
structure Script where
  batches : List (List Change)
  ending : Ending
  deriving DecidableEq, Repr

-- Loops

/- How a call of the callback came out. -/
inductive Outcome where
  | returned
  | raised
  | interrupted
  deriving DecidableEq, Repr

/- A call of the callback that is over. -/
structure Call where
  paths : List Text
  outcome : Outcome
  deriving DecidableEq, Repr

/- What a loop does, or how it came to an end. -/
inductive Phase where
  | fresh
  | waiting
  | calling (number : Nat) (paths : List Text)
  | ended
  | failed (message : Text)
  | cancelled
  deriving DecidableEq, Repr

/-
  A loop: its script, the batches that it has not taken yet,
  the calls that are over, and what it does.
-/
structure Loop where
  script : Script
  left : List (List Change)
  calls : List Call
  phase : Phase
  deriving DecidableEq, Repr

namespace Loop

/- A loop that has not had a turn yet. -/
def new
    (script : Script) : Loop where
  script := script
  left := script.batches
  calls := []
  phase := .fresh

/- Does the loop go on? -/
def isLive
    (loop : Loop) : Bool :=
  match loop.phase with
  | .fresh => true
  | .waiting => true
  | .calling _ _ => true
  | .ended => false
  | .failed _ => false
  | .cancelled => false

/-
  One turn, if there is one, and the paths that a call
  begins with. The calls are numbered, and `raises` says
  which of them raise an error. Such an error is caught, and
  the loop goes on. An error of the source of changes is
  not.
-/
def turn
    (ignored : List Text)
    (raises : Nat → Bool)
    (number : Nat)
    (loop : Loop) : Option (Option (List Text) × Loop) :=
  match loop.phase with
  | .fresh => some (none, { loop with phase := .waiting })
  | .waiting =>
      match loop.left with
      | batch :: more =>
          let paths := relevant ignored batch
          if paths.isEmpty then
            some (none, { loop with left := more })
          else
            some
              (some paths,
                { loop with
                  left := more
                  phase := .calling number paths })
      | [] =>
          match loop.script.ending with
          | .stops => some (none, { loop with phase := .ended })
          | .blocks => none
          | .fails message =>
              some (none, { loop with phase := .failed message })
  | .calling called paths =>
      let outcome : Outcome :=
        if raises called then .raised else .returned
      some
        (none,
          { loop with
            calls := loop.calls ++ [⟨paths, outcome⟩]
            phase := .waiting })
  | .ended => none
  | .failed _ => none
  | .cancelled => none

/-
  The loop after it was cancelled. A call that goes on is
  interrupted, and what is over stays as it is.
-/
def cancel
    (loop : Loop) : Loop :=
  match loop.phase with
  | .fresh => { loop with phase := .cancelled }
  | .waiting => { loop with phase := .cancelled }
  | .calling _ paths =>
      { loop with
        calls := loop.calls ++ [⟨paths, .interrupted⟩]
        phase := .cancelled }
  | .ended => loop
  | .failed _ => loop
  | .cancelled => loop

/- The loop has at most so many turns left. -/
def turnsLeft
    (loop : Loop) : Nat :=
  match loop.phase with
  | .fresh => 2 * loop.left.length + 2
  | .waiting => 2 * loop.left.length + 1
  | .calling _ _ => 2 * loop.left.length + 2
  | .ended => 0
  | .failed _ => 0
  | .cancelled => 0

end Loop

end Watch

end ThriftTypings
