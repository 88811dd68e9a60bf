import ThriftTypings.Idl.Scan

/-
  This file defines parsers and what moves them.

  A parser stays on one source. It keeps its cursor, the
  productions that are open, and the furthest failure so
  far. An act moves a parser and gives a value, or it fails
  and leaves the parser where it stands. An act that is
  attempted puts the cursor back when it fails, but not the
  furthest failure.

  An act follows a scan if it moves the cursor of any parser
  as the scan reads, and does nothing else but to record a
  failure. Acts that are put together follow the scans that
  are put together in the same way.
-/

namespace ThriftTypings

namespace Idl

-- Parsers

/- A parser on one source. -/
structure Parser where
  source : Text
  file : Option Text
  rest : Text
  labels : List Label
  furthest : Option Failure
  deriving DecidableEq, Repr

namespace Parser

/- A parser that has not been called yet. -/
def new
    (source : Text)
    (file : Option Text := none) : Parser where
  source := source
  file := file
  rest := source
  labels := []
  furthest := none

/- The number of characters in front of the cursor. -/
def position
    (parser : Parser) : Nat :=
  parser.source.length - parser.rest.length

/- The parser with its cursor in front of a given rest. -/
def moved
    (parser : Parser)
    (rest : Text) : Parser :=
  { parser with rest := rest }

end Parser

-- Acts

/- An act moves a parser, and gives a value or fails. -/
def Act (α : Type) : Type :=
  Parser → Except Failure α × Parser

namespace Act

variable {α β κ : Type}

/- The act that leaves the parser alone. -/
def done
    (value : α) : Act α :=
  fun parser => (.ok value, parser)

/- One act after the other. -/
def andThen
    (first : Act α)
    (next : α → Act β) : Act β :=
  fun parser =>
    match first parser with
    | (.error failure, after) => (.error failure, after)
    | (.ok value, after) => next value after

instance : Monad Act where
  pure := done
  bind := andThen

theorem bind_apply
    (first : Act α)
    (next : α → Act β)
    (parser : Parser) :
    (first >>= next) parser =
      match first parser with
      | (.error failure, after) => (.error failure, after)
      | (.ok value, after) => next value after :=
  rfl

/- A sequence succeeds if both of its parts do. -/
theorem bind_eq_ok_iff
    {first : Act α}
    {next : α → Act β}
    {parser after : Parser}
    {value : β} :
    (first >>= next) parser = (.ok value, after) ↔
      ∃ found between,
        first parser = (.ok found, between) ∧
          next found between = (.ok value, after) := by
  rw [bind_apply]
  cases hFirst : first parser with
  | mk outcome between =>
      cases outcome with
      | error failure => simp
      | ok found =>
          constructor
          · intro hNext
            exact ⟨found, between, rfl, hNext⟩
          · rintro ⟨_, _, hPair, hNext⟩
            cases hPair
            exact hNext

/-
  The act that fails where the parser stands, in the
  productions that are open.
-/
def fail
    (cause : Cause) : Act α :=
  fun parser =>
    let failure :=
      { cause := cause
        context := parser.labels
        rest := parser.rest }
    (.error failure,
      { parser with
        furthest :=
          some (Failure.further parser.furthest failure) })

/- The act inside a production, which is closed after it. -/
def labelled
    (label : Label)
    (act : Act α) : Act α :=
  fun parser =>
    let opened :=
      { parser with labels := parser.labels ++ [label] }
    let (outcome, after) := act opened
    (outcome,
      { after with labels := after.labels.dropLast })

/- An act that may fail, in which case the cursor goes back. -/
def attempt
    (act : Act α) : Act (Option α) :=
  fun parser =>
    match act parser with
    | (.ok value, after) => (.ok (some value), after)
    | (.error _, after) =>
        (.ok none, after.moved parser.rest)

/- Attempts alternatives until one succeeds. -/
def tryEach
    (production : κ → Act α)
    (cause : Cause) : List κ → Act α
  | [] => fail cause
  | choice :: more => do
      match ← attempt (production choice) with
      | some value => pure value
      | none => tryEach production cause more

theorem tryEach_cons
    (production : κ → Act α)
    (cause : Cause)
    (choice : κ)
    (more : List κ)
    (parser : Parser) :
    tryEach production cause (choice :: more) parser =
      match production choice parser with
      | (.ok value, after) => (.ok value, after)
      | (.error _, after) =>
          tryEach production cause more
            (after.moved parser.rest) := by
  rw [tryEach, bind_apply, attempt]
  cases production choice parser with
  | mk outcome after => cases outcome <;> rfl

/- Each attempt starts from the same place. -/
theorem exists_of_tryEach
    {production : κ → Act α}
    {cause : Cause}
    {choices : List κ}
    {parser after : Parser}
    {value : α}
    (h : tryEach production cause choices parser =
      (.ok value, after)) :
    ∃ choice start,
      start.rest = parser.rest ∧
        production choice start = (.ok value, after) := by
  induction choices generalizing parser with
  | nil => simp [tryEach, fail] at h
  | cons choice more ih =>
      rw [tryEach_cons] at h
      split at h
      · next hFirst =>
          cases h
          exact ⟨choice, parser, rfl, hFirst⟩
      · obtain ⟨found, start, hStart, hFound⟩ := ih h
        exact ⟨found, start, hStart, hFound⟩

-- Moves of the Cursor

/- Passes over what `skip` passes over. -/
def passing
    (skip : Text → Text) : Act Unit :=
  fun parser => (.ok (), parser.moved (skip parser.rest))

/- Takes from the front of the text, which always works. -/
def taking
    (take : Text → α × Text) : Act α :=
  fun parser =>
    let (value, rest) := take parser.rest
    (.ok value, parser.moved rest)

/- Takes from the front of the text, or fails there. -/
def expecting
    (take? : Text → Option (α × Text))
    (cause : Cause) : Act α :=
  fun parser =>
    match take? parser.rest with
    | some (value, rest) => (.ok value, parser.moved rest)
    | none => fail cause parser

/- Moves over what is looked for, if it stands there. -/
def accepting
    (look : Text → Option Text) : Act Bool :=
  fun parser =>
    match look parser.rest with
    | some rest => (.ok true, parser.moved rest)
    | none => (.ok false, parser)

/- Moves over the first of several that stands there. -/
def accepting?
    (look : κ → Text → Option Text) :
    List κ → Act (Option κ)
  | [] => pure none
  | choice :: more => do
      if ← accepting (look choice) then pure (some choice)
      else accepting? look more

/- Has the parser come to the end of its source? -/
def ended : Act Bool :=
  fun parser => (.ok parser.rest.isEmpty, parser)

-- Repetition

/- Every round that asks for another one makes progress. -/
def Progresses
    (step : Act (Round α β)) : Prop :=
  ∀ (parser : Parser) (value : α) (after : Parser),
    step parser = (.ok (.more value), after) →
      after.rest.length < parser.rest.length

/-
  Repeats an act up to and including its last round. It
  ends since each further round leaves less text.
-/
def repeated
    (step : Act (Round α β))
    (progress : Progresses step) :
    Act (List α × β) := fun parser =>
  match _h : step parser with
  | (.error failure, after) => (.error failure, after)
  | (.ok (.last value), after) => (.ok ([], value), after)
  | (.ok (.more value), after) =>
      match repeated step progress after with
      | (.error failure, left) => (.error failure, left)
      | (.ok (values, final), left) =>
          (.ok (value :: values, final), left)
termination_by parser => parser.rest.length
decreasing_by exact progress _ _ _ _h

/- A repetition is its first round, and then the others. -/
theorem repeated_eq
    {step : Act (Round α β)}
    (progress : Progresses step)
    (parser : Parser) :
    repeated step progress parser =
      match step parser with
      | (.error failure, after) => (.error failure, after)
      | (.ok (.last value), after) => (.ok ([], value), after)
      | (.ok (.more value), after) =>
          match repeated step progress after with
          | (.error failure, left) => (.error failure, left)
          | (.ok (values, final), left) =>
              (.ok (value :: values, final), left) := by
  rw [repeated]
  split
  · next hStep => rw [hStep]
  · next hStep => rw [hStep]
  · next hStep =>
      rewrite [hStep]
      rfl

end Act

-- Scans That Look Ahead

namespace Scan

variable {α κ : Type}

theorem passing_bind
    (skip : Text → Text)
    (next : Unit → Scan α)
    (text : Text) :
    (passing skip >>= next) text = next () (skip text) :=
  rfl

/- Takes from the front of the text, which always works. -/
def taking
    (take : Text → α × Text) : Scan α :=
  fun text => .ok (take text)

/- Takes from the front of the text, or fails there. -/
def expecting
    (take? : Text → Option (α × Text))
    (cause : Cause) : Scan α :=
  fun text =>
    match take? text with
    | some result => .ok result
    | none => fail cause text

/- Goes one way past what is looked for, or the other way. -/
def choosing
    (look : Text → Option Text)
    (found missing : Scan α) : Scan α :=
  fun text =>
    match look text with
    | some rest => found rest
    | none => missing text

theorem choosing_of_some
    {look : Text → Option Text}
    {found missing : Scan α}
    {text rest : Text}
    (h : look text = some rest) :
    choosing look found missing text = found rest := by
  rw [choosing, h]

theorem choosing_of_none
    {look : Text → Option Text}
    {found missing : Scan α}
    {text : Text}
    (h : look text = none) :
    choosing look found missing text = missing text := by
  rw [choosing, h]

/- Goes past the first of several that is found, if any. -/
def choosingEach
    (look : κ → Text → Option Text)
    (choices : List κ)
    (found : κ → Scan α)
    (missing : Scan α) : Scan α :=
  fun text =>
    match
      choices.findSome? fun choice =>
        (look choice text).map fun rest => (choice, rest)
    with
    | some (choice, rest) => found choice rest
    | none => missing text

/- Goes one way at the end of the text, or the other way. -/
def ending
    (found missing : Scan α) : Scan α :=
  fun text =>
    if text.isEmpty then found text else missing text

end Scan

-- Acts That Follow Scans

/- The failure as it is seen inside open productions. -/
def Failure.within
    (labels : List Label)
    (failure : Failure) : Failure :=
  { failure with context := labels ++ failure.context }

/-
  What becomes of a parser when a scan has read its text: a
  success moves the cursor, and a failure is recorded.
-/
def Parser.reading
    {α : Type}
    (parser : Parser) :
    Except Failure (α × Text) → Except Failure α × Parser
  | .ok (value, rest) => (.ok value, parser.moved rest)
  | .error failure =>
      let raised := failure.within parser.labels
      (.error raised,
        { parser with
          rest := failure.rest
          furthest :=
            some (Failure.further parser.furthest raised) })

namespace Act

variable {α β κ : Type}

/- The act does to any parser what the scan reads. -/
def Follows
    (act : Act α)
    (scan : Scan α) : Prop :=
  ∀ parser, act parser = parser.reading (scan parser.rest)

namespace Follows

variable {act : Act α} {scan : Scan α}

theorem of_eq
    {other : Scan α}
    (h : Follows act scan)
    (hEq : ∀ text, scan text = other text) :
    Follows act other := by
  intro parser
  rw [h, hEq]

theorem bind
    {next : α → Act β}
    {then_ : α → Scan β}
    (h : Follows act scan)
    (hNext : ∀ value, Follows (next value) (then_ value)) :
    Follows (act >>= next) (scan >>= then_) := by
  intro parser
  rw [bind_apply, h, Scan.bind_apply]
  cases scan parser.rest with
  | error failure => rfl
  | ok pair => exact hNext pair.1 (parser.moved pair.2)

/- The production is closed again, also after a failure. -/
theorem labelled
    (h : Follows act scan)
    (label : Label) :
    Follows (Act.labelled label act)
      (Scan.labelled label scan) := by
  intro parser
  rw [Act.labelled, Scan.labelled]
  dsimp only
  rw [h]
  dsimp only
  cases scan parser.rest with
  | error failure =>
      simp [Parser.reading, Failure.within, Failure.inside]
  | ok pair =>
      simp [Parser.reading, Parser.moved]

/- An act that succeeds has only moved the cursor. -/
theorem of_ok
    {parser after : Parser}
    {value : α}
    (h : Follows act scan)
    (hAct : act parser = (.ok value, after)) :
    scan parser.rest = .ok (value, after.rest) := by
  rw [h] at hAct
  cases hScan : scan parser.rest with
  | error failure => simp [hScan, Parser.reading] at hAct
  | ok pair =>
      simp only [hScan, Parser.reading, Prod.mk.injEq,
        Except.ok.injEq] at hAct
      obtain ⟨rfl, rfl⟩ := hAct
      rfl

theorem progresses
    {step : Act (Round α β)}
    {scan : Scan (Round α β)}
    (h : Follows step scan)
    (progress : Scan.Progresses scan) :
    Progresses step :=
  fun _ _ _ hStep => (progress _ _ _ (h.of_ok hStep)).2

end Follows

theorem follows_pure
    (value : α) :
    Follows (pure value) (pure value) :=
  fun _ => rfl

theorem follows_fail
    (cause : Cause) :
    Follows (fail cause : Act α) (Scan.fail cause) := by
  intro parser
  simp [fail, Scan.fail, Parser.reading, Failure.within]

theorem follows_passing
    (skip : Text → Text) :
    Follows (passing skip) (Scan.passing skip) :=
  fun _ => rfl

theorem follows_taking
    (take : Text → α × Text) :
    Follows (taking take) (Scan.taking take) :=
  fun _ => rfl

theorem follows_expecting
    (take? : Text → Option (α × Text))
    (cause : Cause) :
    Follows (expecting take? cause)
      (Scan.expecting take? cause) := by
  intro parser
  rw [expecting, Scan.expecting]
  cases take? parser.rest with
  | none => exact follows_fail cause parser
  | some pair => rfl

theorem follows_accepting
    {yes no : Act α}
    {found missing : Scan α}
    (look : Text → Option Text)
    (hFound : Follows yes found)
    (hMissing : Follows no missing) :
    Follows (do if ← accepting look then yes else no)
      (Scan.choosing look found missing) := by
  intro parser
  rw [bind_apply, accepting, Scan.choosing]
  cases look parser.rest with
  | none => exact hMissing parser
  | some rest => exact hFound (parser.moved rest)

theorem follows_accepting?
    (look : κ → Text → Option Text)
    (choices : List κ) :
    Follows (accepting? look choices)
      (Scan.choosingEach look choices
        (fun choice => pure (some choice)) (pure none)) := by
  induction choices with
  | nil => exact follows_pure none
  | cons choice more ih =>
      refine (follows_accepting (look choice)
        (follows_pure _) ih).of_eq ?_
      intro text
      rw [Scan.choosing, Scan.choosingEach,
        Scan.choosingEach, List.findSome?_cons]
      cases look choice text <;> rfl

theorem follows_accepting?_bind
    {look : κ → Text → Option Text}
    {choices : List κ}
    {next : Option κ → Act α}
    {found : κ → Scan α}
    {missing : Scan α}
    (hFound : ∀ choice,
      Follows (next (some choice)) (found choice))
    (hMissing : Follows (next none) missing) :
    Follows (accepting? look choices >>= next)
      (Scan.choosingEach look choices found missing) := by
  intro parser
  rw [bind_apply, follows_accepting?, Scan.choosingEach,
    Scan.choosingEach]
  cases choices.findSome? _ with
  | none => exact hMissing parser
  | some pair => exact hFound pair.1 (parser.moved pair.2)

theorem follows_ended
    {yes no : Act α}
    {found missing : Scan α}
    (hFound : Follows yes found)
    (hMissing : Follows no missing) :
    Follows (do if ← ended then yes else no)
      (Scan.ending found missing) := by
  intro parser
  change (if parser.rest.isEmpty then yes else no) parser = _
  rw [Scan.ending]
  split
  · exact hFound parser
  · exact hMissing parser

/- Repetitions follow each other round by round. -/
theorem Follows.repeated
    {step : Act (Round α β)}
    {scan : Scan (Round α β)}
    (h : Follows step scan)
    (progress : Scan.Progresses scan) :
    Follows (Act.repeated step (h.progresses progress))
      (Scan.repeated scan progress) := by
  intro parser
  induction hn : parser.rest.length using Nat.strongRecOn
    generalizing parser with
  | ind n ih =>
      rw [repeated_eq, Scan.repeated_eq, h]
      cases hScan : scan parser.rest with
      | error failure => rfl
      | ok pair =>
          obtain ⟨round, rest⟩ := pair
          cases round with
          | last value => rfl
          | more value =>
              have hLess := (progress _ _ _ hScan).2
              have hRest := ih _ (hn ▸ hLess)
                (parser.moved rest) rfl
              simp only [Parser.reading]
              rw [hRest]
              dsimp only [Parser.moved]
              cases Scan.repeated scan progress rest <;> rfl

end Act

end Idl

end ThriftTypings
