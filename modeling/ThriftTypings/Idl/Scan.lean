import ThriftTypings.Idl.Failure

/-
  This file defines scans: functions that read something
  from the front of a text and give it together with the
  rest, or fail. Scans are sequenced as a monad, and
  repeated as long as they make progress.

  Two predicates say what a scan does to the text:
  `Advances`, what is left is an end of the text, and
  `Consumes`, it is moreover shorter. Both follow the
  structure of a scan, so that every repetition ends.
-/

namespace ThriftTypings

namespace Idl

-- Scans

/- A scan reads a value from the front of a text. -/
def Scan (α : Type) : Type :=
  Text → Except Failure (α × Text)

namespace Scan

variable {α β : Type}

/- The scan that reads nothing. -/
def done
    (value : α) : Scan α :=
  fun text => .ok (value, text)

/- One scan after the other. -/
def andThen
    (first : Scan α)
    (next : α → Scan β) : Scan β :=
  fun text =>
    match first text with
    | .error failure => .error failure
    | .ok (value, rest) => next value rest

instance : Monad Scan where
  pure := done
  bind := andThen

/- The scan that fails where it stands. -/
def fail
    (cause : Cause) : Scan α :=
  fun text => .error ⟨cause, [], text⟩

/- The scan that passes over what `skip` passes over. -/
def passing
    (skip : Text → Text) : Scan Unit :=
  fun text => .ok ((), skip text)

/- The scan as a production with a name of its own. -/
def labelled
    (label : Label)
    (scan : Scan α) : Scan α :=
  fun text =>
    match scan text with
    | .error failure => .error (failure.inside label)
    | .ok result => .ok result

@[simp] theorem pure_apply
    (value : α)
    (text : Text) :
    (pure value : Scan α) text = .ok (value, text) :=
  rfl

theorem bind_apply
    (first : Scan α)
    (next : α → Scan β)
    (text : Text) :
    (first >>= next) text =
      match first text with
      | .error failure => .error failure
      | .ok (value, rest) => next value rest :=
  rfl

/- A sequence succeeds if both of its parts do. -/
theorem bind_eq_ok_iff
    {first : Scan α}
    {next : α → Scan β}
    {text : Text}
    {result : β × Text} :
    (first >>= next) text = .ok result ↔
      ∃ value rest,
        first text = .ok (value, rest) ∧
          next value rest = .ok result := by
  rw [bind_apply]
  cases h : first text with
  | error failure => simp
  | ok pair =>
      obtain ⟨value, rest⟩ := pair
      constructor
      · intro hNext
        exact ⟨value, rest, rfl, hNext⟩
      · rintro ⟨_, _, hPair, hNext⟩
        cases hPair
        exact hNext

theorem labelled_eq_ok_iff
    {label : Label}
    {scan : Scan α}
    {text : Text}
    {result : α × Text} :
    labelled label scan text = .ok result ↔
      scan text = .ok result := by
  unfold labelled
  cases scan text <;> simp

end Scan

-- Progress

namespace Scan

variable {α β : Type}

/- What the scan leaves is an end of the text. -/
def Advances
    (scan : Scan α) : Prop :=
  ∀ (text : Text) (value : α) (rest : Text),
    scan text = .ok (value, rest) → rest <:+ text

/- The scan leaves an end of the text, and a shorter one. -/
def Consumes
    (scan : Scan α) : Prop :=
  ∀ (text : Text) (value : α) (rest : Text),
    scan text = .ok (value, rest) →
      rest <:+ text ∧ rest.length < text.length

theorem Consumes.advances
    {scan : Scan α}
    (h : Consumes scan) :
    Advances scan :=
  fun _ _ _ eq => (h _ _ _ eq).1

theorem advances_pure
    (value : α) :
    Advances (pure value : Scan α) := by
  intro text result rest h
  simp only [pure_apply, Except.ok.injEq, Prod.mk.injEq] at h
  exact h.2 ▸ List.suffix_rfl

theorem advances_passing
    {skip : Text → Text}
    (h : ∀ text, skip text <:+ text) :
    Advances (passing skip) := by
  intro text value rest eq
  simp only [passing, Except.ok.injEq, Prod.mk.injEq] at eq
  exact eq.2 ▸ h text

theorem Advances.bind
    {first : Scan α}
    {next : α → Scan β}
    (h : Advances first)
    (hNext : ∀ value, Advances (next value)) :
    Advances (first >>= next) := by
  intro text value rest eq
  obtain ⟨middle, between, hFirst, hRest⟩ :=
    bind_eq_ok_iff.mp eq
  exact (hNext middle _ _ _ hRest).trans (h _ _ _ hFirst)

theorem Consumes.bind
    {first : Scan α}
    {next : α → Scan β}
    (h : Consumes first)
    (hNext : ∀ value, Advances (next value)) :
    Consumes (first >>= next) := by
  intro text value rest eq
  obtain ⟨middle, between, hFirst, hRest⟩ :=
    bind_eq_ok_iff.mp eq
  have hSuffix := hNext middle _ _ _ hRest
  have hConsumed := h _ _ _ hFirst
  exact ⟨hSuffix.trans hConsumed.1,
    Nat.lt_of_le_of_lt hSuffix.length_le hConsumed.2⟩

theorem Advances.bind_consumes
    {first : Scan α}
    {next : α → Scan β}
    (h : Advances first)
    (hNext : ∀ value, Consumes (next value)) :
    Consumes (first >>= next) := by
  intro text value rest eq
  obtain ⟨middle, between, hFirst, hRest⟩ :=
    bind_eq_ok_iff.mp eq
  have hSuffix := h _ _ _ hFirst
  have hConsumed := hNext middle _ _ _ hRest
  exact ⟨hConsumed.1.trans hSuffix,
    Nat.lt_of_lt_of_le hConsumed.2 hSuffix.length_le⟩

theorem Advances.labelled
    {scan : Scan α}
    (h : Advances scan)
    (label : Label) :
    Advances (Scan.labelled label scan) :=
  fun _ _ _ eq => h _ _ _ (labelled_eq_ok_iff.mp eq)

theorem Consumes.labelled
    {scan : Scan α}
    (h : Consumes scan)
    (label : Label) :
    Consumes (Scan.labelled label scan) :=
  fun _ _ _ eq => h _ _ _ (labelled_eq_ok_iff.mp eq)

end Scan

-- Repetition

/- What one round of a repetition gives. -/
inductive Round (α β : Type) where
  | more (value : α)
  | last (value : β)

namespace Scan

variable {α β : Type}

/- Every round that asks for another one makes progress. -/
def Progresses
    (step : Scan (Round α β)) : Prop :=
  ∀ (text : Text) (value : α) (rest : Text),
    step text = .ok (.more value, rest) →
      rest <:+ text ∧ rest.length < text.length

/-
  Repeats a scan up to and including its last round. It
  ends since each further round leaves less text.
-/
def repeated
    (step : Scan (Round α β))
    (progress : Progresses step) :
    Scan (List α × β) := fun text =>
  match _h : step text with
  | .error failure => .error failure
  | .ok (.last value, rest) => .ok (([], value), rest)
  | .ok (.more value, rest) =>
      match repeated step progress rest with
      | .error failure => .error failure
      | .ok ((values, final), left) =>
          .ok ((value :: values, final), left)
termination_by text => text.length
decreasing_by exact (progress _ _ _ _h).2

/- A repetition is its first round, and then the others. -/
theorem repeated_eq
    {step : Scan (Round α β)}
    (progress : Progresses step)
    (text : Text) :
    repeated step progress text =
      match step text with
      | .error failure => .error failure
      | .ok (.last value, rest) => .ok (([], value), rest)
      | .ok (.more value, rest) =>
          match repeated step progress rest with
          | .error failure => .error failure
          | .ok ((values, final), left) =>
              .ok ((value :: values, final), left) := by
  rw [repeated]
  split
  · next hStep => rw [hStep]
  · next hStep => rw [hStep]
  · next hStep =>
      rewrite [hStep]
      rfl

/- A repetition advances if its last round does. -/
theorem advances_repeated
    {step : Scan (Round α β)}
    (progress : Progresses step)
    (hStep : Advances step) :
    Advances (repeated step progress) := by
  intro text
  induction hn : text.length using Nat.strongRecOn
    generalizing text with
  | ind n ih =>
      intro value rest eq
      rw [repeated] at eq
      split at eq
      · cases eq
      · next hLast =>
          cases eq
          exact hStep _ _ _ hLast
      · next hMore =>
          have hProgress := progress _ _ _ hMore
          split at eq
          · cases eq
          · next hRest =>
              cases eq
              exact (ih _ (hn ▸ hProgress.2) _ rfl _ _
                hRest).trans hProgress.1

/- A repetition consumes if each of its rounds does. -/
theorem consumes_repeated
    {step : Scan (Round α β)}
    (progress : Progresses step)
    (hStep : Consumes step) :
    Consumes (repeated step progress) := by
  intro text value rest eq
  rw [repeated] at eq
  split at eq
  · cases eq
  · next hLast =>
      cases eq
      exact hStep _ _ _ hLast
  · next hMore =>
      have hProgress := progress _ _ _ hMore
      split at eq
      · cases eq
      · next hRest =>
          cases eq
          have hSuffix :=
            advances_repeated progress hStep.advances
              _ _ _ hRest
          exact ⟨hSuffix.trans hProgress.1,
            Nat.lt_of_le_of_lt hSuffix.length_le
              hProgress.2⟩

end Scan

end Idl

end ThriftTypings
