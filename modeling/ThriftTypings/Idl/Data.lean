import ThriftTypings.Text.Basic

/-
  This file defines plain data, as it is exchanged with
  other programs, and how data is checked against what is
  expected of it. A check collects all faults, each with
  the place where it was found.
-/

namespace ThriftTypings

-- Data

/-
  Plain data. A number is kept as its digits and the place
  of its decimal point; the keys of a record are distinct.
-/
inductive Data where
  | null
  | bool (value : Bool)
  | number (digits : Int) (places : Nat)
  | text (value : Text)
  | list (items : List Data)
  | record (entries : List (Text × Data))
  deriving Repr, Inhabited

namespace Data

/- The value under a key, if the key is there. -/
def lookup?
    (key : Text) : List (Text × Data) → Option Data
  | [] => none
  | (name, value) :: more =>
      if name = key then some value else lookup? key more

/- What is found in a record is smaller than the record. -/
theorem sizeOf_lookup?_lt
    {key : Text}
    {entries : List (Text × Data)}
    {value : Data}
    (h : lookup? key entries = some value) :
    sizeOf value < sizeOf entries := by
  induction entries with
  | nil => simp [lookup?] at h
  | cons entry more ih =>
      obtain ⟨name, found⟩ := entry
      simp only [lookup?] at h
      split at h
      · cases h
        simp only [List.cons.sizeOf_spec,
          Prod.mk.sizeOf_spec]
        omega
      · have := ih h
        simp only [List.cons.sizeOf_spec]
        omega

/- A text or nothing. -/
def ofOption
    (value : Option Text) : Data :=
  match value with
  | none => .null
  | some found => .text found

end Data

-- Faults

/- What may be wrong with a piece of data. -/
inductive FaultKind where
  | missing
  | notText
  | wrongWord
  | notList
  | notRecord
  | notTagged
  | noTag
  | wrongTag
  deriving DecidableEq, Repr

/- One step on the way to a place inside data. -/
inductive Step where
  | key (name : Text)
  | index (position : Nat)
  deriving DecidableEq, Repr

/- A fault and the way to it from the outside. -/
structure Fault where
  kind : FaultKind
  place : List Step
  deriving DecidableEq, Repr

-- Checks

/- The outcome of a check: a value, or all faults found. -/
def Checked (α : Type) : Type :=
  Except (List Fault) α

namespace Checked

variable {α β : Type}

/- A single fault at the place of the check. -/
def fault
    (kind : FaultKind) : Checked α :=
  .error [⟨kind, []⟩]

/- Two checks together: the faults of both are kept. -/
def both
    (first : Checked (α → β))
    (second : Checked α) : Checked β :=
  match first, second with
  | .ok f, .ok value => .ok (f value)
  | .ok _, .error faults => .error faults
  | .error faults, .ok _ => .error faults
  | .error faults, .error more => .error (faults ++ more)

instance : Applicative Checked where
  pure value := .ok value
  seq first second := both first (second ())

/- A check one step further inside. -/
def under
    (step : Step)
    (check : Checked α) : Checked α :=
  match check with
  | .ok value => .ok value
  | .error faults =>
      .error
        (faults.map fun fault =>
          { fault with place := step :: fault.place })

/- Checks every item of a list, from an index on. -/
def itemsFrom
    (check : Data → Checked α) :
    Nat → List Data → Checked (List α)
  | _, [] => pure []
  | index, item :: more =>
      List.cons <$> under (.index index) (check item) <*>
        itemsFrom check (index + 1) more

/- Checks a list and every item of it. -/
def items
    (check : Data → Checked α) : Data → Checked (List α)
  | .list found => itemsFrom check 0 found
  | _ => fault .notList

/- Checks that data is a text. -/
def text : Data → Checked Text
  | .text found => pure found
  | _ => fault .notText

/- Checks that data is a record, and its entries. -/
def record
    (check : List (Text × Data) → Checked α) :
    Data → Checked α
  | .record entries => check entries
  | _ => fault .notRecord

/- Null stands for nothing, and nothing else does. -/
def nullable
    (check : Data → Checked α) : Data → Checked (Option α)
  | .null => pure none
  | data => some <$> check data

/- Checks the value under a key that has to be there. -/
def needed
    (key : Text)
    (check : Data → Checked α)
    (entries : List (Text × Data)) : Checked α :=
  under (.key key)
    (match Data.lookup? key entries with
     | none => fault .missing
     | some data => check data)

/- Checks the value under a key that may be left out. -/
def optional
    (key : Text)
    (default : α)
    (check : Data → Checked α)
    (entries : List (Text × Data)) : Checked α :=
  match Data.lookup? key entries with
  | none => pure default
  | some data => under (.key key) (check data)

/- Checks that a text is one of the expected words. -/
def word
    (read : Text → Option α) : Data → Checked α
  | .text found =>
      match read found with
      | some value => pure value
      | none => fault .wrongWord
  | _ => fault .wrongWord

end Checked

end ThriftTypings
