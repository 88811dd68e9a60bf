import ThriftTypings.Idl.Lexeme

/-
  This file defines how types are read.

  A built-in type is a keyword. `list` and `map` open a
  composed type only if an angle bracket follows. Anything
  else is a name. The order in which the alternatives are
  tried is a parameter.
-/

namespace ThriftTypings

namespace Idl

-- The Order of Alternatives

/- The constructors of composed types. -/
inductive Generic where
  | list
  | map
  deriving DecidableEq, Repr

namespace Generic

/- The word that opens a composed type. -/
def word : Generic → Text
  | .list => "list".toList
  | .map => "map".toList

/- Both, in their usual order. -/
def all : List Generic :=
  [.list, .map]

end Generic

/- The orders in which alternatives are tried. -/
structure Order where
  kinds : List Kind
  primitives : List Primitive
  generics : List Generic
  requiredness : List Requiredness
  deriving DecidableEq, Repr

/- The usual order of alternatives. -/
def Order.usual : Order where
  kinds := Kind.all
  primitives := Primitive.all
  generics := Generic.all
  requiredness := Requiredness.all

/- The first of several words that stands next. -/
def firstKeyword?
    {α : Type}
    (word : α → Text)
    (choices : List α)
    (text : Text) : Option (α × Text) :=
  choices.findSome? fun choice =>
    (keyword? (word choice) text).map fun rest =>
      (choice, rest)

theorem firstKeyword?_suffix
    {α : Type}
    {word : α → Text}
    {choices : List α}
    {text rest : Text}
    {choice : α}
    (h : firstKeyword? word choices text =
      some (choice, rest)) :
    rest <:+ text ∧
      rest.length + (word choice).length ≤ text.length := by
  obtain ⟨found, _, hFound⟩ :=
    List.exists_of_findSome?_eq_some h
  obtain ⟨after, hKeyword, hPair⟩ :=
    Option.map_eq_some_iff.mp hFound
  cases hPair
  exact keyword?_suffix hKeyword

-- Composed Types

/-
  The text after the opening of a composed type: its word,
  which need not end there, and an angle bracket.
-/
def generic?
    (generic : Generic)
    (text : Text) : Option Text :=
  let start := skipSpace text
  if Text.startsWith start generic.word then
    match skipSpace (start.drop generic.word.length) with
    | '<' :: rest => some rest
    | _ => none
  else
    none

theorem generic?_suffix
    {generic : Generic}
    {text rest : Text}
    (h : generic? generic text = some rest) :
    rest <:+ text ∧ rest.length < text.length := by
  have hSkip := skipSpace_suffix text
  simp only [generic?, Option.ite_none_right_eq_some] at h
  obtain ⟨_, h⟩ := h
  split at h
  · next more hMore =>
      cases h
      have hInner := skipSpace_suffix
        ((skipSpace text).drop generic.word.length)
      rw [hMore] at hInner
      have hAll := ((List.suffix_cons _ _).trans
        (hInner.trans (List.drop_suffix _ _))).trans hSkip
      refine ⟨hAll, ?_⟩
      have hOuter := (hInner.trans
        (List.drop_suffix _ _)).length_le
      have hLength := hSkip.length_le
      simp only [List.length_cons] at hOuter
      omega
  · cases h

/- The first composed type that opens here. -/
def firstGeneric?
    (choices : List Generic)
    (text : Text) : Option (Generic × Text) :=
  choices.findSome? fun generic =>
    (generic? generic text).map fun rest => (generic, rest)

theorem firstGeneric?_suffix
    {choices : List Generic}
    {text rest : Text}
    {generic : Generic}
    (h : firstGeneric? choices text = some (generic, rest)) :
    rest <:+ text ∧ rest.length < text.length := by
  obtain ⟨found, _, hFound⟩ :=
    List.exists_of_findSome?_eq_some h
  obtain ⟨after, hGeneric, hPair⟩ :=
    Option.map_eq_some_iff.mp hFound
  cases hPair
  exact generic?_suffix hGeneric

/- Reads the rest of a composed type after its opening. -/
def composed
    (nested : Scan IdlType) : Generic → Scan IdlType
  | .list => do
      let element ← nested
      symbol '>'
      pure (.list element)
  | .map => do
      let key ← nested
      symbol ','
      let value ← nested
      symbol '>'
      pure (.map key value)

/- Reads a name as a type. -/
def namedType : Scan IdlType := do
  let name ← identifier
  pure (.named name)

theorem consumes_namedType :
    Scan.Consumes namedType :=
  Scan.Consumes.bind (consumes_run _ _) fun _ =>
    Scan.advances_pure _

-- Types

/- Reads a type, given how to read the types inside it. -/
def typeAround
    (order : Order)
    (nested : Scan IdlType) : Scan IdlType :=
  Scan.labelled .type fun text =>
    match
      firstKeyword? Primitive.word order.primitives text
    with
    | some (primitive, rest) => .ok (.primitive primitive, rest)
    | none =>
        match firstGeneric? order.generics text with
        | some (generic, rest) => composed nested generic rest
        | none => namedType text

/-
  Reads a type that is nested at most so deep. At depth 0
  it can only be a name.
-/
def typeWithin
    (order : Order) : Nat → Scan IdlType
  | 0 => Scan.labelled .type namedType
  | depth + 1 => typeAround order (typeWithin order depth)

/-
  Reads a type. A type in a text of some length is nested
  less deep than that.
-/
def idlType
    (order : Order) : Scan IdlType :=
  fun text => typeWithin order text.length text

/- Reads a type and nothing after it but white space. -/
def completeType
    (order : Order) : Scan IdlType := do
  let type ← idlType order
  Scan.passing skipSpace
  fun text =>
    if text.isEmpty then .ok (type, text)
    else .error ⟨.afterType, [], text⟩

-- Progress

theorem advances_composed
    {nested : Scan IdlType}
    (h : Scan.Advances nested)
    (generic : Generic) :
    Scan.Advances (composed nested generic) := by
  have hSymbol (c : Char) :=
    (consumes_symbol c).advances
  cases generic with
  | list =>
      exact h.bind fun _ => (hSymbol _).bind fun _ =>
        Scan.advances_pure _
  | map =>
      exact h.bind fun _ => (hSymbol _).bind fun _ =>
        h.bind fun _ => (hSymbol _).bind fun _ =>
          Scan.advances_pure _

theorem consumes_typeAround
    (order : Order)
    {nested : Scan IdlType}
    (h : Scan.Advances nested) :
    Scan.Consumes (typeAround order nested) := by
  refine Scan.Consumes.labelled ?_ _
  intro text value rest eq
  dsimp only at eq
  split at eq
  · next primitive _ hPrimitive =>
      cases eq
      have hRest := firstKeyword?_suffix hPrimitive
      refine ⟨hRest.1, ?_⟩
      have hWord := primitive.length_word_pos
      omega
  · split at eq
    · next hGeneric =>
        have hOpen := firstGeneric?_suffix hGeneric
        have hRest := advances_composed h _ _ _ _ eq
        exact ⟨hRest.trans hOpen.1,
          Nat.lt_of_le_of_lt hRest.length_le hOpen.2⟩
    · exact consumes_namedType _ _ _ eq

theorem consumes_typeWithin
    (order : Order)
    (depth : Nat) :
    Scan.Consumes (typeWithin order depth) := by
  induction depth with
  | zero => exact consumes_namedType.labelled _
  | succ depth ih =>
      exact consumes_typeAround order ih.advances

/- A type that was read takes up some of the text. -/
theorem consumes_idlType
    (order : Order) :
    Scan.Consumes (idlType order) :=
  fun text => consumes_typeWithin order text.length text

-- The Depth Does Not Matter

theorem composed_congr
    {first second : Scan IdlType}
    {generic : Generic}
    {text : Text}
    (hAdvances : Scan.Advances first)
    (h : ∀ rest : Text,
      rest.length ≤ text.length → first rest = second rest) :
    composed first generic text =
      composed second generic text := by
  have hHere := h text (Nat.le_refl _)
  cases generic with
  | list =>
      simp only [composed, Scan.bind_apply, hHere]
  | map =>
      simp only [composed, Scan.bind_apply, ← hHere]
      cases hKey : first text with
      | error failure => rfl
      | ok pair =>
          obtain ⟨key, afterKey⟩ := pair
          dsimp only
          cases hComma : symbol ',' afterKey with
          | error failure => rfl
          | ok pair =>
              obtain ⟨_, afterComma⟩ := pair
              dsimp only
              have hKeyLength :=
                (hAdvances _ _ _ hKey).length_le
              have hCommaLength :=
                (consumes_symbol ',' _ _ _ hComma).2
              rw [h afterComma (by omega)]

theorem typeAround_congr
    {order : Order}
    {first second : Scan IdlType}
    {text : Text}
    (hAdvances : Scan.Advances first)
    (h : ∀ rest : Text,
      rest.length < text.length → first rest = second rest) :
    typeAround order first text =
      typeAround order second text := by
  simp only [typeAround, Scan.labelled]
  cases hPrimitive :
      firstKeyword? Primitive.word order.primitives text with
  | some found => rfl
  | none =>
      cases hGeneric :
          firstGeneric? order.generics text with
      | none => rfl
      | some found =>
          obtain ⟨generic, inner⟩ := found
          have hOpen := firstGeneric?_suffix hGeneric
          dsimp only
          rw [composed_congr hAdvances fun rest hRest =>
            h rest (by omega)]

theorem firstKeyword?_nil
    {order : Order} :
    firstKeyword? Primitive.word order.primitives [] =
      none := by
  cases h : firstKeyword? Primitive.word order.primitives []
    with
  | none => rfl
  | some found =>
      obtain ⟨primitive, rest⟩ := found
      have hRest := (firstKeyword?_suffix h).2
      have hWord := primitive.length_word_pos
      simp only [List.length_nil] at hRest
      omega

theorem firstGeneric?_nil
    {choices : List Generic} :
    firstGeneric? choices [] = none := by
  cases h : firstGeneric? choices [] with
  | none => rfl
  | some found =>
      have hRest := (firstGeneric?_suffix h).2
      simp at hRest

theorem typeAround_nil
    (order : Order)
    (nested : Scan IdlType) :
    typeAround order nested [] =
      Scan.labelled .type namedType [] := by
  simp [typeAround, Scan.labelled, firstKeyword?_nil,
    firstGeneric?_nil]

/- Any two depths from the length of the text on agree. -/
theorem typeWithin_congr
    (order : Order)
    {first second : Nat}
    {text : Text}
    (hFirst : text.length ≤ first)
    (hSecond : text.length ≤ second) :
    typeWithin order first text =
      typeWithin order second text := by
  induction first generalizing second text with
  | zero =>
      have hNil : text = [] :=
        List.length_eq_zero_iff.mp (Nat.le_zero.mp hFirst)
      subst hNil
      cases second with
      | zero => rfl
      | succ second => exact (typeAround_nil _ _).symm
  | succ first ih =>
      cases second with
      | zero =>
          have hNil : text = [] :=
            List.length_eq_zero_iff.mp
              (Nat.le_zero.mp hSecond)
          subst hNil
          exact typeAround_nil _ _
      | succ second =>
          exact typeAround_congr
            (consumes_typeWithin order first).advances
            fun rest hRest => ih (by omega) (by omega)

/- A type is read like the types inside it. -/
theorem idlType_eq
    (order : Order)
    (text : Text) :
    idlType order text =
      typeAround order (idlType order) text := by
  cases text with
  | nil => exact (typeAround_nil _ _).symm
  | cons c text =>
      refine typeAround_congr
        (consumes_typeWithin order text.length).advances
        fun rest hRest => ?_
      simp only [List.length_cons] at hRest
      exact typeWithin_congr order (by omega) (Nat.le_refl _)

end Idl

end ThriftTypings
