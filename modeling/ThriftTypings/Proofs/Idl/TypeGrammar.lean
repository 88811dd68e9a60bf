import ThriftTypings.Proofs.Idl.Reuse
import ThriftTypings.Proofs.Idl.Viability

/-
  This file proves that the types that are read are those of
  a grammar.

  The grammar says which texts a type is written as, with
  white space in front of every part. A name may be any word
  but that of a built-in type, so `list` and `map` are names
  where no bracket follows them.

  Key definitions include:
    * `IsTypeText`

  Key theorems include:
    * `IdlType.read_iff_isTypeText`
    * `Parser.type_accepts_grammar`
-/

namespace ThriftTypings

namespace Idl

-- The Grammar of Types

/- The texts that a type is written as. -/
inductive IsTypeText : IdlType → Text → Prop where
  | primitive
      {gap : Text}
      (primitive : Primitive)
      (gapped : IsGap gap) :
      IsTypeText (.primitive primitive)
        (gap ++ primitive.word)
  | named
      {gap name : Text}
      (gapped : IsGap gap)
      (isWord : IsWord name)
      (free : ∀ primitive : Primitive,
        primitive.word ≠ name) :
      IsTypeText (.named name) (gap ++ name)
  | list
      {gap opening text closing : Text}
      {element : IdlType}
      (gapped : IsGap gap)
      (opened : IsGap opening)
      (inner : IsTypeText element text)
      (closed : IsGap closing) :
      IsTypeText (.list element)
        (gap ++ "list".toList ++ opening ++ ['<'] ++
          text ++ closing ++ ['>'])
  | map
      {gap opening first between second closing : Text}
      {key value : IdlType}
      (gapped : IsGap gap)
      (opened : IsGap opening)
      (left : IsTypeText key first)
      (parted : IsGap between)
      (right : IsTypeText value second)
      (closed : IsGap closing) :
      IsTypeText (.map key value)
        (gap ++ "map".toList ++ opening ++ ['<'] ++
          first ++ between ++ [','] ++
            second ++ closing ++ ['>'])

/- What is skipped in front of a part is a gap. -/
theorem exists_gap_before
    {text rest : Text}
    (h : skipSpace text = rest) :
    ∃ gap, IsGap gap ∧ text = gap ++ rest := by
  rw [← h]
  exact exists_gap text

theorem isGap_iff
    {text : Text} :
    IsGap text ↔ skipSpace text = [] :=
  List.dropWhile_eq_nil_iff.symm

/- A part stands in a text after the gap in front of it. -/
theorem skipSpace_part
    {gap part : Text}
    (hGap : IsGap gap)
    (hPart : IsWord part)
    (rest : Text) :
    skipSpace (gap ++ (part ++ rest)) = part ++ rest := by
  rw [skipSpace_gap hGap]
  exact (hPart.startsWord.append rest).skipSpace_eq

theorem skipSpace_mark
    {gap : Text}
    {c : Char}
    (hGap : IsGap gap)
    (hMark : isSpace c = false)
    (rest : Text) :
    skipSpace (gap ++ c :: rest) = c :: rest := by
  rw [skipSpace_gap hGap, skipSpace_cons hMark]

-- What Is Read Is of the Grammar

section Reading

variable {order : Order} {type : IdlType} {text rest : Text}

/- A composed type that is read opens with two gaps. -/
theorem exists_gaps_of_firstGeneric?
    {generic : Generic}
    {inner : Text}
    (h : firstGeneric? order.generics text =
      some (generic, inner)) :
    ∃ gap opening, IsGap gap ∧ IsGap opening ∧
      text = gap ++ (generic.word ++
        (opening ++ '<' :: inner)) := by
  rcases spelled_of_firstGeneric? h with
    ⟨_, after, hText, hOpen⟩
  rcases exists_gap_before hText with ⟨gap, hGap, rfl⟩
  rcases exists_gap_before hOpen with
    ⟨opening, hOpening, rfl⟩
  exact ⟨gap, opening, hGap, hOpening, rfl⟩

/- A type that is read was written there. -/
theorem isTypeText_of_idlType
    (hOrder : order.IsFull)
    (h : idlType order text = .ok (type, rest)) :
    ∃ front, IsTypeText type front ∧ text = front ++ rest := by
  refine idlType_induction (fun text type rest =>
    ∃ front, IsTypeText type front ∧ text = front ++ rest)
    ?_ ?_ ?_ ?_ h
  · intro text rest primitive hKeyword
    rcases spelled_of_firstKeyword? hKeyword with
      ⟨_, hText, _⟩
    rcases exists_gap_before hText with ⟨gap, hGap, rfl⟩
    refine ⟨_, .primitive primitive hGap, ?_⟩
    rw [List.append_assoc]
  · rintro text _ left rest element hOpen
      ⟨front, hFront, rfl⟩ hClose
    rcases exists_gaps_of_firstGeneric? hOpen with
      ⟨gap, opening, hGap, hOpening, rfl⟩
    rcases exists_gap_before hClose with
      ⟨closing, hClosing, rfl⟩
    refine ⟨_, .list hGap hOpening hFront hClosing, ?_⟩
    simp [Generic.word]
  · rintro text _ afterKey _ left rest key value hOpen
      ⟨first, hLeft, rfl⟩ hComma ⟨second, hRight, rfl⟩ hClose
    rcases exists_gaps_of_firstGeneric? hOpen with
      ⟨gap, opening, hGap, hOpening, rfl⟩
    rcases exists_gap_before hComma with
      ⟨between, hBetween, rfl⟩
    rcases exists_gap_before hClose with
      ⟨closing, hClosing, rfl⟩
    refine ⟨_, .map hGap hOpening hLeft hBetween hRight
      hClosing, ?_⟩
    simp [Generic.word]
  · intro text rest name hNone hName
    rcases identifier_eq_ok_iff.mp hName with ⟨_, _, hText⟩
    rcases exists_gap_before hText with ⟨gap, hGap, rfl⟩
    rcases wellFormed_of_identifier hOrder hNone hName with
      ⟨hWord, hOther⟩
    refine ⟨_, .named hGap hWord hOther, ?_⟩
    rw [List.append_assoc]

-- What Is of the Grammar Is Read

/- A type does not go on where a comma or a bracket closes. -/
theorem ends_at_mark
    {gap : Text}
    (hGap : IsGap gap)
    {c : Char}
    (hMark : isDelimiter c = true ∧ isSpace c = false ∧
      c ≠ '<')
    (rest : Text) :
    endsWord (gap ++ c :: rest) = true ∧
      Stops (· == '<') (skipSpace (gap ++ c :: rest)) := by
  rcases hMark with ⟨hDelimiter, hSpace, hOther⟩
  constructor
  · exact endsWord_of_skipSpace
      (skipSpace_mark hGap hSpace rest) hDelimiter
  · rw [skipSpace_gap hGap]
    exact stops_of_bracket hSpace hOther rest

/- A type is read where it is written and does not go on. -/
theorem idlType_of_isTypeText
    (hOrder : order.IsFull)
    {front : Text}
    (h : IsTypeText type front)
    (hEnds : endsWord rest = true)
    (hRest : Stops (· == '<') (skipSpace rest)) :
    idlType order (front ++ rest) = .ok (type, rest) := by
  induction h generalizing rest with
  | primitive primitive hGap =>
      rw [List.append_assoc]
      have hWellFormed :
          (IdlType.primitive primitive).WellFormed := trivial
      exact idlType_text hOrder hWellFormed
        (skipSpace_part hGap primitive.isWord_word rest)
        hEnds hRest
  | @named _ name hGap hWord hFree =>
      rw [List.append_assoc]
      have hWellFormed :
          (IdlType.named name).WellFormed := ⟨hWord, hFree⟩
      exact idlType_text hOrder hWellFormed
        (skipSpace_part hGap hWord rest) hEnds hRest
  | list hGap hOpening _ hClosing ih =>
      have hClose := ends_at_mark hClosing (c := '>')
        (by decide) rest
      simp only [List.append_assoc, List.singleton_append]
      exact idlType_opened hOrder
        (skipSpace_part hGap Generic.list.isWord_word _)
        (skipSpace_mark hOpening (by decide) _)
        (composed_eq_ok_iff.mpr
          ⟨_, _, ih hClose.1 hClose.2,
            skipSpace_mark hClosing (by decide) _, rfl⟩)
  | @map _ _ _ _ second closing _ _ hGap hOpening _ hBetween _
      hClosing ihKey ihValue =>
      have hComma := ends_at_mark hBetween (c := ',')
        (by decide) (second ++ (closing ++ '>' :: rest))
      have hClose := ends_at_mark hClosing (c := '>')
        (by decide) rest
      simp only [List.append_assoc, List.singleton_append]
      exact idlType_opened hOrder
        (skipSpace_part hGap Generic.map.isWord_word _)
        (skipSpace_mark hOpening (by decide) _)
        (composed_eq_ok_iff.mpr
          ⟨_, _, _, _, _, ihKey hComma.1 hComma.2,
            skipSpace_mark hBetween (by decide) _,
            ihValue hClose.1 hClose.2,
            skipSpace_mark hClosing (by decide) _, rfl⟩)

-- Whole Sources

/- A source is a type and a gap. -/
theorem completeType_eq_ok_iff :
    completeType order text = .ok (type, rest) ↔
      ∃ gap, idlType order text = .ok (type, gap) ∧
        IsGap gap ∧ rest = [] := by
  constructor
  · intro h
    have hRest := rest_of_completeType h
    rcases Scan.bind_eq_ok_iff.mp h with
      ⟨found, gap, hType, h⟩
    rcases Scan.bind_eq_ok_iff.mp h with
      ⟨_, left, hPass, h⟩
    cases hPass
    split at h
    · next hEmpty =>
        cases h
        exact ⟨gap, hType,
          isGap_iff.mpr (List.isEmpty_iff.mp hEmpty), hRest⟩
    · cases h
  · rintro ⟨gap, hType, hGap, rfl⟩
    exact completeType_of_idlType hType hGap

end Reading

theorem IdlType.read_eq_ok_iff
    {order : Order}
    {source : Text}
    {type : IdlType} :
    IdlType.read order source = .ok type ↔
      completeType order source = .ok (type, []) := by
  rw [← Scan.labelled_eq_ok_iff, IdlType.read]
  cases hRead : Scan.labelled .type (completeType order)
      source with
  | error failure => simp only [reduceCtorEq]
  | ok pair =>
      have hRest := rest_of_completeType
        (Scan.labelled_eq_ok_iff.mp hRead)
      rcases pair with ⟨found, rest⟩
      simp only [Except.ok.injEq, Prod.mk.injEq]
      exact (and_iff_left hRest).symm

/- The types that are read from whole sources. -/
theorem IdlType.read_iff_isTypeText
    {order : Order}
    (hOrder : order.IsFull)
    {source : Text}
    {type : IdlType} :
    IdlType.read order source = .ok type ↔
      ∃ text gap, IsTypeText type text ∧ IsGap gap ∧
        source = text ++ gap := by
  rw [IdlType.read_eq_ok_iff, completeType_eq_ok_iff]
  constructor
  · rintro ⟨gap, hType, hGap, _⟩
    rcases isTypeText_of_idlType hOrder hType with
      ⟨text, hText, hSource⟩
    exact ⟨text, gap, hText, hGap, hSource⟩
  · rintro ⟨text, gap, hText, hGap, rfl⟩
    have hSkipped := isGap_iff.mp hGap
    refine ⟨gap, idlType_of_isTypeText hOrder hText ?_ ?_,
      hGap, rfl⟩
    · rw [← List.append_nil gap]
      exact endsWord_of_gap hGap (.inr rfl)
    · rw [hSkipped]
      exact nofun

/-
  Reading a source as a type gives a type just if the source
  is a text of this type and a gap after it. Any other
  source is reported.
-/
theorem Parser.type_accepts_grammar
    (source : Text)
    (file : Option Text) :
    (∀ type, (Parser.new source file).type.1 = .ok type ↔
      ∃ text gap, IsTypeText type text ∧ IsGap gap ∧
        source = text ++ gap) ∧
    ((∃ error,
        (Parser.new source file).type.1 = .error error) ↔
      ∀ type text gap, IsTypeText type text → IsGap gap →
        source ≠ text ++ gap) := by
  have hAccepts (type : IdlType) :
      (Parser.new source file).type.1 = .ok type ↔
        ∃ text gap, IsTypeText type text ∧ IsGap gap ∧
          source = text ++ gap := by
    rw [(answers_type (Parser.new source file) rfl).outcome,
      ← IdlType.read_iff_isTypeText Order.isFull_usual]
    change (IdlType.read Order.usual source).mapError _ =
      .ok type ↔ _
    cases IdlType.read Order.usual source with
    | error failure => simp [Except.mapError]
    | ok found => simp [Except.mapError]
  refine ⟨hAccepts, ?_⟩
  constructor
  · rintro ⟨error, hError⟩ type text gap hText hGap hSource
    have hOk :=
      (hAccepts type).mpr ⟨text, gap, hText, hGap, hSource⟩
    rw [hError] at hOk
    cases hOk
  · intro hNone
    cases hReply : (Parser.new source file).type.1 with
    | error error => exact ⟨error, rfl⟩
    | ok type =>
        rcases (hAccepts type).mp hReply with
          ⟨text, gap, hText, hGap, hSource⟩
        exact absurd hSource
          (hNone type text gap hText hGap)

end Idl

end ThriftTypings
