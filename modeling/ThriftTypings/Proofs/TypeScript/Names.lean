import ThriftTypings.Proofs.TypeScript.Readback

/-
  This file proves that names are rewritten into legal ones,
  once and for all, and only where they have to be.

  Legal names are said by their characters here, and a key
  in quotes by a reader of string literals.

  Key definitions include:
    * `IsIdentifier`
    * `literalValue?`

  Key theorems include:
    * `literalValue?_literal`
    * `names_are_legal_and_stable`
-/

namespace ThriftTypings

namespace TypeScript

-- Legal Names

/-
  Is the name an identifier, by its characters? A dollar
  sign may stand anywhere in one.
-/
structure IsIdentifier
    (name : Text) : Prop where
  begins : ∃ c ∈ name.head?,
    c = '$' ∨ Text.beginsWord c = true
  continues : ∀ c ∈ name,
    c = '$' ∨ Text.continuesWord c = true

/- A test that an underscore passes, a dollar sign passes. -/
theorem dollar_iff
    {test : Char → Bool}
    (h : test '_' = true)
    (c : Char) :
    test (if c = '$' then '_' else c) = true ↔
      c = '$' ∨ test c = true := by
  by_cases hDollar : c = '$'
  · simp [hDollar, h]
  · simp [hDollar]

theorem isIdentifier_iff
    {name : Text} :
    isIdentifier name = true ↔ IsIdentifier name := by
  constructor
  · intro h
    refine ⟨?_, continuesWord_of_isIdentifier h⟩
    cases name with
    | nil => exact absurd rfl (ne_nil_of_isIdentifier h)
    | cons first rest =>
        have hFirst := (Bool.and_eq_true_iff.mp h).1
        exact ⟨first, rfl, (dollar_iff (by decide) _).mp hFirst⟩
  · rintro ⟨⟨first, hHead, hFirst⟩, hAll⟩
    obtain ⟨rest, rfl⟩ := List.head?_eq_some_iff.mp hHead
    refine Bool.and_eq_true_iff.mpr
      ⟨(dollar_iff (by decide) _).mpr hFirst, ?_⟩
    simp only [List.all_map, List.all_eq_true]
    exact fun c hMem => (dollar_iff (by decide) _).mpr
      (hAll c (List.mem_cons_of_mem _ hMem))

theorem isBinding_iff
    {name : Text} :
    isBinding name = true ↔
      IsIdentifier name ∧ name ∉ reservedWords := by
  simp [isBinding, isIdentifier_iff]

/- What is legal already is left as it is. -/
theorem sanitize_eq_self
    {name : Text}
    (h : isIdentifier name = true) :
    sanitize name = name := by
  have hSafe : name.map safeChar = name := by
    refine (List.map_congr_left fun c hMem => ?_).trans
      (List.map_id name)
    exact if_pos (continuesWord_of_isIdentifier h c hMem)
  rw [sanitize, hSafe, if_pos h]

theorem bindingName_eq_self_iff
    {name : Text} :
    bindingName name = name ↔ isBinding name = true := by
  constructor
  · intro h
    rw [← h]
    exact isBinding_bindingName name
  · intro h
    have hFree := (isBinding_iff.mp h).2
    rw [bindingName,
      sanitize_eq_self (isIdentifier_of_isBinding h),
      if_neg hFree]

-- Type References

/- Legal parts of a name are left as they are. -/
theorem typeReference_eq_self
    {name head : Text}
    {members : List Text}
    (hPieces : Text.pieces '.' name = head :: members)
    (hHead : isBinding head = true)
    (hMembers : ∀ part ∈ members,
      isIdentifier part = true) :
    typeReference name = name := by
  have hSame : members.map sanitize = members :=
    (List.map_congr_left fun part hMem =>
      sanitize_eq_self (hMembers part hMem)).trans
      (List.map_id members)
  rw [typeReference, hPieces]
  dsimp only
  rw [bindingName_eq_self_iff.mpr hHead, hSame, ← hPieces,
    Text.joined_pieces]

theorem typeReference_typeReference
    (name : Text) :
    typeReference (typeReference name) =
      typeReference name := by
  rcases Text.exists_pieces '.' name with
    ⟨head, members, hPieces⟩
  refine typeReference_eq_self (pieces_typeReference hPieces)
    (isBinding_bindingName head) fun part hPart => ?_
  rcases List.mem_map.mp hPart with ⟨member, _, rfl⟩
  exact isIdentifier_sanitize member

-- Keys in Quotes

/- What a string literal says after its first quote. -/
def literalRest? : Text → Option Text
  | [] => none
  | ['"'] => some []
  | '\\' :: 'u' :: a :: b :: c :: d :: rest =>
      match codeChar? a b c d with
      | none => none
      | some found => (literalRest? rest).map (found :: ·)
  | '\\' :: letter :: rest =>
      match escaped? letter with
      | none => none
      | some found => (literalRest? rest).map (found :: ·)
  | c :: rest =>
      if isInside c then (literalRest? rest).map (c :: ·)
      else none

/-
  What a string literal says, if the text is one: quotes
  around characters that are escaped or may stand there.
-/
def literalValue? : Text → Option Text
  | '"' :: rest => literalRest? rest
  | _ => none

theorem literalRest?_literalChar
    (c : Char)
    (rest : Text) :
    literalRest? (Text.literalChar c ++ rest) =
      (literalRest? rest).map (c :: ·) := by
  rcases literalChar_cases c with
    ⟨letter, hWritten, hSays, _, hLetter⟩ |
    ⟨a, b, d, e, hWritten, hSays, _⟩ | ⟨hWritten, hInside⟩
  · rw [hWritten, List.cons_append, List.cons_append,
      List.nil_append, literalRest?, hSays]
    intro _ _ _ _ _ hCode
    exact absurd hCode hLetter
  · rw [hWritten]
    simp only [List.cons_append, List.nil_append,
      literalRest?, hSays]
  · have hPlain := hInside
    simp only [isInside, Bool.and_eq_true, bne_iff_ne]
      at hPlain
    rw [hWritten, List.singleton_append, literalRest?,
      if_pos hInside]
    · exact fun hQuote _ => hPlain.1.1 hQuote
    · exact fun _ _ _ _ _ hSlash _ => hPlain.1.2 hSlash
    · exact fun _ _ hSlash _ => hPlain.1.2 hSlash

/- A literal is read as what it was made from. -/
theorem literalValue?_literal
    (text : Text) :
    literalValue? (Text.literal text) = some text := by
  have hRest : literalRest?
      (text.flatMap Text.literalChar ++ ['"']) = some text := by
    induction text with
    | nil => rfl
    | cons c rest ih =>
        rw [List.flatMap_cons, List.append_assoc,
          literalRest?_literalChar, ih]
        rfl
  exact hRest

/- A literal is longer than what it says. -/
theorem literal_ne_self
    (text : Text) :
    Text.literal text ≠ text := by
  have hLength : text.length ≤
      (text.flatMap Text.literalChar).length := by
    induction text with
    | nil => exact Nat.le_refl 0
    | cons c rest ih =>
        have hChar : 0 < (Text.literalChar c).length := by
          rcases literalChar_cases c with
            ⟨_, hWritten, _⟩ | ⟨_, _, _, _, hWritten, _⟩ |
            ⟨hWritten, _⟩ <;>
          simp [hWritten]
        simp only [List.flatMap_cons, List.length_append,
          List.length_cons]
        omega
  intro hSame
  have hEqual := congrArg List.length hSame
  simp only [Text.literal, List.length_append,
    List.length_singleton] at hEqual
  omega

theorem literalValue?_identifier
    {name : Text}
    (h : isIdentifier name = true) :
    literalValue? name = none := by
  unfold literalValue?
  split
  · rcases continuesWord_of_isIdentifier h '"' (by simp) with
      hDollar | hWord
    · exact absurd hDollar (by decide)
    · exact absurd hWord (by decide)
  · rfl

/- A key says its name, in quotes or as it is. -/
theorem literalValue?_propertyKey
    (name : Text) :
    (literalValue? (propertyKey name)).getD
      (propertyKey name) = name := by
  unfold propertyKey
  split
  · next hName => rw [literalValue?_identifier hName]; rfl
  · rw [literalValue?_literal]
    rfl

theorem propertyKey_injective
    {first second : Text}
    (h : propertyKey first = propertyKey second) :
    first = second := by
  rw [← literalValue?_propertyKey first, h,
    literalValue?_propertyKey]

theorem propertyKey_eq_self_iff
    {name : Text} :
    propertyKey name = name ↔ isIdentifier name = true := by
  by_cases hName : isIdentifier name = true
  · simp [propertyKey, hName]
  · simp [propertyKey, hName, literal_ne_self]

theorem literalValue?_propertyKey_iff
    {name : Text} :
    literalValue? (propertyKey name) = some name ↔
      ¬ isIdentifier name = true := by
  by_cases hName : isIdentifier name = true
  · simp [propertyKey, hName, literalValue?_identifier]
  · simp [propertyKey, hName, literalValue?_literal]

-- All Names

/-
  Whatever the name, its binding and the parts of its type
  reference are legal, rewriting again changes nothing, and
  a legal name is not rewritten. Keys tell names apart: a
  key is the name itself just if that is an identifier, and
  a string literal of it just if not.
-/
theorem names_are_legal_and_stable
    (name : Text) :
    (IsIdentifier (bindingName name) ∧
      bindingName name ∉ reservedWords ∧
      (bindingName name = name ↔
        IsIdentifier name ∧ name ∉ reservedWords) ∧
      bindingName (bindingName name) = bindingName name) ∧
    ((Text.pieces '.' (typeReference name)).length =
        (Text.pieces '.' name).length ∧
      (∀ part ∈ Text.pieces '.' (typeReference name),
        IsIdentifier part) ∧
      (∀ head ∈ (Text.pieces '.' (typeReference name)).head?,
        head ∉ reservedWords) ∧
      typeReference (typeReference name) =
        typeReference name) ∧
    (∀ other, propertyKey other = propertyKey name ↔
      other = name) ∧
    (propertyKey name = name ↔ IsIdentifier name) ∧
    (literalValue? (propertyKey name) = some name ↔
      ¬ IsIdentifier name) := by
  have hLegal := isBinding_bindingName name
  rcases isBinding_iff.mp hLegal with ⟨hWord, hFree⟩
  rcases Text.exists_pieces '.' name with
    ⟨head, members, hPieces⟩
  have hParts := pieces_typeReference hPieces
  rcases isBinding_iff.mp (isBinding_bindingName head) with
    ⟨hHeadWord, hHeadFree⟩
  refine ⟨⟨hWord, hFree, ?_, ?_⟩, ⟨?_, ?_, ?_, ?_⟩,
    ?_, ?_, ?_⟩
  · exact bindingName_eq_self_iff.trans isBinding_iff
  · exact bindingName_eq_self_iff.mpr hLegal
  · rw [hParts, hPieces]
    simp
  · rw [hParts]
    refine List.forall_mem_cons.mpr
      ⟨hHeadWord, fun part hPart => ?_⟩
    rcases List.mem_map.mp hPart with ⟨member, _, rfl⟩
    exact isIdentifier_iff.mp (isIdentifier_sanitize member)
  · rw [hParts]
    rintro _ ⟨⟩
    exact hHeadFree
  · exact typeReference_typeReference name
  · exact fun other =>
      ⟨propertyKey_injective, congrArg propertyKey⟩
  · exact propertyKey_eq_self_iff.trans isIdentifier_iff
  · exact literalValue?_propertyKey_iff.trans
      (not_congr isIdentifier_iff)

end TypeScript

end ThriftTypings
