import Mathlib.Data.List.TakeWhile
import ThriftTypings.Idl.Comments
import ThriftTypings.Idl.Types

/-
  This file says for each lexeme which texts it is read
  from, and what is left of them.

  A lexeme is read from a text if it stands there after
  white space. A word moreover has to be followed by a
  delimiter or by the end of the text.

  Key definitions include:
    * `IsWord`

  Key theorems include:
    * `idlType_eq_ok_iff`
    * `comments_cons` and `comments_nil`
-/

namespace ThriftTypings

namespace Idl

variable {c : Char} {generic : Generic}
variable {belongs : Char → Bool}

-- Sequences and Repetition

namespace Scan

/- A sequence succeeds step by step. -/
theorem bind_ok
    {α β : Type}
    {first : Scan α}
    {next : α → Scan β}
    {text rest : Text}
    {value : α}
    {result : β × Text}
    (h : first text = .ok (value, rest))
    (hNext : next value rest = .ok result) :
    (first >>= next) text = .ok result :=
  bind_eq_ok_iff.mpr ⟨value, rest, h, hNext⟩

/- A sequence depends on the text by its first step. -/
theorem bind_congr
    {α β : Type}
    {first : Scan α}
    (next : α → Scan β)
    {text other : Text}
    (h : first text = first other) :
    (first >>= next) text = (first >>= next) other := by
  rw [bind_apply, bind_apply, h]

variable {α β : Type} {step : Scan (Round α β)}

theorem repeated_last
    (progress : Progresses step)
    {text rest : Text}
    {final : β}
    (h : step text = .ok (.last final, rest)) :
    repeated step progress text =
      .ok (([], final), rest) := by
  rw [repeated_eq, h]

theorem repeated_more
    (progress : Progresses step)
    {text rest left : Text}
    {value : α}
    {values : List α}
    {final : β}
    (h : step text = .ok (.more value, rest))
    (hMore : repeated step progress rest =
      .ok ((values, final), left)) :
    repeated step progress text =
      .ok ((value :: values, final), left) := by
  rw [repeated_eq, h]
  simp only [hMore]

/- A repetition depends on the text by its first round. -/
theorem repeated_congr
    (progress : Progresses step)
    {text other : Text}
    (h : step text = step other) :
    repeated step progress text =
      repeated step progress other := by
  rw [repeated_eq, repeated_eq progress other, h]

/- What a repetition gives comes from its rounds in turn. -/
theorem repeated_eq_ok_iff
    {progress : Progresses step}
    {text rest : Text}
    {values : List α}
    {final : β} :
    repeated step progress text =
        .ok ((values, final), rest) ↔
      match values with
      | [] => step text = .ok (.last final, rest)
      | value :: more => ∃ after,
          step text = .ok (.more value, after) ∧
            repeated step progress after =
              .ok ((more, final), rest) := by
  constructor
  · intro h
    rw [repeated_eq] at h
    split at h
    · cases h
    · next hStep =>
        cases h
        exact hStep
    · next hStep =>
        split at h
        · cases h
        · next hRest =>
            cases h
            exact ⟨_, hStep, hRest⟩
  · intro h
    cases values with
    | nil => exact repeated_last progress h
    | cons value more =>
        rcases h with ⟨after, hStep, hRest⟩
        exact repeated_more progress hStep hRest

/- What the rounds of a repetition read, it gives. -/
theorem forall_of_repeated
    {progress : Progresses step}
    {found : α → Prop}
    {ended : β → Prop}
    (hMore : ∀ text value rest,
      step text = .ok (.more value, rest) → found value)
    (hLast : ∀ text value rest,
      step text = .ok (.last value, rest) → ended value)
    {text rest : Text}
    {values : List α}
    {final : β}
    (h : repeated step progress text =
      .ok ((values, final), rest)) :
    (∀ value ∈ values, found value) ∧ ended final := by
  induction values generalizing text with
  | nil =>
      exact ⟨by simp, hLast _ _ _ (repeated_eq_ok_iff.mp h)⟩
  | cons value values ih =>
      rcases repeated_eq_ok_iff.mp h with
        ⟨after, hStep, hRest⟩
      rcases ih hRest with ⟨hValues, hFinal⟩
      exact ⟨List.forall_mem_cons.mpr
        ⟨hMore _ _ _ hStep, hValues⟩, hFinal⟩

end Scan

-- White Space

theorem skipSpace_cons_space
    (h : isSpace c = true)
    (text : Text) :
    skipSpace (c :: text) = skipSpace text :=
  List.dropWhile_cons_of_pos h

theorem skipSpace_cons
    (h : isSpace c = false)
    (text : Text) :
    skipSpace (c :: text) = c :: text :=
  List.dropWhile_cons_of_neg (by simp [h])

theorem isDelimiter_of_isSpace
    (h : isSpace c = true) :
    isDelimiter c = true := by
  have hSpaces :
      c ∈ [' ', '\t', '\r', '\n'] := by
    simpa [isSpace, or_assoc] using h
  have hAll :
      [' ', '\t', '\r', '\n'].all isDelimiter = true := by
    decide
  exact List.all_eq_true.mp hAll c hSpaces

theorem isSpace_of_not_isDelimiter
    (h : isDelimiter c = false) :
    isSpace c = false := by
  cases hSpace : isSpace c with
  | false => rfl
  | true =>
      rw [isDelimiter_of_isSpace hSpace] at h
      cases h

theorem isDelimiter_of_isDigit
    (h : c.isDigit = true) :
    isDelimiter c = false := by
  have hNone :
      " \t\r\n-=()\x7b\x7d[]<>,;\"/".toList.all
        (!Char.isDigit ·) = true := by
    decide
  cases hDelimiter : isDelimiter c with
  | false => rfl
  | true =>
      have hNot := List.all_eq_true.mp hNone c
        (by simpa [isDelimiter] using hDelimiter)
      rw [h] at hNot
      cases hNot

-- Symbols

/- A symbol is read where it stands after white space. -/
theorem symbol_eq_ok_iff
    {text rest : Text} :
    symbol c text = .ok ((), rest) ↔
      skipSpace text = c :: rest := by
  unfold symbol
  split
  · next hText => simp [hText]
  · next d more hText =>
      rw [hText]
      by_cases hSame : d = c <;> simp [hSame]

theorem symbol_cons
    (h : isSpace c = false)
    (rest : Text) :
    symbol c (c :: rest) = .ok ((), rest) :=
  symbol_eq_ok_iff.mpr (skipSpace_cons h rest)

-- Runs of Characters

/- Does the text go on with no character of a class? -/
def Stops
    (belongs : Char → Bool)
    (text : Text) : Prop :=
  ∀ c ∈ text.head?, belongs c = false

theorem takeWhile_run
    {word rest : Text}
    (hWord : ∀ c ∈ word, belongs c = true)
    (hRest : Stops belongs rest) :
    (word ++ rest).takeWhile belongs = word := by
  rw [List.takeWhile_append_of_pos hWord]
  cases rest with
  | nil => simp
  | cons c rest =>
      have hStop : belongs c = false := hRest c rfl
      simp [hStop]

theorem dropWhile_run
    {word rest : Text}
    (hWord : ∀ c ∈ word, belongs c = true)
    (hRest : Stops belongs rest) :
    (word ++ rest).dropWhile belongs = rest := by
  rw [List.dropWhile_append_of_pos hWord]
  cases rest with
  | nil => rfl
  | cons c rest =>
      have hStop : belongs c = false := hRest c rfl
      simp [hStop]

theorem stops_dropWhile
    (belongs : Char → Bool)
    (text : Text) :
    Stops belongs (text.dropWhile belongs) := by
  intro c hHead
  have hNot := List.head?_dropWhile_not belongs text
  rw [hHead] at hNot
  simpa using hNot

/-
  A run is read where it stands after white space and is
  followed by no character of its class.
-/
theorem run_eq_ok_iff
    {cause : Cause}
    {text word rest : Text} :
    run belongs cause text = .ok (word, rest) ↔
      (word ≠ [] ∧ ∀ c ∈ word, belongs c = true) ∧
        Stops belongs rest ∧
          skipSpace text = word ++ rest := by
  unfold run
  constructor
  · intro h
    dsimp only at h
    split at h
    · cases h
    · next hWord =>
        cases h
        refine ⟨⟨by simpa using hWord, ?_⟩,
          stops_dropWhile _ _,
          List.takeWhile_append_dropWhile.symm⟩
        intro c hMem
        exact List.mem_takeWhile_imp hMem
  · rintro ⟨⟨hNonempty, hWord⟩, hRest, hText⟩
    have hTake := takeWhile_run hWord hRest
    have hDrop := dropWhile_run hWord hRest
    simp only [hText, hTake, hDrop]
    rw [if_neg (by simpa using hNonempty)]

-- Words

/- A name that is read as one word. -/
def IsWord
    (name : Text) : Prop :=
  name ≠ [] ∧ ∀ c ∈ name, isDelimiter c = false

instance
    (name : Text) : Decidable (IsWord name) :=
  decidable_of_iff
    ((!name.isEmpty && name.all (!isDelimiter ·)) = true)
    (by simp [IsWord])

theorem stops_iff_endsWord
    {rest : Text} :
    Stops (fun c => !isDelimiter c) rest ↔
      endsWord rest = true := by
  cases rest <;> simp [Stops, endsWord]

theorem identifier_eq_ok_iff
    {text name rest : Text} :
    identifier text = .ok (name, rest) ↔
      IsWord name ∧ endsWord rest = true ∧
        skipSpace text = name ++ rest := by
  simp [identifier, run_eq_ok_iff, stops_iff_endsWord, IsWord]

/- Words with the same continuation are the same. -/
theorem word_unique
    {first second restFirst restSecond : Text}
    (hFirst : ∀ c ∈ first, isDelimiter c = false)
    (hSecond : ∀ c ∈ second, isDelimiter c = false)
    (hRestFirst : endsWord restFirst = true)
    (hRestSecond : endsWord restSecond = true)
    (h : first ++ restFirst = second ++ restSecond) :
    first = second ∧ restFirst = restSecond := by
  have hTake (word rest : Text)
      (hWord : ∀ c ∈ word, isDelimiter c = false)
      (hRest : endsWord rest = true) :
      (word ++ rest).takeWhile (fun c => !isDelimiter c) =
        word :=
    takeWhile_run (by simpa using hWord)
      (stops_iff_endsWord.mpr hRest)
  have hSame : first = second := by
    rw [← hTake first restFirst hFirst hRestFirst, h,
      hTake second restSecond hSecond hRestSecond]
  subst hSame
  exact ⟨rfl, List.append_cancel_left h⟩

theorem keyword?_eq_some_iff
    {word text rest : Text} :
    keyword? word text = some rest ↔
      skipSpace text = word ++ rest ∧
        endsWord rest = true := by
  simp only [keyword?, Text.startsWith,
    Option.ite_none_right_eq_some, Option.some.injEq,
    Bool.and_eq_true, List.isPrefixOf_iff_prefix]
  constructor
  · rintro ⟨⟨⟨more, hMore⟩, hEnds⟩, rfl⟩
    rw [← hMore, List.drop_left] at hEnds ⊢
    exact ⟨rfl, hEnds⟩
  · rintro ⟨hText, hEnds⟩
    rw [hText, List.drop_left]
    exact ⟨⟨List.prefix_append _ _, hEnds⟩, rfl⟩

-- Keywords

/- A keyword is not read from another word. -/
theorem keyword?_eq_none
    {word name text rest : Text}
    (hWord : ∀ c ∈ word, isDelimiter c = false)
    (hName : ∀ c ∈ name, isDelimiter c = false)
    (hText : skipSpace text = name ++ rest)
    (hEnds : endsWord rest = true)
    (hOther : word ≠ name) :
    keyword? word text = none := by
  cases hKeyword : keyword? word text with
  | none => rfl
  | some after =>
      rcases keyword?_eq_some_iff.mp hKeyword with
        ⟨hAfter, hStops⟩
      rw [hText] at hAfter
      have hSame :=
        word_unique hName hWord hEnds hStops hAfter
      exact absurd hSame.1.symm hOther

theorem keyword_eq_ok_iff
    {word text rest : Text} :
    keyword word text = .ok ((), rest) ↔
      skipSpace text = word ++ rest ∧
        endsWord rest = true := by
  rw [← keyword?_eq_some_iff]
  unfold keyword
  split
  · next hKeyword => simp [hKeyword]
  · next hKeyword => simp [hKeyword]

section FirstKeyword

variable {α : Type} {word : α → Text} {choices : List α}

theorem firstKeyword?_eq_none_iff
    {text : Text} :
    firstKeyword? word choices text = none ↔
      ∀ choice ∈ choices,
        keyword? (word choice) text = none := by
  simp [firstKeyword?, List.findSome?_eq_none_iff]

/- A keyword that is read stands there as a word. -/
theorem spelled_of_firstKeyword?
    {text rest : Text}
    {choice : α}
    (h : firstKeyword? word choices text =
      some (choice, rest)) :
    choice ∈ choices ∧
      skipSpace text = word choice ++ rest ∧
        endsWord rest = true := by
  rcases List.exists_of_findSome?_eq_some h with
    ⟨found, hMem, hFound⟩
  rcases Option.map_eq_some_iff.mp hFound with
    ⟨after, hKeyword, hPair⟩
  cases hPair
  exact ⟨hMem, keyword?_eq_some_iff.mp hKeyword⟩

/- No keyword is read from a word that is none of them. -/
theorem firstKeyword?_eq_none
    (hWords : ∀ choice, ∀ c ∈ word choice,
      isDelimiter c = false)
    {name text rest : Text}
    (hName : ∀ c ∈ name, isDelimiter c = false)
    (hText : skipSpace text = name ++ rest)
    (hEnds : endsWord rest = true)
    (hOther : ∀ choice, word choice ≠ name) :
    firstKeyword? word choices text = none :=
  firstKeyword?_eq_none_iff.mpr fun choice _ =>
    keyword?_eq_none (hWords choice) hName hText hEnds
      (hOther choice)

/- The keyword that stands there is the one read. -/
theorem firstKeyword?_eq_some
    (hWords : ∀ choice, ∀ c ∈ word choice,
      isDelimiter c = false)
    (hInjective : Function.Injective word)
    {choice : α}
    (hMem : choice ∈ choices)
    {text rest : Text}
    (hText : skipSpace text = word choice ++ rest)
    (hEnds : endsWord rest = true) :
    firstKeyword? word choices text =
      some (choice, rest) := by
  have hRead : keyword? (word choice) text = some rest :=
    keyword?_eq_some_iff.mpr ⟨hText, hEnds⟩
  cases hFirst : firstKeyword? word choices text with
  | none =>
      have hNone :=
        firstKeyword?_eq_none_iff.mp hFirst choice hMem
      rw [hRead] at hNone
      cases hNone
  | some found =>
      rcases found with ⟨other, after⟩
      rcases spelled_of_firstKeyword? hFirst with
        ⟨_, hAfter, hStops⟩
      rw [hText] at hAfter
      rcases word_unique (hWords choice)
        (hWords other) hEnds hStops hAfter with
        ⟨hSame, rfl⟩
      rw [hInjective hSame]

end FirstKeyword

-- The Words of the Language

theorem Primitive.isWord_word
    (primitive : Primitive) :
    IsWord primitive.word := by
  cases primitive <;> decide

theorem Primitive.word_injective :
    Function.Injective Primitive.word := by
  intro first second h
  cases first <;> cases second <;> revert h <;> decide

theorem Requiredness.isWord_word
    (requiredness : Requiredness) :
    IsWord requiredness.word := by
  cases requiredness <;> decide

theorem Requiredness.word_injective :
    Function.Injective Requiredness.word := by
  intro first second h
  cases first <;> cases second <;> revert h <;> decide

theorem Kind.isWord_word
    (kind : Kind) :
    IsWord kind.word := by
  cases kind <;> decide

theorem Kind.word_injective :
    Function.Injective Kind.word := by
  intro first second h
  cases first <;> cases second <;> revert h <;> decide

theorem Generic.isWord_word
    (generic : Generic) :
    IsWord generic.word := by
  cases generic <;> decide

theorem Generic.word_injective :
    Function.Injective Generic.word := by
  intro first second h
  cases first <;> cases second <;> revert h <;> decide

-- String Literals

/- A literal is read up to the first quote after it. -/
theorem quoted_eq_ok_iff
    {text value rest : Text} :
    quoted text = .ok (value, rest) ↔
      '"' ∉ value ∧ text = value ++ '"' :: rest := by
  constructor
  · intro h
    have hSplit : text.takeWhile (· != '"') ++
        text.dropWhile (· != '"') = text :=
      List.takeWhile_append_dropWhile
    have hStops := stops_dropWhile (· != '"') text
    simp only [quoted] at h
    split at h
    · cases h
    · next c more hDrop =>
        cases h
        rw [hDrop] at hSplit hStops
        have hQuote : c = '"' := by
          simpa using hStops c rfl
        subst hQuote
        refine ⟨fun hMem => ?_, hSplit.symm⟩
        simpa using List.mem_takeWhile_imp hMem
  · rintro ⟨hValue, rfl⟩
    have hWord : ∀ c ∈ value, (c != '"') = true := by
      intro c hMem
      simp only [bne_iff_ne]
      rintro rfl
      exact hValue hMem
    have hStops : Stops (· != '"') ('"' :: rest) := by
      simp [Stops]
    simp [quoted, takeWhile_run hWord hStops,
      dropWhile_run hWord hStops]

theorem stringLiteral_eq_ok_iff
    {text value rest : Text} :
    stringLiteral text = .ok (value, rest) ↔
      '"' ∉ value ∧
        skipSpace text = '"' :: (value ++ '"' :: rest) := by
  unfold stringLiteral
  rw [Scan.bind_eq_ok_iff]
  constructor
  · rintro ⟨_, after, hOpen, hQuoted⟩
    rcases quoted_eq_ok_iff.mp hQuoted with ⟨hValue, rfl⟩
    exact ⟨hValue, symbol_eq_ok_iff.mp hOpen⟩
  · rintro ⟨hValue, hText⟩
    exact ⟨(), _, symbol_eq_ok_iff.mpr hText,
      quoted_eq_ok_iff.mpr ⟨hValue, rfl⟩⟩

-- Types

theorem namedType_eq_ok_iff
    {text rest : Text}
    {type : IdlType} :
    namedType text = .ok (type, rest) ↔
      ∃ name, identifier text = .ok (name, rest) ∧
        type = .named name := by
  constructor
  · intro h
    rcases Scan.bind_eq_ok_iff.mp h with
      ⟨name, _, hName, hPure⟩
    cases hPure
    exact ⟨name, hName, rfl⟩
  · rintro ⟨name, hName, rfl⟩
    exact Scan.bind_ok hName rfl

/- A word ends where white space and a delimiter follow. -/
theorem endsWord_of_skipSpace
    {text rest : Text}
    (h : skipSpace text = c :: rest)
    (hDelimiter : isDelimiter c = true) :
    endsWord text = true := by
  cases text with
  | nil => rfl
  | cons d more =>
      cases hSpace : isSpace d with
      | true => exact isDelimiter_of_isSpace hSpace
      | false =>
          rw [skipSpace_cons hSpace] at h
          cases h
          exact hDelimiter

/- A composed type opens with its word and a bracket. -/
theorem generic?_eq_some_iff
    {text rest : Text} :
    generic? generic text = some rest ↔
      ∃ after, skipSpace text = generic.word ++ after ∧
        skipSpace after = '<' :: rest := by
  simp only [generic?, Text.startsWith,
    Option.ite_none_right_eq_some,
    List.isPrefixOf_iff_prefix]
  constructor
  · rintro ⟨⟨after, hAfter⟩, h⟩
    rw [← hAfter, List.drop_left] at h
    split at h
    · next hOpen =>
        cases h
        exact ⟨after, hAfter.symm, hOpen⟩
    · cases h
  · rintro ⟨after, hText, hOpen⟩
    rw [hText, List.drop_left, hOpen]
    exact ⟨List.prefix_append _ _, rfl⟩

section FirstGeneric

variable {choices : List Generic} {text rest : Text}

theorem firstGeneric?_eq_none_iff :
    firstGeneric? choices text = none ↔
      ∀ generic ∈ choices, generic? generic text = none := by
  simp [firstGeneric?, List.findSome?_eq_none_iff]

/- A composed type that is read opens with its word. -/
theorem spelled_of_firstGeneric?
    (h : firstGeneric? choices text = some (generic, rest)) :
    generic ∈ choices ∧
      ∃ after, skipSpace text = generic.word ++ after ∧
        skipSpace after = '<' :: rest := by
  rcases List.exists_of_findSome?_eq_some h with
    ⟨found, hMem, hFound⟩
  rcases Option.map_eq_some_iff.mp hFound with
    ⟨inner, hGeneric, hPair⟩
  cases hPair
  exact ⟨hMem, generic?_eq_some_iff.mp hGeneric⟩

/- No composed type opens with a word and no bracket. -/
theorem firstGeneric?_eq_none
    {name : Text}
    (hName : ∀ c ∈ name, isDelimiter c = false)
    (hText : skipSpace text = name ++ rest)
    (hEnds : endsWord rest = true)
    (hRest : Stops (· == '<') (skipSpace rest)) :
    firstGeneric? choices text = none := by
  refine firstGeneric?_eq_none_iff.mpr fun generic _ => ?_
  cases hGeneric : generic? generic text with
  | none => rfl
  | some inner =>
      rcases generic?_eq_some_iff.mp hGeneric with
        ⟨after, hAfter, hOpen⟩
      have hStops := endsWord_of_skipSpace hOpen (by decide)
      rw [hText] at hAfter
      rcases word_unique hName
        generic.isWord_word.2 hEnds hStops hAfter with
        ⟨_, rfl⟩
      simp [Stops, hOpen] at hRest

/- The composed type that opens there is the one read. -/
theorem firstGeneric?_eq_some
    (hMem : generic ∈ choices)
    {after : Text}
    (hText : skipSpace text = generic.word ++ after)
    (hOpen : skipSpace after = '<' :: rest) :
    firstGeneric? choices text = some (generic, rest) := by
  have hRead : generic? generic text = some rest :=
    generic?_eq_some_iff.mpr ⟨after, hText, hOpen⟩
  cases hFirst : firstGeneric? choices text with
  | none =>
      have hNone :=
        firstGeneric?_eq_none_iff.mp hFirst generic hMem
      rw [hRead] at hNone
      cases hNone
  | some found =>
      rcases found with ⟨other, inner⟩
      rcases spelled_of_firstGeneric? hFirst with
        ⟨_, following, hFollowing, hOtherOpen⟩
      rw [hText] at hFollowing
      rcases word_unique
        generic.isWord_word.2 other.isWord_word.2
        (endsWord_of_skipSpace hOpen (by decide))
        (endsWord_of_skipSpace hOtherOpen (by decide))
        hFollowing with
        ⟨hSame, rfl⟩
      rw [hOpen] at hOtherOpen
      cases hOtherOpen
      rw [Generic.word_injective hSame]

end FirstGeneric

/- What a composed type is made of. -/
theorem composed_eq_ok_iff
    {nested : Scan IdlType}
    {text rest : Text}
    {type : IdlType} :
    composed nested generic text = .ok (type, rest) ↔
      match generic with
      | .list => ∃ element after,
          nested text = .ok (element, after) ∧
            skipSpace after = '>' :: rest ∧
              type = .list element
      | .map => ∃ key afterKey afterComma value after,
          nested text = .ok (key, afterKey) ∧
            skipSpace afterKey = ',' :: afterComma ∧
            nested afterComma = .ok (value, after) ∧
              skipSpace after = '>' :: rest ∧
                type = .map key value := by
  cases generic with
  | list =>
      constructor
      · intro h
        rcases Scan.bind_eq_ok_iff.mp h with
          ⟨element, after, hElement, h⟩
        rcases Scan.bind_eq_ok_iff.mp h with
          ⟨_, _, hClose, hPure⟩
        cases hPure
        exact ⟨element, after, hElement,
          symbol_eq_ok_iff.mp hClose, rfl⟩
      · rintro ⟨element, after, hElement, hClose, rfl⟩
        exact Scan.bind_ok hElement
          (Scan.bind_ok (symbol_eq_ok_iff.mpr hClose) rfl)
  | map =>
      constructor
      · intro h
        rcases Scan.bind_eq_ok_iff.mp h with
          ⟨key, afterKey, hKey, h⟩
        rcases Scan.bind_eq_ok_iff.mp h with
          ⟨_, afterComma, hComma, h⟩
        rcases Scan.bind_eq_ok_iff.mp h with
          ⟨value, after, hValue, h⟩
        rcases Scan.bind_eq_ok_iff.mp h with
          ⟨_, _, hClose, hPure⟩
        cases hPure
        exact ⟨key, afterKey, afterComma, value, after, hKey,
          symbol_eq_ok_iff.mp hComma, hValue,
          symbol_eq_ok_iff.mp hClose, rfl⟩
      · rintro ⟨key, afterKey, afterComma, value, after, hKey,
          hComma, hValue, hClose, rfl⟩
        exact Scan.bind_ok hKey
          (Scan.bind_ok (symbol_eq_ok_iff.mpr hComma)
            (Scan.bind_ok hValue
              (Scan.bind_ok (symbol_eq_ok_iff.mpr hClose)
                rfl)))

/-
  A type is built in if its word is a keyword, composed if
  it opens like that, and otherwise a name.
-/
theorem idlType_eq_ok_iff
    {order : Order}
    {text rest : Text}
    {type : IdlType} :
    idlType order text = .ok (type, rest) ↔
      (∃ primitive,
        firstKeyword? Primitive.word order.primitives text =
            some (primitive, rest) ∧
          type = .primitive primitive) ∨
      firstKeyword? Primitive.word order.primitives text =
          none ∧
        ((∃ generic inner,
          firstGeneric? order.generics text =
              some (generic, inner) ∧
            composed (idlType order) generic inner =
              .ok (type, rest)) ∨
        firstGeneric? order.generics text = none ∧
          ∃ name, identifier text = .ok (name, rest) ∧
            type = .named name) := by
  rw [idlType_eq, ← namedType_eq_ok_iff]
  refine Scan.labelled_eq_ok_iff.trans ?_
  cases hPrimitive :
      firstKeyword? Primitive.word order.primitives text with
  | some found =>
      rcases found with ⟨primitive, after⟩
      simp only [Except.ok.injEq, Prod.mk.injEq,
        Option.some.injEq, reduceCtorEq, false_and, or_false]
      constructor
      · rintro ⟨rfl, rfl⟩
        exact ⟨primitive, ⟨rfl, rfl⟩, rfl⟩
      · rintro ⟨_, ⟨rfl, rfl⟩, rfl⟩
        exact ⟨rfl, rfl⟩
  | none =>
      cases hGeneric :
          firstGeneric? order.generics text with
      | some found =>
          rcases found with ⟨generic, inner⟩
          constructor
          · intro h
            exact .inr ⟨rfl, .inl ⟨generic, inner, rfl, h⟩⟩
          · rintro (⟨_, hNone, _⟩ | ⟨_, hSome | ⟨hNone, _⟩⟩)
            · cases hNone
            · rcases hSome with ⟨_, _, hSame, h⟩
              cases hSame
              exact h
            · cases hNone
      | none => simp

/-
  Induction on a type that is read. The types inside it are
  read from shorter texts.
-/
theorem idlType_induction
    {order : Order}
    (P : Text → IdlType → Text → Prop)
    (hPrimitive : ∀ text rest primitive,
      firstKeyword? Primitive.word order.primitives text =
          some (primitive, rest) →
        P text (.primitive primitive) rest)
    (hList : ∀ text inner after rest element,
      firstGeneric? order.generics text =
          some (.list, inner) →
        P inner element after →
        skipSpace after = '>' :: rest →
          P text (.list element) rest)
    (hMap : ∀ text inner afterKey afterComma after rest key
        value,
      firstGeneric? order.generics text =
          some (.map, inner) →
        P inner key afterKey →
        skipSpace afterKey = ',' :: afterComma →
        P afterComma value after →
        skipSpace after = '>' :: rest →
          P text (.map key value) rest)
    (hNamed : ∀ text rest name,
      firstKeyword? Primitive.word order.primitives text =
          none →
        identifier text = .ok (name, rest) →
          P text (.named name) rest)
    {text rest : Text}
    {type : IdlType}
    (h : idlType order text = .ok (type, rest)) :
    P text type rest := by
  induction hn : text.length using Nat.strongRecOn
    generalizing text type rest with
  | ind n ih =>
      rcases idlType_eq_ok_iff.mp h with
        ⟨_, hKeyword, rfl⟩ | ⟨hNone, hComposed | hName⟩
      · exact hPrimitive _ _ _ hKeyword
      · rcases hComposed with ⟨generic, inner, hOpen, hParts⟩
        have hInner := (firstGeneric?_suffix hOpen).2
        have hParts := composed_eq_ok_iff.mp hParts
        cases generic with
        | list =>
            rcases hParts with
              ⟨element, after, hElement, hClose, rfl⟩
            exact hList _ _ _ _ _ hOpen
              (ih _ (hn ▸ hInner) hElement rfl) hClose
        | map =>
            rcases hParts with
              ⟨key, afterKey, afterComma, value, after, hKey,
                hComma, hValue, hClose, rfl⟩
            have hKeyLength :=
              (consumes_idlType order _ _ _ hKey).2
            have hCommaLength :=
              (skipSpace_suffix afterKey).length_le
            rw [hComma, List.length_cons] at hCommaLength
            exact hMap _ _ _ _ _ _ _ _ hOpen
              (ih _ (hn ▸ hInner) hKey rfl) hComma
              (ih _ (by omega) hValue rfl) hClose
      · rcases hName with ⟨_, name, hName, rfl⟩
        exact hNamed _ _ _ hNone hName

-- Comments

/- A line comment ends in front of the line feed. -/
theorem lineComment_eq
    {text rest : Text}
    (hText : '\n' ∉ text)
    (hRest : Stops (· != '\n') rest) :
    lineComment (text ++ rest) =
      (.line (Text.strip text), rest) := by
  have hLine : ∀ c ∈ text, (c != '\n') = true := by
    intro c hMem
    simp only [bne_iff_ne]
    rintro rfl
    exact hText hMem
  simp only [lineComment, takeWhile_run hLine hRest,
    dropWhile_run hLine hRest]

/- A block ends where it is closed for the first time. -/
theorem blockEnd_eq_some_iff
    {text inner rest : Text} :
    blockEnd text = some (inner, rest) ↔
      text = inner ++ '*' :: '/' :: rest ∧
        ¬ ['*', '/'] <:+: inner := by
  fun_induction blockEnd text generalizing inner rest with
  | case1 => simp
  | case2 more =>
      constructor
      · intro h
        cases h
        simp
      · rintro ⟨hText, hOpen⟩
        cases inner with
        | nil => simpa using hText
        | cons c inner =>
            -- a longer inside would hold the end of the block
            exfalso
            cases inner with
            | nil => simp at hText
            | cons d inner =>
                rcases by simpa using hText with
                  ⟨rfl, rfl, _⟩
                exact hOpen
                  (List.prefix_append _ _).isInfix
  | case3 c more hNot hNone ih =>
      refine iff_of_false (by simp) ?_
      rintro ⟨hText, hOpen⟩
      cases inner with
      | nil =>
          rcases by simpa using hText with ⟨rfl, rfl⟩
          exact hNot _ rfl rfl
      | cons d inner =>
          rcases by simpa using hText with ⟨rfl, rfl⟩
          have hSome := ih.mpr ⟨rfl, fun hInner =>
            hOpen (List.infix_cons hInner)⟩
          rw [hNone] at hSome
          cases hSome
  | case4 c more hNot found after hSome ih =>
      constructor
      · intro h
        cases h
        rcases ih.mp hSome with ⟨rfl, hOpen⟩
        refine ⟨rfl, fun hInner => ?_⟩
        rcases List.infix_cons_iff.mp hInner with hHere | hIn
        · cases found with
          | nil => simp at hHere
          | cons d found =>
              obtain ⟨rfl, rfl⟩ : c = '*' ∧ d = '/' := by
                simpa [List.cons_prefix_cons, eq_comm]
                  using hHere
              exact hNot _ rfl rfl
        · exact hOpen hIn
      · rintro ⟨hText, hOpen⟩
        cases inner with
        | nil =>
            rcases by simpa using hText with ⟨rfl, rfl⟩
            exact absurd rfl (hNot _ rfl)
        | cons d inner =>
            rcases by simpa using hText with ⟨rfl, rfl⟩
            have hInner := ih.mpr ⟨rfl, fun hIn =>
              hOpen (List.infix_cons hIn)⟩
            rw [hSome] at hInner
            cases hInner
            rfl

section NextComment

variable {text inner rest : Text}

theorem nextComment_line
    (hText : skipSpace text = '/' :: '/' :: (inner ++ rest))
    (hInner : '\n' ∉ inner)
    (hRest : Stops (· != '\n') rest) :
    nextComment text =
      .ok (.more (.line (Text.strip inner)), rest) := by
  simp only [nextComment, hText, lineComment_eq hInner hRest]

theorem nextComment_block
    (hText : skipSpace text =
      '/' :: '*' :: (inner ++ '*' :: '/' :: rest))
    (hInner : ¬ ['*', '/'] <:+: inner) :
    nextComment text =
      .ok (.more (blockComment inner), rest) := by
  have hEnd :
      blockEnd (inner ++ '*' :: '/' :: rest) =
        some (inner, rest) :=
    blockEnd_eq_some_iff.mpr ⟨rfl, hInner⟩
  simp only [nextComment, hText, hEnd]

theorem nextComment_last
    (h : Stops (· == '/') (skipSpace text)) :
    nextComment text = .ok (.last (), skipSpace text) := by
  unfold nextComment
  split
  · next hText => simp [Stops, hText] at h
  · next hText => simp [Stops, hText] at h
  · rfl

end NextComment

/- Comments are read one after the other. -/
theorem comments_cons
    {text rest left : Text}
    {first : Comment}
    {more : List Comment}
    (h : nextComment text = .ok (.more first, rest))
    (hMore : comments rest = .ok (more, left)) :
    comments text = .ok (first :: more, left) := by
  rcases Scan.bind_eq_ok_iff.mp hMore with
    ⟨⟨found, _⟩, _, hFound, hPure⟩
  cases hPure
  exact Scan.bind_ok (Scan.repeated_more _ h hFound) rfl

theorem comments_nil
    {text : Text}
    (h : Stops (· == '/') (skipSpace text)) :
    comments text = .ok ([], skipSpace text) :=
  Scan.bind_ok (Scan.repeated_last _ (nextComment_last h)) rfl

/- White space in front of comments makes no difference. -/
theorem comments_congr
    {text other : Text}
    (h : skipSpace text = skipSpace other) :
    comments text = comments other := by
  have hNext : nextComment text = nextComment other := by
    unfold nextComment
    rw [h]
  exact Scan.bind_congr _ (Scan.repeated_congr _ hNext)

/- What all comments satisfy holds of those that are read. -/
theorem forall_of_comments
    {good : Comment → Prop}
    (h : ∀ text comment rest,
      nextComment text = .ok (.more comment, rest) →
        good comment)
    {text rest : Text}
    {found : List Comment}
    (hFound : comments text = .ok (found, rest)) :
    ∀ comment ∈ found, good comment := by
  rcases Scan.bind_eq_ok_iff.mp hFound with
    ⟨⟨_, final⟩, _, hRepeated, hPure⟩
  cases hPure
  have hAll : (∀ comment ∈ found, good comment) ∧
      (fun _ : Unit => True) final :=
    Scan.forall_of_repeated h
      (fun _ _ _ _ => trivial) hRepeated
  exact hAll.1

end Idl

end ThriftTypings
