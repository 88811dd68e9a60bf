import ThriftTypings.Proofs.TypeScript.Residue

/-
  This file defines the tokens of emitted code, and proves
  how a text falls into tokens when it is put together from
  pieces.

  The scanner goes through a text character by character and
  keeps the token that it is in. Words are as long as they
  can be, and string literals stand for what they say. Blanks
  only separate tokens, so that code may be laid out in any
  way.

  Key definitions include:
    * `unescape`
    * `Token` and `Pending`

  Key theorems include:
    * `tokens_word` and `closed_literal`
    * `tokens_residue`
-/

namespace ThriftTypings

namespace TypeScript

variable {text : Text} {c : Char}

-- String Literals

/- The value of a hexadecimal digit. -/
def hexValue?
    (c : Char) : Option Nat :=
  if '0' ≤ c ∧ c ≤ '9' then some (c.toNat - 48)
  else if 'a' ≤ c ∧ c ≤ 'f' then some (c.toNat - 87)
  else if 'A' ≤ c ∧ c ≤ 'F' then some (c.toNat - 55)
  else none

/- The character that four hexadecimal digits stand for. -/
def codeChar?
    (a b c d : Char) : Option Char :=
  match hexValue? a, hexValue? b, hexValue? c, hexValue? d with
  | some a, some b, some c, some d =>
      let code := ((a * 16 + b) * 16 + c) * 16 + d
      if code.isValidChar then some (Char.ofNat code) else none
  | _, _, _, _ => none

/- The character that a letter after a backslash means. -/
def escaped? : Char → Option Char
  | '"' => some '"'
  | '\\' => some '\\'
  | '/' => some '/'
  | 'b' => some '\x08'
  | 'f' => some '\x0c'
  | 'n' => some '\n'
  | 'r' => some '\r'
  | 't' => some '\t'
  | _ => none

/- What the inside of a string literal says. -/
def unescape : Text → Option Text
  | [] => some []
  | '\\' :: 'u' :: a :: b :: c :: d :: rest =>
      match codeChar? a b c d with
      | none => none
      | some found => (unescape rest).map (found :: ·)
  | '\\' :: letter :: rest =>
      match escaped? letter with
      | none => none
      | some found => (unescape rest).map (found :: ·)
  | c :: rest =>
      if c = '\\' then none
      else (unescape rest).map (c :: ·)

theorem unescape_plain
    (h : c ≠ '\\')
    (rest : Text) :
    unescape (c :: rest) = (unescape rest).map (c :: ·) := by
  rw [unescape, if_neg h]
  · intro _ _ _ _ _ hChar
    exact absurd hChar h
  · intro _ _ hChar
    exact absurd hChar h

/- May the character stand in a string as it is? -/
def isInside
    (c : Char) : Bool :=
  c != '"' && c != '\\' && 0x20 ≤ c.toNat

/- Do the digits stand for a character, as they are? -/
def isCodeOf
    (character : Char) : Text → Bool
  | [a, b, c, d] =>
      codeChar? a b c d == some character &&
        [a, b, c, d].all isInside
  | _ => false

/- The controls are written by codes that stand for them. -/
theorem codeChar?_hex
    {n : Nat}
    (h : n < 0x20) :
    ∃ a b c d,
      Text.hex 4 n = [a, b, c, d] ∧
        codeChar? a b c d = some (Char.ofNat n) ∧
        [a, b, c, d].all isInside = true := by
  have hCodes : ∀ n < 0x20,
      isCodeOf (Char.ofNat n) (Text.hex 4 n) = true := by
    decide
  have hCode := hCodes n h
  unfold isCodeOf at hCode
  split at hCode
  · next a b c d hHex =>
      rcases Bool.and_eq_true_iff.mp hCode with
        ⟨hChar, hInside⟩
      exact ⟨a, b, c, d, hHex, eq_of_beq hChar, hInside⟩
  · cases hCode

/-
  A character of a literal is written by a letter, by a code
  or as it is. The letter is never a `u`, which codes have.
-/
theorem literalChar_cases
    (c : Char) :
    (∃ letter, Text.literalChar c = ['\\', letter] ∧
      escaped? letter = some c ∧ 0x20 ≤ letter.toNat ∧
        letter ≠ 'u') ∨
    (∃ a b d e,
      Text.literalChar c = ['\\', 'u', a, b, d, e] ∧
        codeChar? a b d e = some c ∧
        [a, b, d, e].all isInside = true) ∨
    (Text.literalChar c = [c] ∧ isInside c = true) := by
  have hCode {n : Nat} (h : c.toNat = n) :
      Char.ofNat n = c := by
    rw [← h, Char.ofNat_toNat]
  by_cases hQuote : c = '"'
  · subst hQuote
    exact .inl ⟨'"', rfl, rfl, by decide⟩
  by_cases hBackslash : c = '\\'
  · subst hBackslash
    exact .inl ⟨'\\', rfl, rfl, by decide⟩
  by_cases hFeed : c = '\n'
  · subst hFeed
    exact .inl ⟨'n', rfl, rfl, by decide⟩
  by_cases hReturn : c = '\r'
  · subst hReturn
    exact .inl ⟨'r', rfl, rfl, by decide⟩
  by_cases hTab : c = '\t'
  · subst hTab
    exact .inl ⟨'t', rfl, rfl, by decide⟩
  by_cases hBack : c.toNat = 0x08
  · have hChar := hCode hBack
    subst hChar
    exact .inl ⟨'b', rfl, rfl, by decide⟩
  by_cases hForm : c.toNat = 0x0C
  · have hChar := hCode hForm
    subst hChar
    exact .inl ⟨'f', rfl, rfl, by decide⟩
  unfold Text.literalChar
  simp only [hQuote, hBackslash, hFeed, hReturn, hTab, hBack,
    hForm, if_false]
  by_cases hLow : c.toNat < 0x20
  · rcases codeChar?_hex hLow with
      ⟨a, b, d, e, hHex, hChar, hInside⟩
    rw [Char.ofNat_toNat] at hChar
    rw [if_pos hLow, hHex]
    exact .inr (.inl ⟨a, b, d, e, rfl, hChar, hInside⟩)
  · rw [if_neg hLow]
    refine .inr (.inr ⟨rfl, ?_⟩)
    simp only [isInside, Bool.and_eq_true, bne_iff_ne,
      decide_eq_true_eq]
    exact ⟨⟨hQuote, hBackslash⟩, by omega⟩

/- An escape says what it was made for. -/
theorem unescape_literalChar
    (c : Char)
    (rest : Text) :
    unescape (Text.literalChar c ++ rest) =
      (unescape rest).map (c :: ·) := by
  rcases literalChar_cases c with
    ⟨letter, hWritten, hSays, _, hLetter⟩ |
    ⟨a, b, d, e, hWritten, hSays, _⟩ | ⟨hWritten, hInside⟩
  · rw [hWritten, List.cons_append, List.cons_append,
      List.nil_append, unescape, hSays]
    intro _ _ _ _ _ hCode
    exact absurd hCode hLetter
  · rw [hWritten]
    simp only [List.cons_append, List.nil_append, unescape,
      hSays]
  · rw [hWritten]
    simp only [isInside, Bool.and_eq_true, bne_iff_ne]
      at hInside
    exact unescape_plain hInside.1.2 rest

/- A string literal says what it was made from. -/
theorem unescape_literal
    (text : Text) :
    unescape (text.flatMap Text.literalChar) = some text := by
  induction text with
  | nil => rfl
  | cons c rest ih =>
      rw [List.flatMap_cons, unescape_literalChar, ih]
      rfl

-- Tokens

/-
  A token: a word, which may be a number or a dotted name, a
  string with what it says, or a single mark.
-/
inductive Token where
  | word (text : Text)
  | string (text : Text)
  | mark (c : Char)
  deriving DecidableEq, Repr

/- May the character stand in a word? -/
def isWordChar
    (c : Char) : Bool :=
  c == '$' || c == '.' || Text.continuesWord c

/-
  The token that the scanner is in: none, a word or a string
  so far, or a string with a backslash at its end.
-/
inductive Pending where
  | idle
  | word (before : Text)
  | string (before : Text)
  | escape (before : Text)
  deriving DecidableEq, Repr

/- One character outside of any token. -/
def scanFirst
    (c : Char) : List Token × Pending :=
  if isWordChar c then ([], .word [c])
  else if Text.isBlank c then ([], .idle)
  else if c = '"' then ([], .string [])
  else ([.mark c], .idle)

/-
  One character: the tokens that end with it, and the token
  it belongs to. There are no controls in a string.
-/
def scanChar : Pending → Char → Option (List Token × Pending)
  | .idle, c => some (scanFirst c)
  | .word before, c =>
      if isWordChar c then some ([], .word (before ++ [c]))
      else
        some (.word before :: (scanFirst c).1, (scanFirst c).2)
  | .string before, c =>
      if c = '"' then
        (unescape before).map fun text =>
          ([.string text], .idle)
      else if c.toNat < 0x20 then none
      else if c = '\\' then some ([], .escape before)
      else some ([], .string (before ++ [c]))
  | .escape before, c =>
      if c.toNat < 0x20 then none
      else some ([], .string (before ++ ['\\', c]))

/- The tokens that a text ends, and the one it ends in. -/
def scanText :
    Pending → Text → Option (List Token × Pending)
  | pending, [] => some ([], pending)
  | pending, c :: rest =>
      match scanChar pending c with
      | none => none
      | some (found, next) =>
          (scanText next rest).map fun more =>
            (found ++ more.1, more.2)

/- The last token of a text. A string must be closed. -/
def Pending.last : Pending → Option (List Token)
  | .idle => some []
  | .word before => some [.word before]
  | .string _ => none
  | .escape _ => none

/- The tokens of a text. -/
def tokens
    (text : Text) : Option (List Token) :=
  match scanText .idle text with
  | none => none
  | some (found, pending) => pending.last.map (found ++ ·)

example :
    tokens "a2 = \x7b\"b\\n\": -7,\x7d".toList =
      some
        [.word "a2".toList, .mark '=', .mark '\x7b',
         .string "b\n".toList, .mark ':', .mark '-',
         .word "7".toList, .mark ',', .mark '\x7d'] := by
  decide

-- Texts in Pieces

/- Is the text whole tokens, with none that could go on? -/
def Closed
    (text : Text)
    (found : List Token) : Prop :=
  scanText .idle text = some (found, .idle)

instance
    (text : Text)
    (found : List Token) : Decidable (Closed text found) :=
  inferInstanceAs
    (Decidable (scanText .idle text = some (found, .idle)))

/- Does the text begin with no character of a word? -/
def isApart : Text → Bool
  | [] => true
  | c :: _ => !isWordChar c

theorem scanText_append
    (pending : Pending)
    (first second : Text) :
    scanText pending (first ++ second) =
      match scanText pending first with
      | none => none
      | some (found, next) =>
          (scanText next second).map fun more =>
            (found ++ more.1, more.2) := by
  induction first generalizing pending with
  | nil =>
      simp only [List.nil_append, scanText]
      cases scanText pending second <;> rfl
  | cons c rest ih =>
      simp only [List.cons_append, scanText]
      cases scanChar pending c with
      | none => rfl
      | some step =>
          rcases step with ⟨found, next⟩
          simp only [ih]
          cases scanText next rest with
          | none => rfl
          | some middle =>
              rcases middle with ⟨more, last⟩
              simp only [Option.map_some]
              cases scanText last second with
              | none => rfl
              | some after => simp

/- A word ends where something else begins. -/
theorem scanText_word
    (before : Text)
    (h : isWordChar c = false)
    (rest : Text) :
    scanText (.word before) (c :: rest) =
      (scanText .idle (c :: rest)).map fun more =>
        (.word before :: more.1, more.2) := by
  simp only [scanText, scanChar, h, Bool.false_eq_true,
    if_false]
  cases scanText (scanFirst c).2 rest <;> simp

theorem tokens_eq_some_iff
    {found : List Token} :
    tokens text = some found ↔
      Closed text found ∨
        ∃ before word, found = before ++ [.word word] ∧
          scanText .idle text = some (before, .word word) := by
  unfold tokens Closed
  cases scanText .idle text with
  | none => simp
  | some step =>
      rcases step with ⟨before, pending⟩
      cases pending with
      | idle => simp [Pending.last]
      | word word =>
          simp only [Pending.last, Option.map_some,
            Option.some.injEq, Prod.mk.injEq, reduceCtorEq,
            and_false, Pending.word.injEq, false_or]
          constructor
          · intro h
            exact ⟨before, word, h.symm, rfl, rfl⟩
          · rintro ⟨_, _, h, rfl, rfl⟩
            exact h.symm
      | string raw => simp [Pending.last]
      | escape raw => simp [Pending.last]

namespace Closed

variable {first second : Text}
variable {found more : List Token}

theorem nil :
    Closed [] [] :=
  rfl

theorem tokens_eq
    (h : Closed first found) :
    tokens first = some found :=
  tokens_eq_some_iff.mpr (.inl h)

theorem append
    (hFirst : Closed first found)
    (hSecond : Closed second more) :
    Closed (first ++ second) (found ++ more) := by
  unfold Closed at hFirst hSecond ⊢
  rw [scanText_append, hFirst]
  simp [hSecond]

theorem append_tokens
    (hFirst : Closed first found)
    (hSecond : tokens second = some more) :
    tokens (first ++ second) = some (found ++ more) := by
  rcases tokens_eq_some_iff.mp hSecond with
    hClosed | ⟨before, word, rfl, hWord⟩
  · exact (hFirst.append hClosed).tokens_eq
  · refine tokens_eq_some_iff.mpr (.inr
      ⟨found ++ before, word, by simp, ?_⟩)
    unfold Closed at hFirst
    rw [scanText_append, hFirst]
    simp [hWord]

/- Tokens end where something else begins. -/
theorem of_tokens
    (hFirst : tokens first = some found)
    (hApart : isApart second = true)
    (hSecond : Closed second more)
    (hNonempty : second ≠ []) :
    Closed (first ++ second) (found ++ more) := by
  rcases tokens_eq_some_iff.mp hFirst with
    hClosed | ⟨before, word, rfl, hWord⟩
  · exact hClosed.append hSecond
  · cases second with
    | nil => exact absurd rfl hNonempty
    | cons c rest =>
        have hOther : isWordChar c = false := by
          simpa [isApart] using hApart
        unfold Closed at hSecond ⊢
        rw [scanText_append, hWord]
        simp [scanText_word _ hOther, hSecond]

end Closed

theorem tokens_append
    {first second : Text}
    {found more : List Token}
    (hFirst : tokens first = some found)
    (hApart : isApart second = true)
    (hSecond : tokens second = some more) :
    tokens (first ++ second) = some (found ++ more) := by
  rcases tokens_eq_some_iff.mp hFirst with
    hClosed | ⟨before, word, rfl, hWord⟩
  · exact hClosed.append_tokens hSecond
  · cases second with
    | nil =>
        cases hSecond
        simpa using hFirst
    | cons c rest =>
        have hOther : isWordChar c = false := by
          simpa [isApart] using hApart
        rcases tokens_eq_some_iff.mp hSecond with
          hClosed | ⟨middle, last, rfl, hLast⟩
        · exact (Closed.of_tokens hFirst hApart hClosed
            (by simp)).tokens_eq
        · refine tokens_eq_some_iff.mpr (.inr
            ⟨before ++ [.word word] ++ middle, last,
              by simp, ?_⟩)
          rw [scanText_append, hWord]
          simp [scanText_word _ hOther, hLast]

-- Words and Strings

theorem scanText_wordChars
    (before : Text)
    (h : ∀ c ∈ text, isWordChar c = true) :
    scanText (.word before) text =
      some ([], .word (before ++ text)) := by
  induction text generalizing before with
  | nil => simp [scanText]
  | cons c rest ih =>
      have hFirst := h c (by simp)
      have hRest := ih (before ++ [c]) fun other hMem =>
        h other (by simp [hMem])
      simp [scanText, scanChar, hFirst, hRest]

/- Characters of words that stand together are one word. -/
theorem tokens_word
    {word : Text}
    (hNonempty : word ≠ [])
    (h : ∀ c ∈ word, isWordChar c = true) :
    tokens word = some [.word word] := by
  cases word with
  | nil => exact absurd rfl hNonempty
  | cons c rest =>
      have hFirst := h c (by simp)
      have hMore : ∀ other ∈ rest, isWordChar other = true :=
        fun other hMem => h other (by simp [hMem])
      have hRest := scanText_wordChars [c] hMore
      apply tokens_eq_some_iff.mpr
      refine .inr ⟨[], c :: rest, rfl, ?_⟩
      simp [scanText, scanChar, scanFirst, hFirst, hRest]

/- Characters that say nothing special stay in a string. -/
theorem scanText_inside
    (before : Text)
    (h : text.all isInside = true) :
    scanText (.string before) text =
      some ([], .string (before ++ text)) := by
  induction text generalizing before with
  | nil => simp [scanText]
  | cons c rest ih =>
      simp only [List.all_cons, isInside, Bool.and_eq_true,
        bne_iff_ne, decide_eq_true_eq] at h
      rcases h with ⟨⟨⟨hQuote, hBackslash⟩, hLow⟩, hMore⟩
      have hHigh : ¬ c.toNat < 0x20 := by omega
      have hRest := ih (before ++ [c]) hMore
      simp [scanText, scanChar, hQuote, hBackslash, hHigh,
        hRest]

/- What is escaped by a letter stays in a string. -/
theorem scanText_escape
    (before : Text)
    {letter : Char}
    (h : 0x20 ≤ letter.toNat)
    (rest : Text) :
    scanText (.string before) ('\\' :: letter :: rest) =
      scanText (.string (before ++ ['\\', letter])) rest := by
  have hFirst : scanChar (.string before) '\\' =
      some ([], .escape before) := rfl
  have hSecond : scanChar (.escape before) letter =
      some ([], .string (before ++ ['\\', letter])) := by
    rw [scanChar, if_neg (by omega)]
  simp only [scanText, hFirst, hSecond]
  cases scanText (.string (before ++ ['\\', letter])) rest <;>
    simp

/- A written character stays within its string. -/
theorem scanText_literalChar
    (before : Text)
    (c : Char) :
    scanText (.string before) (Text.literalChar c) =
      some ([], .string (before ++ Text.literalChar c)) := by
  rcases literalChar_cases c with
    ⟨letter, hWritten, _, hLetter, _⟩ |
    ⟨a, b, d, e, hWritten, _, hInside⟩ | ⟨hWritten, hInside⟩
  · rw [hWritten, scanText_escape before hLetter, scanText]
  · rw [hWritten, scanText_escape before (by decide),
      scanText_inside _ hInside]
    simp
  · rw [hWritten]
    exact scanText_inside before (by simpa using hInside)

/- A string literal is one token, whatever it says. -/
theorem closed_literal
    (text : Text) :
    Closed (Text.literal text) [.string text] := by
  have hInside (before rest : Text) :
      scanText (.string before)
          (rest.flatMap Text.literalChar) =
        some ([], .string
          (before ++ rest.flatMap Text.literalChar)) := by
    induction rest generalizing before with
    | nil => simp [scanText]
    | cons c more ih =>
        rw [List.flatMap_cons, scanText_append,
          scanText_literalChar]
        simp [ih]
  have hOpen : scanText .idle ['"'] =
      some ([], .string []) := by
    decide
  have hClose :
      scanText (.string (text.flatMap Text.literalChar))
          ['"'] =
        some ([.string text], .idle) := by
    simp [scanText, scanChar, unescape_literal]
  unfold Closed Text.literal
  rw [List.append_assoc, scanText_append, hOpen]
  simp only [scanText_append, hInside, List.nil_append,
    hClose, Option.map_some]

-- Blanks and Line Ends

/- No blank is a character of a word. -/
theorem not_isWordChar_of_isBlank
    (h : Text.isBlank c = true) :
    isWordChar c = false := by
  have hShort : ∀ range ∈ Text.blankRanges,
      range.2 ≤ range.1 + 10 := by
    decide
  have hRanges : ∀ range ∈ Text.blankRanges,
      ∀ k < 11, range.1 + k ≤ range.2 →
        isWordChar (Char.ofNat (range.1 + k)) = false := by
    decide +kernel
  rcases List.any_eq_true.mp h with ⟨range, hMem, hWithin⟩
  simp only [Text.within, Bool.and_eq_true,
    decide_eq_true_eq] at hWithin
  have hLength := hShort range hMem
  have hCode : range.1 + (c.toNat - range.1) = c.toNat := by
    omega
  have hChar := hRanges range hMem (c.toNat - range.1)
    (by omega) (by omega)
  rwa [hCode, Char.ofNat_toNat] at hChar

theorem scanFirst_blank
    (h : Text.isBlank c = true) :
    scanFirst c = ([], .idle) := by
  simp [scanFirst, not_isWordChar_of_isBlank h, h]

/-
  A blank after a text ends its last token. In a string that
  is not closed, there is none.
-/
theorem tokens_concat_blank
    (text : Text)
    (h : Text.isBlank c = true) :
    tokens (text ++ [c]) = tokens text := by
  have hFirst := scanFirst_blank h
  have hWord := not_isWordChar_of_isBlank h
  have hQuote : c ≠ '"' := by
    rintro rfl
    cases h
  unfold tokens
  rw [scanText_append]
  cases scanText .idle text with
  | none => rfl
  | some step =>
      rcases step with ⟨found, pending⟩
      cases pending with
      | idle => simp [scanText, scanChar, hFirst]
      | word before =>
          simp [scanText, scanChar, hWord, hFirst,
            Pending.last]
      | string before =>
          by_cases hLow : c.toNat < 0x20
          · simp [scanText, scanChar, hQuote, hLow,
              Pending.last]
          · by_cases hBackslash : c = '\\' <;>
              simp [scanText, scanChar, hQuote, hLow,
                hBackslash, Pending.last]
      | escape before =>
          by_cases hLow : c.toNat < 0x20 <;>
            simp [scanText, scanChar, hLow, Pending.last]

theorem tokens_stripEnd
    (text : Text) :
    tokens (Text.stripEnd text) = tokens text := by
  induction text using List.reverseRecOn with
  | nil => rfl
  | append_singleton text c ih =>
      by_cases hBlank : Text.isBlank c = true
      · rw [tokens_concat_blank text hBlank, ← ih]
        simp [Text.stripEnd, hBlank]
      · simp [Text.stripEnd, hBlank]

/- Indentation and blanks at the end hold no tokens. -/
theorem tokens_lineAt
    (depth : Int)
    {found : List Token}
    (h : tokens text = some found) :
    tokens (lineAt depth text) = some found := by
  have hMargin (n : Nat) :
      Closed (List.replicate n ' ') [] := by
    induction n with
    | zero => exact .nil
    | succ n ih =>
        have hSpace : Closed [' '] [] := by decide
        exact hSpace.append ih
  unfold lineAt
  rw [tokens_stripEnd]
  exact (hMargin _).append_tokens h

/- A line is whole tokens, as no string goes over its end. -/
theorem scanText_line
    (line : Text) :
    scanText .idle (line ++ ['\n']) =
      (tokens line).map fun found => (found, .idle) := by
  have hFirst : scanFirst '\n' = ([], .idle) := by decide
  have hWord : isWordChar '\n' = false := by decide
  unfold tokens
  rw [scanText_append]
  cases scanText .idle line with
  | none => rfl
  | some step =>
      rcases step with ⟨found, pending⟩
      cases pending <;>
        simp [scanText, scanChar, hFirst, hWord, Pending.last]

/- The tokens of lines are those of each, one by one. -/
theorem tokens_unlines_cons
    (line : Text)
    (more : List Text) :
    tokens (unlines (line :: more)) =
      (tokens line).bind fun found =>
        (tokens (unlines more)).map (found ++ ·) := by
  have hLine : unlines (line :: more) =
      (line ++ ['\n']) ++ unlines more := by
    simp
  rw [hLine]
  conv_lhs => unfold tokens
  rw [scanText_append, scanText_line]
  cases tokens line with
  | none => rfl
  | some found =>
      simp only [Option.map_some, Option.bind_some]
      unfold tokens
      cases scanText .idle (unlines more) with
      | none => rfl
      | some step =>
          rcases step with ⟨rest, pending⟩
          cases pending <;> simp [Pending.last]

theorem tokens_joined_lines
    (lines : List Text) :
    tokens (Text.joined ['\n'] lines) =
      tokens (unlines lines) := by
  by_cases hNil : lines = []
  · subst hNil
    rfl
  · have hBlank : Text.isBlank '\n' = true := by decide
    rw [← joined_concat_newline hNil,
      tokens_concat_blank _ hBlank]

/- The lines that are blank hold no tokens. -/
theorem tokens_unlines_ink
    (lines : List Text) :
    tokens (unlines ((lines.map Text.stripEnd).filter
        fun line => !line.isEmpty)) =
      tokens (unlines lines) := by
  induction lines with
  | nil => rfl
  | cons line more ih =>
      rw [tokens_unlines_cons, ← tokens_stripEnd line, ← ih,
        List.map_cons]
      by_cases hEmpty : Text.stripEnd line = []
      · rw [List.filter_cons_of_neg (by simp [hEmpty]),
          hEmpty]
        have hNone : tokens [] = some [] := rfl
        simp [hNone]
      · rw [List.filter_cons_of_pos (by simp [hEmpty]),
          tokens_unlines_cons]

/-
  The residue of some code has the tokens of the code without
  its comments.
-/
theorem tokens_residue
    (text : Text) :
    tokens (residue text) =
      tokens (uncomment .code text) := by
  unfold residue inkLines
  rw [tokens_joined_lines, tokens_unlines_ink,
    ← tokens_joined_lines, Text.joined_pieces]

end TypeScript

end ThriftTypings
