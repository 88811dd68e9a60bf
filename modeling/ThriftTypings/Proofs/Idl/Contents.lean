import ThriftTypings.Proofs.Idl.Tokens

/-
  This file defines what a source holds, without any
  grammar, and proves that lexemes read it.

  A source is gone through character by character. Once its
  comments are collected, once it is squeezed: what is left
  are its tokens, one after the other.

  Key definitions include:
    * `Region` and `collect`
    * `Zone` and `squeeze`

  Key theorems include:
    * `holds_word` and `holds_stringLiteral`
    * `holds_comments` and `holds_inlineComment`
-/

namespace ThriftTypings

namespace Idl

variable {c : Char}

-- The Comments of a Source

/-
  What the next character of a source belongs to. Inside of
  a comment, what came of it so far is kept.
-/
inductive Region where
  | code
  | literal
  | line (before : Text)
  | block (before : Text)
  deriving DecidableEq, Repr

/-
  The comments of a source in order. A literal ends with the
  next quote, and there are no escapes in it.
-/
def collect : Region → Text → List Comment
  | .line before, [] => [.line (Text.strip before)]
  | _, [] => []
  | .code, '"' :: rest => collect .literal rest
  | .code, '/' :: '/' :: rest => collect (.line []) rest
  | .code, '/' :: '*' :: rest => collect (.block []) rest
  | .code, _ :: rest => collect .code rest
  | .literal, c :: rest =>
      collect (if c = '"' then .code else .literal) rest
  | .line before, c :: rest =>
      if c = '\n' then
        .line (Text.strip before) :: collect .code rest
      else
        collect (.line (before ++ [c])) rest
  | .block before, '*' :: '/' :: rest =>
      .block ((Text.pieces '\n' before).map Text.strip) ::
        collect .code rest
  | .block before, c :: rest =>
      collect (.block (before ++ [c])) rest

example :
    collect .code "a // \"b \n\"//\" /* c\n d*/ /".toList =
      [.line "\"b".toList, .block [['c'], ['d']]] := by
  decide

-- Squeezed Sources

/- What the next character of a source belongs to. -/
inductive Zone where
  | code
  | literal
  | line
  | block
  deriving DecidableEq, Repr

/- Characters that only keep others apart. -/
def isLoose
    (c : Char) : Bool :=
  isSpace c || c == ',' || c == ';'

/-
  A source without its comments and, outside of literals,
  without white space, commas and semicolons.
-/
def squeeze : Zone → Text → Text
  | _, [] => []
  | .code, '"' :: rest => '"' :: squeeze .literal rest
  | .code, '/' :: '/' :: rest => squeeze .line rest
  | .code, '/' :: '*' :: rest => squeeze .block rest
  | .code, c :: rest =>
      if isLoose c then squeeze .code rest
      else c :: squeeze .code rest
  | .literal, c :: rest =>
      c :: squeeze (if c = '"' then .code else .literal) rest
  | .line, c :: rest =>
      squeeze (if c = '\n' then .code else .line) rest
  | .block, '*' :: '/' :: rest => squeeze .code rest
  | .block, _ :: rest => squeeze .block rest

example :
    squeeze .code
        "a, // \"b\n\"c, //\" /* d\n;*/ : 1 ;".toList =
      "a\"c, //\":1".toList := by
  decide

/- What is left of a token in a squeezed source. -/
def Token.squeezed : Token → Text
  | .word text => text
  | .mark c => if isLoose c then [] else [c]
  | .literal value => inQuotes value
  | .slot => []

/- A text holds tokens and comments in front of a rest. -/
structure Holds
    (tokens : List Token)
    (comments : List Comment)
    (text rest : Text) : Prop where
  tokens : squeeze .code text =
    tokens.flatMap Token.squeezed ++ squeeze .code rest
  comments : collect .code text =
    comments ++ collect .code rest

namespace Holds

variable {first second : List Token}
variable {before after : List Comment}
variable {text middle rest : Text}

theorem refl
    (text : Text) : Holds [] [] text text :=
  ⟨rfl, rfl⟩

theorem trans
    (h : Holds first before text middle)
    (hMore : Holds second after middle rest) :
    Holds (first ++ second) (before ++ after) text
      rest := by
  constructor
  · rw [h.tokens, hMore.tokens, List.flatMap_append,
      List.append_assoc]
  · rw [h.comments, hMore.comments, List.append_assoc]

end Holds

-- Characters

variable {text rest : Text}

/- Does the character neither open a comment nor a literal? -/
def isOrdinary
    (c : Char) : Bool :=
  c != '/' && c != '"'

theorem collect_ordinary
    (h : isOrdinary c = true)
    (rest : Text) :
    collect .code (c :: rest) = collect .code rest := by
  simp only [isOrdinary, Bool.and_eq_true, bne_iff_ne] at h
  rw [collect]
  · intro hQuote
    exact absurd hQuote h.2
  · intro more hSlash
    exact absurd hSlash h.1
  · intro more hSlash
    exact absurd hSlash h.1

theorem squeeze_ordinary
    (h : isOrdinary c = true)
    (rest : Text) :
    squeeze .code (c :: rest) =
      if isLoose c then squeeze .code rest
      else c :: squeeze .code rest := by
  simp only [isOrdinary, Bool.and_eq_true, bne_iff_ne] at h
  rw [squeeze]
  · intro hQuote
    exact absurd hQuote h.2
  · intro more hSlash
    exact absurd hSlash h.1
  · intro more hSlash
    exact absurd hSlash h.1

theorem isOrdinary_of_isLoose
    (h : isLoose c = true) :
    isOrdinary c = true := by
  have hMem : c ∈ [' ', '\t', '\r', '\n', ',', ';'] := by
    simpa [isLoose, isSpace, or_assoc] using h
  have hAll : [' ', '\t', '\r', '\n', ',', ';'].all
      isOrdinary = true := by
    decide
  exact List.all_eq_true.mp hAll c hMem

theorem holds_cons
    (h : isOrdinary c = true)
    (rest : Text) :
    Holds [.mark c] [] (c :: rest) rest := by
  refine ⟨?_, collect_ordinary h rest⟩
  rw [squeeze_ordinary h]
  simp only [List.flatMap_singleton, Token.squeezed]
  split <;> rfl

theorem holds_loose
    (h : isLoose c = true)
    (rest : Text) :
    Holds [] [] (c :: rest) rest := by
  have hOrdinary := isOrdinary_of_isLoose h
  refine ⟨?_, collect_ordinary hOrdinary rest⟩
  rw [squeeze_ordinary hOrdinary, if_pos h]
  rfl

theorem isOrdinary_of_not_isDelimiter
    (h : isDelimiter c = false) :
    isOrdinary c = true ∧ isLoose c = false := by
  have hOther (mark : Char)
      (hMark : isDelimiter mark = true) : c ≠ mark := by
    rintro rfl
    simp [hMark] at h
  simp [isOrdinary, isLoose, isSpace,
    hOther '/' (by decide), hOther '"' (by decide),
    hOther ' ' (by decide), hOther '\t' (by decide),
    hOther '\r' (by decide), hOther '\n' (by decide),
    hOther ',' (by decide), hOther ';' (by decide)]

theorem holds_word
    {word : Text}
    (h : IsWord word)
    (rest : Text) :
    Holds [.word word] [] (word ++ rest) rest := by
  have hAll := h.2
  clear h
  induction word with
  | nil => exact ⟨rfl, rfl⟩
  | cons c more ih =>
      rcases List.forall_mem_cons.mp hAll with
        ⟨hFirst, hMore⟩
      rcases isOrdinary_of_not_isDelimiter hFirst with
        ⟨hOrdinary, hTight⟩
      have hRest := ih hMore
      constructor
      · rw [List.cons_append, squeeze_ordinary hOrdinary,
          if_neg (by simp [hTight]), hRest.tokens]
        rfl
      · rw [List.cons_append, collect_ordinary hOrdinary,
          hRest.comments]

theorem holds_dropWhile
    {skips : Char → Bool}
    (h : ∀ c, skips c = true → isLoose c = true)
    (text : Text) :
    Holds [] [] text (text.dropWhile skips) := by
  induction text with
  | nil => exact .refl _
  | cons c more ih =>
      by_cases hSkips : skips c = true
      · rw [List.dropWhile_cons_of_pos hSkips]
        exact (holds_loose (h c hSkips) more).trans ih
      · rw [List.dropWhile_cons_of_neg hSkips]
        exact .refl _

/- White space in front holds nothing. -/
theorem Holds.of_skipSpace
    {tokens : List Token}
    {comments : List Comment}
    (h : Holds tokens comments (skipSpace text) rest) :
    Holds tokens comments text rest := by
  have hSpace := holds_dropWhile
    (fun c (hSpace : isSpace c = true) => by
      simp [isLoose, hSpace]) text
  exact hSpace.trans h

-- Comments

/- A line comment is collected as it is read. -/
theorem collect_line
    (before text : Text) :
    collect (.line before) text =
      .line (Text.strip
          (before ++ text.takeWhile (· != '\n'))) ::
        collect .code (text.dropWhile (· != '\n')) := by
  induction text generalizing before with
  | nil => simp [collect]
  | cons c more ih =>
      rw [collect]
      by_cases hEnd : c = '\n'
      · subst hEnd
        simp [collect_ordinary (c := '\n') (by decide)]
      · rw [if_neg hEnd, ih]
        simp [hEnd]

/- A line is squeezed out up to its end. -/
theorem squeeze_line
    (text : Text) :
    squeeze .line text =
      squeeze .code (text.dropWhile (· != '\n')) := by
  induction text with
  | nil => simp [squeeze]
  | cons c more ih =>
      rw [squeeze]
      by_cases hEnd : c = '\n'
      · subst hEnd
        simp [(holds_loose (c := '\n') (by decide) _).tokens]
      · rw [if_neg hEnd, ih]
        simp [hEnd]

theorem holds_lineComment
    (text : Text) :
    Holds [] [(lineComment text).1] ('/' :: '/' :: text)
      (lineComment text).2 := by
  constructor
  · rw [squeeze, squeeze_line]
    rfl
  · rw [collect, collect_line]
    rfl

/- A block comment is collected as it is read. -/
theorem collect_block
    {inner : Text}
    (before : Text)
    (h : blockEnd text = some (inner, rest)) :
    collect (.block before) text =
      blockComment (before ++ inner) ::
        collect .code rest := by
  fun_induction blockEnd text
    generalizing before inner rest with
  | case1 => cases h
  | case2 more =>
      cases h
      rw [List.append_nil]
      rfl
  | case3 => cases h
  | case4 c more hNot found after hSome ih =>
      cases h
      rw [collect]
      · rw [ih _ hSome]
        simp
      · intro others hStar hSlash
        exact hNot others hStar hSlash

/- A block is squeezed out up to its end. -/
theorem squeeze_block
    {inner : Text}
    (h : blockEnd text = some (inner, rest)) :
    squeeze .block text = squeeze .code rest := by
  fun_induction blockEnd text generalizing inner rest with
  | case1 => cases h
  | case2 more =>
      cases h
      rw [squeeze]
  | case3 => cases h
  | case4 c more hNot found after hSome ih =>
      cases h
      rw [squeeze]
      · exact ih hSome
      · intro others hStar hSlash
        exact hNot others hStar hSlash

/- What a round of reading comments gives. -/
def Round.comment? : Round Comment Unit → List Comment
  | .more comment => [comment]
  | .last () => []

theorem holds_nextComment
    {round : Round Comment Unit}
    (h : nextComment text = .ok (round, rest)) :
    Holds [] round.comment? text rest := by
  apply Holds.of_skipSpace
  unfold nextComment at h
  split at h
  · next hLine =>
      cases h
      rw [hLine]
      exact holds_lineComment _
  · next hBlock =>
      split at h
      · cases h
      · next hEnd =>
          cases h
          rw [hBlock]
          constructor
          · rw [squeeze, squeeze_block hEnd]
            rfl
          · rw [collect, collect_block [] hEnd]
            rfl
  · cases h
    exact .refl _

/- The comments that are read are the next of the source. -/
theorem holds_comments
    {found : List Comment}
    (h : comments text = .ok (found, rest)) :
    Holds [] found text rest := by
  rcases Scan.bind_eq_ok_iff.mp h with
    ⟨⟨_, final⟩, _, hRepeated, hPure⟩
  cases hPure
  clear h
  induction found generalizing text with
  | nil =>
      exact holds_nextComment
        (Scan.repeated_eq_ok_iff.mp hRepeated)
  | cons first more ih =>
      rcases Scan.repeated_eq_ok_iff.mp hRepeated with
        ⟨after, hFirst, hMore⟩
      exact (holds_nextComment hFirst).trans (ih hMore)

theorem holds_inlineComment
    {found : List Comment}
    (h : inlineComment text = .ok (found, rest)) :
    Holds [] found text rest := by
  have hSpace : Holds [] [] text
      (text.dropWhile isLineSpace) := by
    apply holds_dropWhile
    intro c hSpace
    simp only [isLineSpace, isLoose, isSpace,
      Bool.or_eq_true] at hSpace ⊢
    tauto
  unfold inlineComment at h
  split at h
  · next hLine =>
      cases h
      rw [hLine] at hSpace
      exact hSpace.trans (holds_lineComment _)
  · cases h
    exact .refl _

-- Lexemes

theorem holds_symbol
    (h : symbol c text = .ok ((), rest))
    (hOrdinary : isOrdinary c = true) :
    Holds [.mark c] [] text rest := by
  apply Holds.of_skipSpace
  rw [symbol_eq_ok_iff.mp h]
  exact holds_cons hOrdinary rest

theorem holds_identifier
    {name : Text}
    (h : identifier text = .ok (name, rest)) :
    Holds [.word name] [] text rest := by
  rcases identifier_eq_ok_iff.mp h with ⟨hName, _, hText⟩
  apply Holds.of_skipSpace
  rw [hText]
  exact holds_word hName rest

theorem holds_integer
    {number : Text}
    (h : integer text = .ok (number, rest)) :
    Holds [.word number] [] text rest := by
  rcases run_eq_ok_iff.mp h with
    ⟨⟨hNonempty, hDigits⟩, _, hText⟩
  apply Holds.of_skipSpace
  rw [hText]
  apply holds_word
  exact ⟨hNonempty, fun c hMem =>
    isDelimiter_of_isDigit (hDigits c hMem)⟩

theorem holds_keyword?
    {word : Text}
    (hWord : IsWord word)
    (h : keyword? word text = some rest) :
    Holds [.word word] [] text rest := by
  rcases keyword?_eq_some_iff.mp h with ⟨hText, _⟩
  apply Holds.of_skipSpace
  rw [hText]
  exact holds_word hWord rest

theorem holds_firstKeyword?
    {α : Type}
    {word : α → Text}
    (hWords : ∀ choice, IsWord (word choice))
    {choices : List α}
    {choice : α}
    (h : firstKeyword? word choices text =
      some (choice, rest)) :
    Holds [.word (word choice)] [] text rest := by
  apply holds_keyword? (hWords choice)
  exact keyword?_eq_some_iff.mpr
    (spelled_of_firstKeyword? h).2

theorem holds_firstGeneric?
    {choices : List Generic}
    {generic : Generic}
    (h : firstGeneric? choices text =
      some (generic, rest)) :
    Holds [.word generic.word, .mark '<'] [] text rest := by
  rcases spelled_of_firstGeneric? h with
    ⟨_, after, hText, hOpen⟩
  have hBracket : Holds [.mark '<'] [] after rest := by
    apply Holds.of_skipSpace
    rw [hOpen]
    exact holds_cons (by decide) rest
  apply Holds.of_skipSpace
  rw [hText]
  exact (holds_word generic.isWord_word after).trans
    hBracket

theorem squeeze_literal
    {value : Text}
    (h : '"' ∉ value)
    (rest : Text) :
    squeeze .literal (value ++ '"' :: rest) =
        value ++ '"' :: squeeze .code rest ∧
      collect .literal (value ++ '"' :: rest) =
        collect .code rest := by
  induction value with
  | nil => simp [squeeze, collect]
  | cons c more ih =>
      simp only [List.mem_cons, not_or] at h
      rcases ih h.2 with ⟨hSqueeze, hCollect⟩
      rw [List.cons_append, squeeze, collect,
        if_neg (Ne.symm h.1), if_neg (Ne.symm h.1)]
      exact ⟨congrArg (c :: ·) hSqueeze, hCollect⟩

/-
  In a literal nothing is squeezed out, and it hides the
  marks of comments.
-/
theorem holds_stringLiteral
    {value : Text}
    (h : stringLiteral text = .ok (value, rest)) :
    Holds [.literal value] [] text rest := by
  rcases stringLiteral_eq_ok_iff.mp h with ⟨hValue, hText⟩
  rcases squeeze_literal hValue rest with
    ⟨hSqueeze, hCollect⟩
  apply Holds.of_skipSpace
  rw [hText]
  constructor
  · rw [squeeze, hSqueeze]
    simp [Token.squeezed, inQuotes]
  · rw [collect, hCollect]
    rfl

/- A separator fills a slot, and is squeezed out. -/
theorem holds_separator
    (h : separator text = .ok ((), rest)) :
    Holds [.slot] [] text rest := by
  have hEmpty : Holds [] [] text rest := by
    cases h
    unfold skipSeparator
    split
    · next hText =>
        apply Holds.of_skipSpace
        rw [hText]
        exact holds_loose (by decide) _
    · next hText =>
        apply Holds.of_skipSpace
        rw [hText]
        exact holds_loose (by decide) _
    · exact .refl _
  exact ⟨hEmpty.tokens, hEmpty.comments⟩

end Idl

end ThriftTypings
