import ThriftTypings.Proofs.Idl.Collected
import ThriftTypings.Proofs.Idl.Concatenation
import ThriftTypings.Proofs.Idl.Laws

/-
  This file proves that it does not matter whether lines end
  in a line feed or in a return and a line feed.

  The two sources are read side by side. The texts that are
  left stay the same but for returns in front of some line
  feeds, and the same values are read. Literals are kept as
  they are, so no line may end inside of one: squeezed, a
  source keeps its line feeds only there.

  Key definitions include:
    * `Text.returned` and `Rewrapped`
    * `Alike`

  Key theorems include:
    * `Document.read_of_alike`
    * `Document.parse_returned`
-/

namespace ThriftTypings

variable {word : Text}

/- A return in front of every line feed. -/
def Text.returned
    (text : Text) : Text :=
  text.flatMap fun c =>
    if c = '\n' then ['\r', '\n'] else [c]

namespace Idl

-- Texts with Returns

/- The same text, with returns in front of line feeds. -/
inductive Rewrapped : Text → Text → Prop where
  | nil : Rewrapped [] []
  | same {text other : Text} (c : Char) :
      Rewrapped text other →
        Rewrapped (c :: text) (c :: other)
  | returned {text other : Text} :
      Rewrapped text other →
        Rewrapped ('\n' :: text) ('\r' :: '\n' :: other)

theorem rewrapped_returned
    (text : Text) :
    Rewrapped text text.returned := by
  induction text with
  | nil => exact .nil
  | cons c text ih =>
      by_cases hBreak : c = '\n'
      · subst hBreak
        exact .returned ih
      · simp only [Text.returned, List.flatMap_cons,
          if_neg hBreak]
        exact .same c ih

theorem keyword?_eq
    (word text : Text) :
    keyword? word text =
      (past? word (skipSpace text)).filter endsWord := by
  by_cases hStarts : Text.startsWith (skipSpace text) word
  · simp [keyword?, past?, hStarts, Option.filter]
  · simp [keyword?, past?, hStarts]

theorem generic?_eq
    (generic : Generic)
    (text : Text) :
    generic? generic text =
      (past? generic.word (skipSpace text)).bind fun rest =>
        past? ['<'] (skipSpace rest) := by
  by_cases hStarts :
      Text.startsWith (skipSpace text) generic.word
  · simp only [generic?, past?, hStarts, if_true,
      Option.bind_some]
    cases skipSpace _ with
    | nil => rfl
    | cons c rest =>
        by_cases hOpen : c = '<'
        · subst hOpen
          rfl
        · simp [hOpen, Ne.symm hOpen, Text.startsWith]
  · simp [generic?, past?, hStarts]

theorem unbroken_of_isWord
    (h : IsWord word) :
    '\r' ∉ word ∧ '\n' ∉ word := by
  constructor
  · intro hMem
    exact absurd (h.2 _ hMem) (by decide)
  · intro hMem
    exact absurd (h.2 _ hMem) (by decide)

namespace Rewrapped

variable {text other : Text}

/- What has no line feeds stands in both texts. -/
theorem of_append
    {front rest : Text}
    (h : Rewrapped (front ++ rest) other)
    (hLine : '\n' ∉ front) :
    ∃ left, other = front ++ left ∧
      Rewrapped rest left := by
  induction front generalizing other with
  | nil => exact ⟨other, rfl, h⟩
  | cons c front ih =>
      simp only [List.mem_cons, not_or] at hLine
      cases h with
      | same _ h =>
          obtain ⟨left, rfl, hRest⟩ := ih h hLine.2
          exact ⟨left, rfl, hRest⟩
      | returned => exact absurd rfl hLine.1

theorem isEmpty_eq
    (h : Rewrapped text other) :
    other.isEmpty = text.isEmpty := by
  cases h <;> rfl

theorem length_le
    (h : Rewrapped text other) :
    text.length ≤ other.length := by
  induction h with
  | nil => exact Nat.le_refl _
  | same c _ ih => simpa using ih
  | returned _ ih =>
      exact Nat.succ_le_succ (Nat.le_succ_of_le ih)

/- On one line there is nothing to choose. -/
theorem eq_of_not_mem
    (h : Rewrapped text other)
    (hLine : '\n' ∉ text) :
    other = text := by
  induction h with
  | nil => rfl
  | same c _ ih =>
      rw [ih fun hMem => hLine (.tail _ hMem)]
  | returned => exact absurd (List.mem_cons_self) hLine

/- Classes with returns and line feeds, or with neither. -/
theorem takeWhile_dropWhile
    (h : Rewrapped text other)
    {belongs : Char → Bool}
    (hSame : belongs '\r' = belongs '\n') :
    Rewrapped (text.takeWhile belongs)
        (other.takeWhile belongs) ∧
      Rewrapped (text.dropWhile belongs)
        (other.dropWhile belongs) := by
  induction h with
  | nil => exact ⟨.nil, .nil⟩
  | @same text other c hMore ih =>
      simp only [List.takeWhile_cons, List.dropWhile_cons]
      split
      · exact ⟨.same c ih.1, ih.2⟩
      · exact ⟨.nil, .same c hMore⟩
  | @returned text other hMore ih =>
      simp only [List.takeWhile_cons, List.dropWhile_cons,
        hSame]
      split
      · exact ⟨.returned ih.1, ih.2⟩
      · exact ⟨.nil, .returned hMore⟩

theorem skipSpace
    (h : Rewrapped text other) :
    Rewrapped (skipSpace text) (skipSpace other) :=
  (h.takeWhile_dropWhile rfl).2

theorem endsWord_eq
    (h : Rewrapped text other) :
    endsWord other = endsWord text := by
  cases h <;> rfl

/- Words stand in both texts, or in neither. -/
theorem past?
    (h : Rewrapped text other)
    (hWord : '\r' ∉ word ∧ '\n' ∉ word) :
    Option.Rel Rewrapped (past? word text)
      (past? word other) := by
  induction word generalizing text other with
  | nil => exact .some h
  | cons first more ih =>
      simp only [List.mem_cons, not_or] at hWord
      obtain ⟨⟨hReturn, hReturns⟩, hBreak, hBreaks⟩ := hWord
      cases h with
      | nil => exact .none
      | same c h =>
          by_cases hFirst : c = first
          · subst hFirst
            simpa [Idl.past?, Text.startsWith] using
              ih h ⟨hReturns, hBreaks⟩
          · simp [Idl.past?, Text.startsWith,
              Ne.symm hFirst]
      | returned h =>
          simp [Idl.past?, Text.startsWith, Ne.symm hReturn,
            Ne.symm hBreak]

theorem keyword?
    (h : Rewrapped text other)
    (hWord : IsWord word) :
    Option.Rel Rewrapped (keyword? word text)
      (keyword? word other) := by
  have hPast := h.skipSpace.past? (unbroken_of_isWord hWord)
  rw [keyword?_eq, keyword?_eq]
  generalize Idl.past? word _ = found at hPast ⊢
  generalize Idl.past? word _ = others at hPast ⊢
  cases hPast with
  | none => exact .none
  | some hRest =>
      rw [Option.filter_some, Option.filter_some,
        hRest.endsWord_eq]
      split
      · exact .some hRest
      · exact .none

theorem generic?
    (h : Rewrapped text other)
    (generic : Generic) :
    Option.Rel Rewrapped (generic? generic text)
      (generic? generic other) := by
  have hPast := h.skipSpace.past?
    (unbroken_of_isWord generic.isWord_word)
  rw [generic?_eq, generic?_eq]
  generalize Idl.past? generic.word _ = found at hPast ⊢
  generalize Idl.past? generic.word _ = others at hPast ⊢
  cases hPast with
  | none => exact .none
  | some hRest => exact hRest.skipSpace.past? (by decide)

theorem skipSeparator
    (h : Rewrapped text other) :
    Rewrapped (skipSeparator text)
      (skipSeparator other) := by
  have hSkip := h.skipSpace
  unfold Idl.skipSeparator
  generalize Idl.skipSpace text = start at hSkip ⊢
  generalize Idl.skipSpace other = begun at hSkip ⊢
  cases hSkip with
  | nil => exact h
  | same c hRest =>
      by_cases hComma : c = ','
      · subst hComma
        exact hRest
      · by_cases hSemicolon : c = ';'
        · subst hSemicolon
          exact hRest
        · simpa [hComma, hSemicolon] using h
  | returned => exact h

/- The end of a block is the same. -/
theorem blockEnd
    {inner rest : Text}
    (h : Rewrapped text other)
    (hEnd : blockEnd text = some (inner, rest)) :
    ∃ inside left,
      blockEnd other = some (inside, left) ∧
        Rewrapped inner inside ∧ Rewrapped rest left := by
  fun_induction Idl.blockEnd text
    generalizing other inner rest with
  | case1 => cases hEnd
  | case2 more =>
      cases hEnd
      cases h with
      | same _ h =>
          cases h with
          | same _ h => exact ⟨[], _, rfl, .nil, h⟩
  | case3 => cases hEnd
  | case4 c more hOpen inner rest hMore ih =>
      cases hEnd
      cases h with
      | @same _ other _ h =>
          obtain ⟨inside, left, hOther, hInner, hRest⟩ :=
            ih h hMore
          refine ⟨c :: inside, left, ?_, .same c hInner,
            hRest⟩
          rw [Idl.blockEnd, hOther]
          rintro after rfl rfl
          cases h with
          | same => exact hOpen _ rfl rfl
      | returned h =>
          obtain ⟨inside, left, hOther, hInner, hRest⟩ :=
            ih h hMore
          refine ⟨'\r' :: '\n' :: inside, left, ?_,
            .returned hInner, hRest⟩
          simp [Idl.blockEnd, hOther]

end Rewrapped

-- Lines of Comments

/- The same line, with a return at its end or without. -/
def SameLine
    (line other : Text) : Prop :=
  other = line ∨ other = line ++ ['\r']

theorem SameLine.cons
    {line other : Text}
    (h : SameLine line other)
    (c : Char) :
    SameLine (c :: line) (c :: other) :=
  h.imp (congrArg _) (congrArg _)

theorem SameLine.strip_eq
    {line other : Text}
    (h : SameLine line other) :
    Text.strip other = Text.strip line := by
  rcases h with rfl | rfl
  · rfl
  · unfold Text.strip
    rw [List.dropWhile_append]
    have hBlank : Text.isBlank '\r' = true := by decide
    split
    · next hNone =>
        rw [List.isEmpty_iff.mp hNone,
          List.dropWhile_cons_of_pos hBlank]
        rfl
    · simp [Text.stripEnd, hBlank]

namespace Rewrapped

variable {text other : Text}

theorem line
    (h : Rewrapped text other) :
    SameLine (text.takeWhile (· != '\n'))
        (other.takeWhile (· != '\n')) ∧
      Rewrapped (text.dropWhile (· != '\n'))
        (other.dropWhile (· != '\n')) := by
  induction h with
  | nil => exact ⟨.inl rfl, .nil⟩
  | @same text other c hMore ih =>
      simp only [List.takeWhile_cons, List.dropWhile_cons]
      split
      · exact ⟨ih.1.cons c, ih.2⟩
      · exact ⟨.inl rfl, .same c hMore⟩
  | returned hMore => exact ⟨.inr rfl, .same _ hMore⟩

theorem pieces
    (h : Rewrapped text other) :
    List.Forall₂ SameLine (Text.pieces '\n' text)
      (Text.pieces '\n' other) := by
  induction h with
  | nil => exact .cons (.inl rfl) .nil
  | @same text other c _ ih =>
      obtain ⟨first, more, hText⟩ :=
        Text.exists_pieces '\n' text
      obtain ⟨line, lines, hOther⟩ :=
        Text.exists_pieces '\n' other
      rw [Text.pieces_cons hText, Text.pieces_cons hOther]
      rw [hText, hOther] at ih
      split
      · exact .cons (.inl rfl) ih
      · cases ih with
        | cons hFirst hMore =>
            exact .cons (hFirst.cons c) hMore
  | returned _ ih => exact .cons (.inr rfl) ih

theorem blockComment_eq
    (h : Rewrapped text other) :
    blockComment other = blockComment text := by
  have hLines : (Text.pieces '\n' other).map Text.strip =
      (Text.pieces '\n' text).map Text.strip := by
    have hPieces := h.pieces
    generalize Text.pieces '\n' text = lines at hPieces ⊢
    generalize Text.pieces '\n' other = others at hPieces ⊢
    induction hPieces with
    | nil => rfl
    | cons hLine _ ih =>
        rw [List.map_cons, List.map_cons, hLine.strip_eq,
          ih]
  rw [blockComment, hLines, blockComment]

end Rewrapped

-- Acts Side by Side

/- Rewrapped texts in front of which no literal is open. -/
structure Alike
    (text other : Text) : Prop where
  rewrapped : Rewrapped text other
  literals : '\n' ∉ squeeze .code text

namespace Act

variable {α β : Type}
variable {R : Text → Text → Prop}

/- What is read from a text is read from a related one. -/
def Carries
    (R : Text → Text → Prop)
    {α : Type}
    (act : Act α) : Prop :=
  ∀ (parser other : Parser) {value : α} {after : Parser},
    act parser = (.ok value, after) →
      R parser.rest other.rest →
        ∃ final, act other = (.ok value, final) ∧
          R after.rest final.rest

theorem carries_pure
    (value : α) :
    Carries R (pure value) := by
  intro _ other _ _ h hRests
  cases h
  exact ⟨other, rfl, hRests⟩

theorem carries_fail
    (cause : Cause) :
    Carries R (fail cause : Act α) := by
  intro _ _ _ _ hAct
  cases hAct

theorem Carries.bind
    {act : Act α}
    {next : α → Act β}
    (h : Carries R act)
    (hNext : ∀ value, Carries R (next value)) :
    Carries R (act >>= next) := by
  intro parser other _ _ hBind hRests
  obtain ⟨found, between, hFound, hValue⟩ :=
    bind_eq_ok_iff.mp hBind
  obtain ⟨middle, hMiddle, hRests⟩ :=
    h _ other hFound hRests
  obtain ⟨final, hFinal, hRests⟩ :=
    hNext found _ middle hValue hRests
  exact ⟨final, bind_eq_ok_iff.mpr
    ⟨found, middle, hMiddle, hFinal⟩, hRests⟩

theorem Carries.labelled
    {act : Act α}
    (h : Carries R act)
    (label : Label) :
    Carries R (labelled label act) := by
  intro parser other value _ hAct hRests
  dsimp only [Act.labelled] at hAct ⊢
  rcases hOpened : act
    { parser with labels := parser.labels ++ [label] } with
    ⟨outcome, between⟩
  rw [hOpened] at hAct
  cases hAct
  obtain ⟨final, hFinal, hRests⟩ := h _
    { other with labels := other.labels ++ [label] }
    hOpened hRests
  exact ⟨{ final with labels := final.labels.dropLast },
    by rw [hFinal], hRests⟩

/- The induction is on the rest of the first text. -/
theorem Carries.repeated
    {step : Act (Round α β)}
    (progress : Progresses step)
    (h : Carries R step) :
    Carries R (repeated step progress) := by
  intro parser other values after hAct hRests
  induction hn : parser.rest.length using Nat.strongRecOn
    generalizing parser other values with
  | ind n ih =>
      rw [repeated_eq] at hAct ⊢
      split at hAct
      · cases hAct
      · next hStep =>
          cases hAct
          obtain ⟨final, hFinal, hRests⟩ :=
            h _ other hStep hRests
          rw [hFinal]
          exact ⟨final, rfl, hRests⟩
      · next value between hStep =>
          obtain ⟨middle, hMiddle, hBetween⟩ :=
            h _ other hStep hRests
          rw [hMiddle]
          split at hAct
          · cases hAct
          · next hMore =>
              cases hAct
              obtain ⟨final, hFinal, hRests⟩ :=
                ih _ (hn ▸ progress _ _ _ hStep) between
                  middle hMore hBetween rfl
              dsimp only
              rw [hFinal]
              exact ⟨final, rfl, hRests⟩

theorem carries_accepting
    {look : Text → Option Text}
    (h : ∀ {text other}, R text other →
      Option.Rel R (look text) (look other)) :
    Carries R (accepting look) := by
  intro parser other _ _ hAct hRests
  have hLook := h hRests
  unfold accepting at hAct ⊢
  generalize look parser.rest = found at hAct hLook
  generalize look other.rest = others at hLook ⊢
  cases hLook with
  | none =>
      cases hAct
      exact ⟨other, rfl, hRests⟩
  | some hRest =>
      cases hAct
      exact ⟨_, rfl, hRest⟩

theorem carries_taking
    {take : Text → α × Text}
    (h : ∀ {text other}, R text other →
      (take other).1 = (take text).1 ∧
        R (take text).2 (take other).2) :
    Carries R (taking take) := by
  intro _ other _ _ hAct hRests
  cases hAct
  obtain ⟨hValue, hRest⟩ := h hRests
  refine ⟨other.moved (take other.rest).2, ?_, hRest⟩
  rw [← hValue]
  rfl

theorem carries_passing
    {skip : Text → Text}
    (h : ∀ {text other}, R text other →
      R (skip text) (skip other)) :
    Carries R (passing skip) := by
  intro _ _ _ _ hAct hRests
  cases hAct
  exact ⟨_, rfl, h hRests⟩

-- Lexemes Side by Side

/- The act reads tokens, whichever they are. -/
def Lexes
    {α : Type}
    (act : Act α) : Prop :=
  ∀ parser {value : α} {after : Parser},
    act parser = (.ok value, after) →
      ∃ tokens comments,
        Holds tokens comments parser.rest after.rest

theorem Follows.lexes
    {act : Act α}
    {scan : Scan α}
    (h : Follows act scan)
    (hHolds : ∀ {text value rest},
      scan text = .ok (value, rest) →
        ∃ tokens comments,
          Holds tokens comments text rest) :
    Lexes act :=
  fun _ _ _ hAct => hHolds (h.of_ok hAct)

theorem lexes_accepting
    {look : Text → Option Text}
    (h : ∀ {text rest}, look text = some rest →
      ∃ tokens comments, Holds tokens comments text rest) :
    Lexes (accepting look) := by
  intro parser _ _ hAct
  unfold accepting at hAct
  split at hAct
  · next hLook =>
      cases hAct
      exact h hLook
  · cases hAct
    exact ⟨[], [], .refl _⟩

/- What is left after tokens has no line feeds either. -/
theorem Carries.alike
    {act : Act α}
    (h : Carries Rewrapped act)
    (hLexes : Lexes act) :
    Carries Alike act := by
  intro _ other _ _ hAct hRests
  obtain ⟨final, hFinal, hRest⟩ :=
    h _ other hAct hRests.rewrapped
  obtain ⟨tokens, _, hHolds⟩ := hLexes _ hAct
  refine ⟨final, hFinal, hRest,
    fun hMem => hRests.literals ?_⟩
  rw [hHolds.tokens]
  exact List.mem_append_right _ hMem

theorem carries_lineComment
    {make : Comment → α} :
    Carries Rewrapped (do
      let comment ← taking lineComment
      pure (make comment)) :=
  (carries_taking fun h =>
    ⟨congrArg Comment.line h.line.1.strip_eq,
      h.line.2⟩).bind fun _ => carries_pure _

theorem carries_blockComment :
    Carries Rewrapped
      (expecting blockComment? .openComment) := by
  intro parser other _ _ hAct hRests
  unfold expecting at hAct ⊢
  split at hAct
  · next hTake =>
      cases hAct
      obtain ⟨⟨inner, rest⟩, hEnd, hPair⟩ :=
        Option.map_eq_some_iff.mp hTake
      cases hPair
      obtain ⟨inside, left, hOther, hInner, hRest⟩ :=
        hRests.blockEnd hEnd
      refine ⟨other.moved left, ?_, hRest⟩
      rw [blockComment?, hOther]
      simp [hInner.blockComment_eq]
  · cases hAct

theorem carries_nextComment :
    Carries Rewrapped nextComment :=
  (carries_passing fun h => h.skipSpace).bind fun _ =>
    (carries_accepting fun h => h.past? (by decide)).bind
      (either carries_lineComment
        ((carries_accepting fun h => h.past? (by decide)).bind
          (either
            ((carries_blockComment.labelled _).bind fun _ =>
              carries_pure _)
            (carries_pure _))))

theorem carries_inlineComment :
    Carries Rewrapped inlineComment :=
  (carries_accepting fun h =>
    (h.takeWhile_dropWhile rfl).2.past? (by decide)).bind
      (either carries_lineComment (carries_pure _))

/- A literal on one line is the same in both texts. -/
theorem carries_stringLiteral :
    Carries Alike stringLiteral := by
  intro parser other value after hAct hRests
  have hScan := follows_stringLiteral.of_ok hAct
  obtain ⟨hValue, hText⟩ := stringLiteral_eq_ok_iff.mp hScan
  have hLiterals := hRests.literals
  rw [(holds_stringLiteral hScan).tokens] at hLiterals
  simp only [List.flatMap_singleton, Token.squeezed,
    List.mem_append, not_or] at hLiterals
  obtain ⟨hQuoted, hRest⟩ := hLiterals
  have hSkip := hRests.rewrapped.skipSpace
  rw [hText] at hSkip
  have hFront : '"' :: (value ++ '"' :: after.rest) =
      inQuotes value ++ after.rest := by
    simp [inQuotes]
  rw [hFront] at hSkip
  obtain ⟨left, hOther, hLeft⟩ := hSkip.of_append hQuoted
  have hRead : Idl.stringLiteral other.rest =
      .ok (value, left) :=
    stringLiteral_eq_ok_iff.mpr
      ⟨hValue, hOther.trans (by simp [inQuotes])⟩
  refine ⟨other.moved left, ?_, hLeft, hRest⟩
  rw [follows_stringLiteral, hRead]
  rfl

theorem carries_span
    {belongs : Char → Bool}
    (h : ∀ c, belongs c = true → isDelimiter c = false) :
    Carries Alike
      (taking fun text =>
        (text.takeWhile belongs,
          text.dropWhile belongs)) := by
  have hNot (c : Char) (hDelimiter : isDelimiter c = true) :
      belongs c = false := by
    cases hBelongs : belongs c with
    | false => rfl
    | true => simp [h c hBelongs] at hDelimiter
  have hReturn := hNot '\r' (by decide)
  have hBreak := hNot '\n' (by decide)
  refine Carries.alike
    (carries_taking fun hRests => ?_)
    ((follows_taking _).lexes ?_)
  · obtain ⟨hTake, hDrop⟩ := hRests.takeWhile_dropWhile
      (hReturn.trans hBreak.symm)
    refine ⟨hTake.eq_of_not_mem fun hMem => ?_, hDrop⟩
    have hBelongs := List.mem_takeWhile_imp hMem
    simp [hBreak] at hBelongs
  · intro text word rest hScan
    cases hScan
    have hText := List.takeWhile_append_dropWhile
      (p := belongs) (l := text)
    by_cases hEmpty : text.takeWhile belongs = []
    · rw [hEmpty, List.nil_append] at hText
      rw [hText]
      exact ⟨[], [], .refl _⟩
    · have hWord : IsWord (text.takeWhile belongs) :=
        ⟨hEmpty, fun c hMem =>
          h c (List.mem_takeWhile_imp hMem)⟩
      have hHolds :=
        holds_word hWord (text.dropWhile belongs)
      rw [hText] at hHolds
      exact ⟨_, _, hHolds⟩

theorem carries_mark
    {c : Char}
    (h : c ∈ marks) :
    Carries Alike (accepting (past? [c])) ∧
      Carries Alike
        (accepting fun text =>
          past? [c] (skipSpace text)) := by
  have hAll : marks.all (fun c =>
      isOrdinary c && (c != '\r' && c != '\n')) = true := by
    decide
  have hMark := List.all_eq_true.mp hAll c h
  simp only [Bool.and_eq_true, bne_iff_ne] at hMark
  obtain ⟨hOrdinary, hReturn, hBreak⟩ := hMark
  have hHolds {text rest : Text}
      (hPast : past? [c] text = some rest) :
      Holds [.mark c] [] text rest := by
    rw [past?_eq_some_iff.mp hPast]
    exact holds_cons hOrdinary rest
  have hUnbroken : '\r' ∉ [c] ∧ '\n' ∉ [c] := by
    simp [Ne.symm hReturn, Ne.symm hBreak]
  constructor
  · exact (carries_accepting fun hRests =>
      hRests.past? hUnbroken).alike
        (lexes_accepting fun hPast => ⟨_, _, hHolds hPast⟩)
  · exact (carries_accepting fun hRests =>
      hRests.skipSpace.past? hUnbroken).alike
        (lexes_accepting fun hPast =>
          ⟨_, _, .of_skipSpace (hHolds hPast)⟩)

theorem carries_generic
    (generic : Generic) :
    Carries Alike (accepting (generic? generic)) := by
  refine Carries.alike (carries_accepting fun hRests =>
    hRests.generic? generic) (lexes_accepting ?_)
  intro text rest hLook
  have hFirst : firstGeneric? [generic] text =
      some (generic, rest) := by
    simp [firstGeneric?, hLook]
  exact ⟨_, _, holds_firstGeneric? hFirst⟩

/- All productions read the same from both texts. -/
theorem law_carries :
    Law fun _ {_} act => Carries Alike act where
  pure := carries_pure
  bind := Carries.bind
  fail := carries_fail
  labelled := fun _ h => h.labelled _
  repeated := Carries.repeated
  ended := by
    intro _ _ other _ _ hAct hRests
    cases hAct
    refine ⟨other, ?_, hRests⟩
    rw [ended, hRests.rewrapped.isEmpty_eq]
  skip := (carries_passing fun h => h.skipSpace).alike
    ((follows_passing _).lexes fun h => by
      cases h
      exact ⟨[], [], .of_skipSpace (.refl _)⟩)
  separator :=
    (carries_passing fun h => h.skipSeparator).alike
      (follows_separator.lexes fun h =>
        ⟨_, _, holds_separator h⟩)
  span := carries_span
  mark := fun h => (carries_mark h).1
  ahead := fun h => (carries_mark h).2
  word := fun h =>
    (carries_accepting fun hRests =>
      hRests.keyword? h).alike
        (lexes_accepting fun hLook =>
          ⟨_, _, holds_keyword? h hLook⟩)
  generic := carries_generic
  literal := carries_stringLiteral
  comment := fun _ => carries_nextComment.alike
    (follows_nextComment.lexes fun h =>
      ⟨_, _, holds_nextComment h⟩)
  beside := carries_inlineComment.alike
    (follows_inlineComment.lexes fun h =>
      ⟨_, _, holds_inlineComment h⟩)
  depth := by
    intro _ order h parser other _ _ hAct hRests
    have hMore := hRests.rewrapped.length_le
    rw [← typeWithin_eq_type order hMore] at hAct
    exact h _ parser other hAct hRests

theorem carries_comments :
    Carries Alike comments :=
  law_carries.comments
    (show .comment ∈ Label.document.parts by decide)

-- Documents

theorem Carries.scan
    {act : Act α}
    {scan : Scan α}
    (h : Carries R act)
    (hFollows : Follows act scan)
    {text other rest : Text}
    {value : α}
    (hScan : scan text = .ok (value, rest))
    (hRests : R text other) :
    ∃ left, scan other = .ok (value, left) ∧
      R rest left := by
  have hAct : act (Parser.new text) =
      (.ok value, (Parser.new text).moved rest) := by
    rw [hFollows]
    exact congrArg (Parser.reading _) hScan
  obtain ⟨final, hFinal, hRest⟩ :=
    h _ (Parser.new other) hAct hRests
  exact ⟨final.rest, hFollows.of_ok hFinal, hRest⟩

end Act

/- The induction is on the definitions that were read. -/
theorem documentFrom_of_alike
    {order : Order}
    {earlier : Option Failure}
    {text other rest : Text}
    {document : Document}
    (h : documentFrom order earlier text =
      .ok (document, rest))
    (hTexts : Alike text other)
    (sooner : Option Failure) :
    ∃ left, documentFrom order sooner other =
      .ok (document, left) := by
  obtain ⟨body, trailing⟩ := document
  induction body generalizing earlier text other sooner with
  | nil =>
      obtain ⟨left, hComments, hLeft⟩ :=
        Act.carries_comments.scan Act.follows_comments
          (cases_of_documentFrom h).1 hTexts
      cases hLeft.rewrapped
      exact ⟨[], by rw [documentFrom_eq, hComments]⟩
  | cons found more ih =>
      obtain ⟨before, inner, after, furthest, hComments,
        hTop, hMore⟩ := cases_of_documentFrom h
      obtain ⟨kind, hKind, hFound⟩ :=
        (cases_of_topDefinition hTop).1
      obtain ⟨inside, hComments, hInner⟩ :=
        Act.carries_comments.scan Act.follows_comments
          hComments hTexts
      obtain ⟨left, hFound, hLeft⟩ :=
        (Act.law_carries.definition order before kind).scan
          (Act.follows_definition order before kind)
            hFound hInner
      obtain ⟨latest, hNext, _⟩ :=
        documentFrom_of_definition hKind hComments hFound
          sooner
      obtain ⟨final, hFinal⟩ := ih hLeft latest hMore
      exact ⟨final, by rw [hNext, hFinal]; rfl⟩

/-
  Line ends do not matter. If every line feed of a source
  gets a return in front of it, and none of them is inside a
  literal, the same document is read.
-/
theorem Document.parse_returned
    {source : Text}
    {file : Option Text}
    {document : Document}
    (hLiterals : '\n' ∉ squeeze .code source)
    (h : Document.parse source file = .ok document) :
    Document.parse source.returned file = .ok document := by
  have hRead := Document.parse_eq_ok_iff.mp h
  unfold Document.read at hRead
  split at hRead
  · cases hRead
  · next hFrom =>
      cases hRead
      obtain ⟨left, hOther⟩ := documentFrom_of_alike
        (Scan.labelled_eq_ok_iff.mp hFrom)
        ⟨rewrapped_returned source, hLiterals⟩ none
      apply Document.parse_eq_ok_iff.mpr
      unfold Document.read
      rw [Scan.labelled_eq_ok_iff.mpr hOther]

/- Comments of both kinds, and a literal on one line. -/
theorem parse_returned_scattered :
    let source := scatteredDocument.print scatteredLayout
    Document.parse source none = .ok scatteredDocument ∧
      source.returned.count '\r' = 8 ∧
      Document.parse source.returned none =
        .ok scatteredDocument := by
  intro source
  have hParse :
      Document.parse source none = .ok scatteredDocument :=
    Document.parse_eq_ok_iff.mpr
      (Document.read_print Order.isFull_usual
        wellFormed_scatteredDocument scatteredLayout)
  have hLiterals : '\n' ∉ squeeze .code source := by
    decide
  exact ⟨hParse, by decide,
    Document.parse_returned hLiterals hParse⟩

end Idl

end ThriftTypings
