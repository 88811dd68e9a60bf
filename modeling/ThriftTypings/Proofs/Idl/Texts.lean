import ThriftTypings.Proofs.Idl.Printing

/-
  This file proves that comments, types, annotations and
  lists of members are read from the texts that they are
  written as.

  What is read must not run on into what follows. So each
  lemma says what may follow: after a word a delimiter, and
  after a member a line that starts with none of the symbols
  that could belong to the member.

  Key definitions include:
    * `Fresh`
    * `StartsWord`

  Key theorems include:
    * `annotations?_text`
    * `members_textTo`
-/

namespace ThriftTypings

namespace Idl

variable {text : Text} {type : IdlType} {order : Order}
variable {c : Char}

-- What Follows a Member

/- Symbols that go on with a member. -/
def continuesMember
    (c : Char) : Bool :=
  ['(', ',', ';', '='].contains c

/- Does the text start with nothing of a member before? -/
def Fresh
    (text : Text) : Prop :=
  Stops continuesMember (skipSpace text)

theorem Fresh.ne
    {text rest : Text}
    {c mark : Char}
    (h : Fresh text)
    (hText : skipSpace text = c :: rest)
    (hMark : continuesMember mark = true) :
    c ≠ mark := by
  rintro rfl
  have hNot := h c (by simp [hText])
  rw [hMark] at hNot
  cases hNot

theorem Fresh.cons_space
    (h : Fresh text)
    (hSpace : isSpace c = true) :
    Fresh (c :: text) := by
  rwa [Fresh, skipSpace_cons_space hSpace]

theorem fresh_cons
    (hSpace : isSpace c = false)
    (hOther : continuesMember c = false)
    (rest : Text) :
    Fresh (c :: rest) := by
  rw [Fresh, skipSpace_cons hSpace]
  simp [Stops, hOther]

/- A text that starts with a character of a word. -/
def StartsWord
    (text : Text) : Prop :=
  ∃ c rest, text = c :: rest ∧ isDelimiter c = false

theorem StartsWord.append
    (h : StartsWord text)
    (rest : Text) :
    StartsWord (text ++ rest) := by
  rcases h with ⟨c, more, rfl, hChar⟩
  exact ⟨c, more ++ rest, rfl, hChar⟩

theorem IsWord.startsWord
    {name : Text}
    (h : IsWord name) :
    StartsWord name := by
  rcases h with ⟨hNonempty, hAll⟩
  cases name with
  | nil => exact absurd rfl hNonempty
  | cons c rest => exact ⟨c, rest, rfl, hAll c (by simp)⟩

theorem StartsWord.skipSpace_eq
    (h : StartsWord text) :
    skipSpace text = text := by
  rcases h with ⟨c, rest, rfl, hChar⟩
  exact skipSpace_cons (isSpace_of_not_isDelimiter hChar) rest

theorem StartsWord.skipSpace_blank
    (h : StartsWord text) :
    skipSpace (' ' :: text) = text := by
  rw [skipSpace_cons_space rfl, h.skipSpace_eq]

/- Delimiters are not where a word starts. -/
theorem StartsWord.stops
    (h : StartsWord text)
    {belongs : Char → Bool}
    (hDelimiter : ∀ c, belongs c = true →
      isDelimiter c = true) :
    Stops belongs (skipSpace text) := by
  rw [h.skipSpace_eq]
  rcases h with ⟨c, rest, rfl, hChar⟩
  rintro _ ⟨⟩
  cases hBelongs : belongs c with
  | false => rfl
  | true =>
      rw [hDelimiter c hBelongs] at hChar
      cases hChar

theorem isDelimiter_of_continuesMember
    (h : continuesMember c = true) :
    isDelimiter c = true := by
  have hMem : c ∈ ['(', ',', ';', '='] := by
    simpa [continuesMember] using h
  have hAll :
      ['(', ',', ';', '='].all isDelimiter = true := by
    decide
  exact List.all_eq_true.mp hAll c hMem

theorem StartsWord.fresh
    (h : StartsWord text) :
    Fresh text :=
  h.stops fun _ => isDelimiter_of_continuesMember

theorem StartsWord.stops_slash
    (h : StartsWord text) :
    Stops (· == '/') (skipSpace text) := by
  refine h.stops fun c hSlash => ?_
  rw [beq_iff_eq.mp hSlash]
  decide

-- Comments

theorem startsWith_comment
    (comment : Comment) :
    ∃ rest, comment.text = '/' :: rest := by
  cases comment <;> exact ⟨_, rfl⟩

theorem fresh_commentLines
    (comments : List Comment)
    {rest : Text}
    (h : Fresh rest) :
    Fresh (commentLines comments ++ rest) := by
  cases comments with
  | nil => exact h
  | cons first more =>
      rcases startsWith_comment first with ⟨tail, hFirst⟩
      simp only [commentLines, List.flatMap_cons, hFirst,
        List.cons_append]
      exact fresh_cons (by decide) (by decide) _

/- A mark of two symbols does not stretch over a third. -/
theorem infix_append_cons
    {first second between : Char}
    (hFirst : between ≠ first)
    (hSecond : between ≠ second)
    {left right : Text}
    (h : [first, second] <:+: left ++ between :: right) :
    [first, second] <:+: left ∨
      [first, second] <:+: right := by
  induction left with
  | nil =>
      rcases List.infix_cons_iff.mp h with hHere | hRight
      · simp [List.cons_prefix_cons, hFirst.symm] at hHere
      · exact .inr hRight
  | cons c left ih =>
      rcases List.infix_cons_iff.mp h with hHere | hMore
      · rcases List.cons_prefix_cons.mp hHere with
          ⟨rfl, hNext⟩
        cases left with
        | nil =>
            simp [List.cons_prefix_cons, hSecond.symm]
              at hNext
        | cons d left =>
            rcases List.cons_prefix_cons.mp hNext with
              ⟨rfl, _⟩
            exact .inl (List.prefix_append _ _).isInfix
      · exact (ih hMore).imp List.infix_cons id

theorem not_infix_joined
    {lines : List Text}
    (h : ∀ line ∈ lines, ¬ ['*', '/'] <:+: line) :
    ¬ ['*', '/'] <:+: Text.joined ['\n'] lines := by
  induction lines with
  | nil => simp
  | cons first more ih =>
      rcases List.forall_mem_cons.mp h with ⟨hFirst, hMore⟩
      cases more with
      | nil => simpa using hFirst
      | cons second more =>
          rw [Text.joined_cons_cons, List.append_assoc,
            List.singleton_append]
          intro hInfix
          rcases infix_append_cons (by decide) (by decide)
            hInfix with hHere | hThere
          · exact hFirst hHere
          · exact ih hMore hThere

/- A comment is read from its own text. -/
theorem nextComment_text
    {comment : Comment}
    (h : comment.WellFormed)
    (rest : Text) :
    nextComment (comment.text ++ '\n' :: rest) =
      .ok (.more comment, '\n' :: rest) := by
  cases comment with
  | line text =>
      rcases h with ⟨hStrip, hLine⟩
      have hStops : Stops (· != '\n') ('\n' :: rest) := by
        simp [Stops]
      have hInner : '\n' ∉ ' ' :: text := by
        simpa using hLine
      rw [nextComment_line rfl hInner hStops,
        Text.strip_cons_blank (by decide), hStrip]
  | block lines =>
      rcases h with ⟨hNonempty, hLines⟩
      have hInner : ¬ ['*', '/'] <:+:
          Text.joined ['\n'] lines :=
        not_infix_joined fun line hMem => (hLines line hMem).2
      have hPieces : Text.pieces '\n'
          (Text.joined ['\n'] lines) = lines :=
        Text.pieces_joined hNonempty
          fun line hMem => (hLines line hMem).1.2
      have hStrip : lines.map Text.strip = lines := by
        conv_rhs => rw [← List.map_id lines]
        exact List.map_congr_left
          fun line hMem => (hLines line hMem).1.1
      have hText :
          skipSpace ((Comment.block lines).text ++
              '\n' :: rest) =
            '/' :: '*' :: (Text.joined ['\n'] lines ++
              '*' :: '/' :: '\n' :: rest) := by
        simp [Comment.text, skipSpace_cons
          (show isSpace '/' = false by decide)]
      rw [nextComment_block hText hInner, blockComment,
        hPieces, hStrip]

/- Comments are read from their lines. -/
theorem comments_commentLines
    {found : List Comment}
    (h : ∀ comment ∈ found, comment.WellFormed)
    {rest : Text}
    (hRest : Stops (· == '/') (skipSpace rest)) :
    comments (commentLines found ++ rest) =
      .ok (found, skipSpace rest) := by
  induction found with
  | nil => exact comments_nil hRest
  | cons first more ih =>
      rcases List.forall_mem_cons.mp h with ⟨hFirst, hMore⟩
      have hText : commentLines (first :: more) ++ rest =
          first.text ++
            '\n' :: (commentLines more ++ rest) := by
        simp [commentLines]
      rw [hText]
      refine comments_cons (nextComment_text hFirst _) ?_
      rw [comments_congr (skipSpace_cons_space rfl _)]
      exact ih hMore

-- Types

/- The word that a type starts with. -/
def IdlType.firstWord : IdlType → Text
  | .primitive name => name.word
  | .list _ => Generic.list.word
  | .map _ _ => Generic.map.word
  | .named name => name

theorem IdlType.WellFormed.isWord_firstWord
    (h : type.WellFormed) :
    IsWord type.firstWord := by
  cases type with
  | primitive name => exact name.isWord_word
  | list element => exact Generic.list.isWord_word
  | map key value => exact Generic.map.isWord_word
  | named name => exact h.1

/- After its first word a type is over, or a bracket opens. -/
theorem IdlType.text_eq
    (type : IdlType)
    {rest : Text}
    (h : endsWord rest = true) :
    ∃ more, type.text ++ rest = type.firstWord ++ more ∧
      endsWord more = true := by
  cases type with
  | primitive name => exact ⟨rest, rfl, h⟩
  | list element =>
      exact ⟨'<' :: (element.text ++ ['>']) ++ rest,
        by simp [text, firstWord], rfl⟩
  | map key value =>
      exact ⟨'<' :: (key.text ++
          ',' :: ' ' :: (value.text ++ ['>'])) ++ rest,
        by simp [text, firstWord], rfl⟩
  | named name => exact ⟨rest, rfl, h⟩

theorem IdlType.WellFormed.startsWord
    (h : type.WellFormed) :
    StartsWord type.text := by
  rcases @IdlType.text_eq type [] rfl with ⟨more, hText, _⟩
  rw [← List.append_nil type.text, hText]
  exact h.isWord_firstWord.startsWord.append more

/- The types inside of brackets do not run on. -/
theorem stops_of_bracket
    (hSpace : isSpace c = false)
    (hOther : c ≠ '<')
    (rest : Text) :
    Stops (· == '<') (skipSpace (c :: rest)) := by
  simp [skipSpace_cons hSpace, Stops, hOther]

/- A composed type is read after its word and bracket. -/
theorem idlType_opened
    (hOrder : order.IsFull)
    {generic : Generic}
    {text after inner rest : Text}
    (hText : skipSpace text = generic.word ++ after)
    (hOpen : skipSpace after = '<' :: inner)
    (h : composed (idlType order) generic inner =
      .ok (type, rest)) :
    idlType order text = .ok (type, rest) := by
  refine idlType_eq_ok_iff.mpr
    (.inr ⟨?_, .inl ⟨generic, inner, ?_, h⟩⟩)
  · refine firstKeyword?_eq_none
      (fun word => word.isWord_word.2)
      generic.isWord_word.2 hText
      (endsWord_of_skipSpace hOpen (by decide)) fun word => ?_
    cases word <;> cases generic <;> decide
  · exact firstGeneric?_eq_some (hOrder.generics generic)
      hText hOpen

theorem idlType_composed
    (hOrder : order.IsFull)
    {generic : Generic}
    {text inner rest : Text}
    (hText : skipSpace text = generic.word ++ '<' :: inner)
    (h : composed (idlType order) generic inner =
      .ok (type, rest)) :
    idlType order text = .ok (type, rest) :=
  idlType_opened hOrder hText (skipSpace_cons (by decide) _) h

/- A type is read from its own text. -/
theorem idlType_text
    (hOrder : order.IsFull)
    (h : type.WellFormed)
    {text rest : Text}
    (hText : skipSpace text = type.text ++ rest)
    (hEnds : endsWord rest = true)
    (hRest : Stops (· == '<') (skipSpace rest)) :
    idlType order text = .ok (type, rest) := by
  induction type generalizing text rest with
  | primitive name =>
      refine idlType_eq_ok_iff.mpr (.inl ⟨name, ?_, rfl⟩)
      exact firstKeyword?_eq_some
        (fun word => word.isWord_word.2)
        Primitive.word_injective (hOrder.primitives name)
        hText hEnds
  | named name =>
      refine idlType_eq_ok_iff.mpr (.inr ⟨?_, .inr ⟨?_, ?_⟩⟩)
      · exact firstKeyword?_eq_none
          (fun word => word.isWord_word.2) h.1.2 hText hEnds
          h.2
      · exact firstGeneric?_eq_none h.1.2 hText hEnds hRest
      · exact ⟨name, identifier_eq_ok_iff.mpr
          ⟨h.1, hEnds, hText⟩, rfl⟩
  | list element ih =>
      have hElement : element.WellFormed := h
      have hInner := hElement.startsWord.append ('>' :: rest)
      have hWord : skipSpace text = Generic.list.word ++
          '<' :: (element.text ++ '>' :: rest) := by
        simpa [IdlType.text] using hText
      refine idlType_composed hOrder hWord
        (composed_eq_ok_iff.mpr ⟨element, '>' :: rest, ?_,
          skipSpace_cons (by decide) _, rfl⟩)
      exact ih hElement hInner.skipSpace_eq rfl
        (stops_of_bracket (by decide) (by decide) _)
  | map key value ihKey ihValue =>
      rcases h with ⟨hKey, hValue⟩
      have hInner := hKey.startsWord.append
        (',' :: ' ' :: (value.text ++ '>' :: rest))
      have hAfter := hValue.startsWord.append ('>' :: rest)
      have hWord : skipSpace text = Generic.map.word ++
          '<' :: (key.text ++
            ',' :: ' ' :: (value.text ++ '>' :: rest)) := by
        simpa [IdlType.text] using hText
      refine idlType_composed hOrder hWord
        (composed_eq_ok_iff.mpr ⟨key,
          ',' :: ' ' :: (value.text ++ '>' :: rest),
          ' ' :: (value.text ++ '>' :: rest), value,
          '>' :: rest, ?_, skipSpace_cons (by decide) _, ?_,
          skipSpace_cons (by decide) _, rfl⟩)
      · exact ihKey hKey hInner.skipSpace_eq rfl
          (stops_of_bracket (by decide) (by decide) _)
      · refine ihValue hValue ?_ rfl
          (stops_of_bracket (by decide) (by decide) _)
        rw [skipSpace_cons_space rfl, hAfter.skipSpace_eq]

-- Annotations

/- A literal is read from its quotes. -/
theorem stringLiteral_text
    {value text rest : Text}
    (h : '"' ∉ value)
    (hText : skipSpace text = inQuotes value ++ rest) :
    stringLiteral text = .ok (value, rest) :=
  stringLiteral_eq_ok_iff.mpr
    ⟨h, by simpa [inQuotes] using hText⟩

theorem Annot.WellFormed.startsWord
    {found : Annot}
    (h : found.WellFormed) :
    StartsWord found.text :=
  h.name.startsWord.append _

theorem annot_text
    {found : Annot}
    (h : found.WellFormed)
    {text rest : Text}
    (hText : skipSpace text = found.text ++ rest) :
    annot text = .ok (found, rest) := by
  have hName : identifier text =
      .ok (found.name,
        '=' :: (inQuotes found.value ++ rest)) :=
    identifier_eq_ok_iff.mpr
      ⟨h.name, rfl, by simpa [Annot.text] using hText⟩
  have hEquals : symbol '='
        ('=' :: (inQuotes found.value ++ rest)) =
      .ok ((), inQuotes found.value ++ rest) :=
    symbol_cons (by decide) _
  have hValue : stringLiteral
        (inQuotes found.value ++ rest) =
      .ok (found.value, rest) :=
    stringLiteral_text h.value (skipSpace_cons (by decide) _)
  exact Scan.bind_ok hName
    (Scan.bind_ok hEquals (Scan.bind_ok hValue rfl))

/- Further annotations are read up to the parenthesis. -/
theorem repeated_nextAnnot
    {more : List Annot}
    (h : ∀ found ∈ more, found.WellFormed)
    (rest : Text) :
    Scan.repeated nextAnnot progresses_nextAnnot
        (more.flatMap (fun found => ',' :: ' ' :: found.text) ++
          ')' :: rest) =
      .ok ((more, ()), ')' :: rest) := by
  induction more with
  | nil => exact Scan.repeated_last _ rfl
  | cons first more ih =>
      rcases List.forall_mem_cons.mp h with ⟨hFirst, hMore⟩
      refine Scan.repeated_more _ ?_ (ih hMore)
      simp only [List.flatMap_cons, List.cons_append,
        List.append_assoc, nextAnnot,
        skipSpace_cons (show isSpace ',' = false by decide)]
      refine Scan.bind_ok (annot_text hFirst ?_) rfl
      rw [skipSpace_cons_space rfl]
      exact (hFirst.startsWord.append _).skipSpace_eq

/- Annotations are read from their own text. -/
theorem annotations?_text
    {annotations : Option (List Annot)}
    (h : AnnotationsWellFormed annotations)
    {rest : Text}
    (hRest : Stops (· == '(') (skipSpace rest)) :
    annotations? (annotationsText annotations ++ rest) =
      .ok (annotations, rest) := by
  cases annotations with
  | none =>
      simp only [annotationsText, List.nil_append,
        annotations?]
      split
      · next hOpen => simp [Stops, hOpen] at hRest
      · rfl
  | some found =>
      rcases h found rfl with ⟨hNonempty, hAll⟩
      cases found with
      | nil => exact absurd rfl hNonempty
      | cons first more =>
          rcases List.forall_mem_cons.mp hAll with
            ⟨hFirst, hMore⟩
          have hText : annotationsText
                (some (first :: more)) ++ rest =
              ' ' :: '(' :: (first.text ++
                (more.flatMap (fun found =>
                  ',' :: ' ' :: found.text) ++
                    ')' :: rest)) := by
            simp [annotationsText, Text.joined_cons,
              List.flatMap_map]
          rw [hText, annotations?,
            skipSpace_cons_space rfl,
            skipSpace_cons (by decide)]
          have hFound (rest : Text) :
              annot (first.text ++ rest) = .ok (first, rest) :=
            annot_text hFirst
              (hFirst.startsWord.append rest).skipSpace_eq
          exact Scan.bind_ok (Scan.labelled_eq_ok_iff.mpr
            (Scan.bind_ok (hFound _)
              (Scan.bind_ok (repeated_nextAnnot hMore rest)
                (Scan.bind_ok (symbol_cons (by decide) _)
                  rfl)))) rfl

-- The Rest of the Line of a Member

theorem skipSeparator_of_fresh
    (h : Fresh text) :
    skipSeparator text = text := by
  unfold skipSeparator
  split
  · next hText => exact absurd rfl (h.ne hText (by decide))
  · next hText => exact absurd rfl (h.ne hText (by decide))
  · rfl

namespace Margin

variable (margin : Margin) {rest : Text}

theorem fresh_besideText
    (h : Fresh rest) :
    Fresh (margin.besideText ++ '\n' :: rest) := by
  unfold besideText
  split
  · exact h.cons_space rfl
  · exact (fresh_cons (by decide) (by decide) _).cons_space
      (show isSpace ' ' = true by decide)

theorem separator_ending
    (h : Fresh rest) :
    Idl.separator (margin.ending ++ '\n' :: rest) =
      .ok ((), margin.besideText ++ '\n' :: rest) := by
  have hFresh := margin.fresh_besideText h
  unfold Idl.separator Scan.passing ending
  rw [List.append_assoc]
  cases margin.separator with
  | none =>
      simp only [Option.map_none, Option.toList_none,
        List.nil_append, skipSeparator_of_fresh hFresh]
  | some mark => cases mark <;> rfl

theorem inlineComment_besideText
    (h : ∀ comment ∈ margin.after, comment.WellFormed) :
    inlineComment (margin.besideText ++ '\n' :: rest) =
      .ok (margin.after, '\n' :: rest) := by
  unfold besideText after at *
  cases hBeside : margin.beside with
  | none => rfl
  | some text =>
      obtain ⟨hStrip, hLine⟩ : IsRemark text :=
        h (.line text) (by simp [hBeside])
      have hRead := lineComment_eq
        (show '\n' ∉ ' ' :: text by simpa using hLine)
        (show Stops (· != '\n') ('\n' :: rest) by
          simp [Stops])
      rw [Text.strip_cons_blank (by decide), hStrip] at hRead
      have hText :
          (' ' :: (Comment.line text).text ++
              '\n' :: rest).dropWhile isLineSpace =
            '/' :: '/' :: (' ' :: text ++ '\n' :: rest) := rfl
      simp only [inlineComment, hText, hRead]
      rfl

/- After a member its line goes on with a delimiter. -/
theorem endsWord_ending :
    endsWord (margin.ending ++ '\n' :: rest) = true := by
  unfold ending besideText
  rcases margin.separator with _ | _ | _ <;>
    cases margin.beside <;> rfl

theorem stops_ending
    (h : Fresh rest)
    {mark : Char}
    (hMark : mark = '(' ∨ mark = '=') :
    Stops (· == mark)
      (skipSpace (margin.ending ++ '\n' :: rest)) := by
  have hContinues : continuesMember mark = true := by
    rcases hMark with rfl | rfl <;> decide
  have hOther : mark ≠ ',' ∧ mark ≠ ';' := by
    rcases hMark with rfl | rfl <;> decide
  unfold ending
  rw [List.append_assoc]
  rcases margin.separator with _ | _ | _
  · intro c hHead
    rcases List.head?_eq_some_iff.mp hHead with
      ⟨more, hText⟩
    simpa using
      (margin.fresh_besideText h).ne hText hContinues
  · rintro _ ⟨⟩
    simpa [Separator.mark] using hOther.1.symm
  · rintro _ ⟨⟩
    simpa [Separator.mark] using hOther.2.symm

end Margin

-- Lists of Members

/-
  The member of a line is read from its content, and what
  the line goes on with is not taken for a part of it.
-/
structure Line.IsReadBy
    {α : Type}
    (member : List Comment → Scan α)
    (line : Line α) : Prop where
  leading : ∀ comment ∈ line.margin.leading,
    comment.WellFormed
  startsWord : StartsWord line.content
  read : ∀ rest, Fresh rest →
    member line.margin.leading
        (line.content ++
          (line.margin.ending ++ '\n' :: rest)) =
      .ok (line.value, '\n' :: rest)

section Members

variable {α : Type} {member : List Comment → Scan α}
  {closing : Char} (hClosing : closing = ')' ∨ closing = '\x7d')

include hClosing

theorem fresh_textTo
    {lines : List (Line α)}
    (hLines : ∀ line ∈ lines, line.IsReadBy member)
    (trailing : List Comment)
    (rest : Text) :
    Fresh (lines.flatMap Line.text ++
      (commentLines trailing ++ closing :: rest)) := by
  cases lines with
  | nil =>
      refine fresh_commentLines trailing ?_
      rcases hClosing with rfl | rfl <;>
        exact fresh_cons (by decide) (by decide) rest
  | cons first more =>
      have hFirst := hLines first (by simp)
      simp only [List.flatMap_cons, Line.text,
        List.append_assoc]
      exact fresh_commentLines _
        (hFirst.startsWord.append _).fresh

/- The comments in front of the closing symbol are read. -/
theorem nextMember_last
    {trailing : List Comment}
    (hTrailing : ∀ comment ∈ trailing, comment.WellFormed)
    (rest : Text) :
    nextMember member closing
        (commentLines trailing ++ closing :: rest) =
      .ok (.last trailing, rest) := by
  have hSkip : skipSpace (closing :: rest) =
      closing :: rest := by
    rcases hClosing with rfl | rfl <;> rfl
  have hStops : Stops (· == '/')
      (skipSpace (closing :: rest)) := by
    rw [hSkip]
    rcases hClosing with rfl | rfl <;> rintro _ ⟨⟩ <;> rfl
  have hRead := comments_commentLines hTrailing hStops
  rw [hSkip] at hRead
  exact nextMember_eq_last_iff.mpr hRead

/- A member is read from its line. -/
theorem nextMember_text
    {line : Line α}
    (h : line.IsReadBy member)
    {rest : Text}
    (hRest : Fresh rest) :
    nextMember member closing (line.text ++ rest) =
      .ok (.more line.value, '\n' :: rest) := by
  have hStart := h.startsWord.append
    (line.margin.ending ++ '\n' :: rest)
  have hRead :=
    comments_commentLines h.leading hStart.stops_slash
  rw [hStart.skipSpace_eq] at hRead
  have hText : line.text ++ rest =
      commentLines line.margin.leading ++
        (line.content ++
          (line.margin.ending ++ '\n' :: rest)) := by
    simp [Line.text]
  have hMember := h.read rest hRest
  rcases hStart with ⟨c, more, hContent, hChar⟩
  rw [hContent] at hRead hMember
  rw [hText, hContent]
  refine nextMember_eq_more_iff.mpr
    ⟨line.margin.leading, c, more, hRead, ?_, hMember⟩
  rintro rfl
  rcases hClosing with rfl | rfl <;>
    exact absurd hChar (by decide)

/- Members are read from their lines. -/
theorem members_textTo
    (consumes : ∀ before, Scan.Consumes (member before))
    {lines : List (Line α)}
    (hLines : ∀ line ∈ lines, line.IsReadBy member)
    {trailing : List Comment}
    (hTrailing : ∀ comment ∈ trailing, comment.WellFormed)
    (rest : Text) :
    members member consumes closing
        (Line.textTo closing lines trailing ++ rest) =
      .ok ((lines.map Line.value, trailing), rest) := by
  have hNewline (text : Text) :
      nextMember member closing ('\n' :: text) =
        nextMember member closing text :=
    Scan.bind_congr _
      (comments_congr (skipSpace_cons_space rfl text))
  have hText : Line.textTo closing lines trailing ++ rest =
      '\n' :: (lines.flatMap Line.text ++
        (commentLines trailing ++ closing :: rest)) := by
    simp [Line.textTo]
  rw [hText, members, Scan.repeated_congr _ (hNewline _)]
  clear hText
  induction lines with
  | nil =>
      exact Scan.repeated_last _
        (nextMember_last hClosing hTrailing rest)
  | cons first more ih =>
      rcases List.forall_mem_cons.mp hLines with
        ⟨hFirst, hMore⟩
      have hFresh :=
        fresh_textTo hClosing hMore trailing rest
      have hNext := nextMember_text hClosing hFirst hFresh
      rw [← List.append_assoc] at hNext
      refine Scan.repeated_more _ hNext ?_
      rw [Scan.repeated_congr _ (hNewline _)]
      exact ih hMore

end Members

end Idl

end ThriftTypings
