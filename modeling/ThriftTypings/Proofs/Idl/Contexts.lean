import Mathlib.Data.List.Chain
import ThriftTypings.Proofs.Idl.Laws
import ThriftTypings.Proofs.Idl.Reuse
import ThriftTypings.Proofs.Idl.Viability

/-
  This file proves that errors are reported with chains of
  productions as the language has them, and with a place
  that line, column and remaining text agree on.

  A parser keeps the chain of productions that are open, and
  a failure takes it over. So the proof says of each act
  that it leaves the chain as it was, and that what it
  records was a chain at some time.

  Key definitions include:
    * `IsContext`
    * `Parser.IsSound` and `Act.Sound`

  Key theorems include:
    * `Act.sound_document`
    * `Parser.errors_name_productions`
-/

namespace ThriftTypings

namespace Idl

variable {error : ParseError} {parser : Parser}

-- Contexts

/- A chain from a first production on, part by part. -/
structure IsContext
    (root : Label)
    (labels : List Label) : Prop where
  starts : labels.head? = some root
  nested : labels.IsChain fun outer inner =>
    inner ∈ outer.parts

theorem IsContext.append
    {root outer inner : Label}
    {labels : List Label}
    (h : IsContext root labels)
    (hLast : labels.getLast? = some outer)
    (hPart : inner ∈ outer.parts) :
    IsContext root (labels ++ [inner]) := by
  constructor
  · simp [h.starts]
  · refine h.nested.append (.singleton inner) ?_
    intro last hMem first hFirst
    cases hLast.symm.trans hMem
    cases hFirst
    exact hPart

/- A failure in a chain of productions, in the source. -/
structure Failure.IsPlaced
    (root : Label)
    (source : Text)
    (failure : Failure) : Prop where
  context : IsContext root failure.context
  rest : failure.rest <:+ source

/- A parser inside a production, and what it recorded. -/
structure Parser.IsSound
    (root label : Label)
    (parser : Parser) : Prop where
  placed : parser.rest <:+ parser.source
  context : IsContext root parser.labels
  innermost : parser.labels.getLast? = some label
  furthest : ∀ failure ∈ parser.furthest,
    failure.IsPlaced root parser.source

theorem Parser.IsSound.moved
    {root label : Label}
    (h : parser.IsSound root label)
    {rest : Text}
    (hRest : rest <:+ parser.source) :
    (parser.moved rest).IsSound root label :=
  ⟨hRest, h.context, h.innermost, h.furthest⟩

theorem past?_suffix
    {word text rest : Text}
    (h : past? word text = some rest) :
    rest <:+ text := by
  rw [past?_eq_some_iff.mp h]
  exact List.suffix_append _ _

-- Sound Acts

namespace Act

variable {α β κ : Type}
variable {label : Label}

/- What an act has done to a parser inside a production. -/
structure Leaves
    (root label : Label)
    (parser : Parser)
    (reply : Except Failure α × Parser) : Prop where
  sound : reply.2.IsSound root label
  source : reply.2.source = parser.source
  labels : reply.2.labels = parser.labels
  failure : ∀ failure, reply.1 = .error failure →
    failure.IsPlaced root parser.source

/- It does not matter which value there is. -/
theorem Leaves.outcome
    {root : Label}
    {parser after : Parser}
    {first : Except Failure α}
    {second : Except Failure β}
    (h : Leaves root label parser (first, after))
    (hSame : ∀ failure, second = .error failure →
      first = .error failure) :
    Leaves root label parser (second, after) :=
  ⟨h.sound, h.source, h.labels,
    fun failure hFailure =>
      h.failure failure (hSame _ hFailure)⟩

theorem Leaves.trans
    {root : Label}
    {parser after : Parser}
    {first : Except Failure α}
    {reply : Except Failure β × Parser}
    (h : Leaves root label parser (first, after))
    (hNext : Leaves root label after reply) :
    Leaves root label parser reply :=
  ⟨hNext.sound, hNext.source.trans h.source,
    hNext.labels.trans h.labels,
    fun failure hFailure =>
      h.source ▸ hNext.failure failure hFailure⟩

/- The act keeps parsers sound, and fails in a context. -/
def Sound
    (label : Label)
    {α : Type}
    (act : Act α) : Prop :=
  ∀ root parser, parser.IsSound root label →
    Leaves root label parser (act parser)

/- An act that can only move the cursor onwards. -/
theorem sound_of_moves
    {act : Act α}
    (h : ∀ parser, ∃ value rest, rest <:+ parser.rest ∧
      act parser = (.ok value, parser.moved rest)) :
    Sound label act := by
  intro root parser hParser
  rcases h parser with ⟨value, rest, hRest, hAct⟩
  rw [hAct]
  exact ⟨hParser.moved (hRest.trans hParser.placed), rfl,
    rfl, nofun⟩

theorem sound_pure
    (value : α) :
    Sound label (pure value) :=
  sound_of_moves fun parser =>
    ⟨value, parser.rest, List.suffix_rfl, rfl⟩

theorem sound_accepting
    {look : Text → Option Text}
    (h : ∀ text rest, look text = some rest →
      rest <:+ text) :
    Sound label (accepting look) := by
  refine sound_of_moves fun parser => ?_
  unfold accepting
  split
  · next hLook => exact ⟨_, _, h _ _ hLook, rfl⟩
  · exact ⟨_, parser.rest, List.suffix_rfl, rfl⟩

theorem sound_taking
    {take : Text → α × Text}
    (h : ∀ text, (take text).2 <:+ text) :
    Sound label (taking take) :=
  sound_of_moves fun parser =>
    ⟨_, _, h parser.rest, rfl⟩

theorem sound_passing
    {skip : Text → Text}
    (h : ∀ text, skip text <:+ text) :
    Sound label (passing skip) :=
  sound_of_moves fun parser =>
    ⟨_, _, h parser.rest, rfl⟩

theorem sound_fail
    (cause : Cause) :
    Sound label (fail cause : Act α) := by
  intro root parser hParser
  have hPlaced : Failure.IsPlaced root parser.source
      ⟨cause, parser.labels, parser.rest⟩ :=
    ⟨hParser.context, hParser.placed⟩
  refine ⟨⟨hParser.placed, hParser.context,
    hParser.innermost, ?_⟩, rfl, rfl, ?_⟩
  · rintro _ ⟨⟩
    unfold Failure.further
    split
    · exact hPlaced
    · next earlier hEarlier =>
        split
        · exact hPlaced
        · exact hParser.furthest _ hEarlier
  · rintro _ ⟨⟩
    exact hPlaced

theorem sound_expecting
    {take? : Text → Option (α × Text)}
    (h : ∀ text value rest,
      take? text = some (value, rest) → rest <:+ text)
    (cause : Cause) :
    Sound label (expecting take? cause) := by
  intro root parser hParser
  unfold expecting
  split
  · next value rest hTake =>
      have hRest := (h _ _ _ hTake).trans hParser.placed
      exact ⟨hParser.moved hRest, rfl, rfl, nofun⟩
  · exact sound_fail cause root parser hParser

theorem Sound.bind
    {act : Act α}
    {next : α → Act β}
    (h : Sound label act)
    (hNext : ∀ value, Sound label (next value)) :
    Sound label (act >>= next) := by
  intro root parser hParser
  have hAct := h root parser hParser
  rw [bind_apply]
  rcases hReply : act parser with ⟨failure | value, after⟩
  · rw [hReply] at hAct
    exact hAct.outcome fun _ hFailure => by
      cases hFailure
      rfl
  · rw [hReply] at hAct
    exact hAct.trans (hNext value root after hAct.sound)

theorem Sound.labelled
    {outer inner : Label}
    {act : Act α}
    (hPart : inner ∈ outer.parts)
    (h : Sound inner act) :
    Sound outer (Act.labelled inner act) := by
  intro root parser hParser
  have hAct := h root
    { parser with labels := parser.labels ++ [inner] }
    ⟨hParser.placed,
      hParser.context.append hParser.innermost hPart,
      by simp, hParser.furthest⟩
  have hLabels : (Act.labelled inner act parser).2.labels =
      parser.labels := by
    simp [Act.labelled, hAct.labels]
  refine ⟨⟨hAct.sound.placed, ?_, ?_, hAct.sound.furthest⟩,
    hAct.source, hLabels, hAct.failure⟩
  · rw [hLabels]
    exact hParser.context
  · rw [hLabels]
    exact hParser.innermost

theorem Sound.repeated
    {step : Act (Round α β)}
    (progress : Progresses step)
    (h : Sound label step) :
    Sound label (repeated step progress) := by
  intro root parser hParser
  induction hn : parser.rest.length using Nat.strongRecOn
    generalizing parser with
  | ind n ih =>
      have hStep := h root parser hParser
      rw [repeated_eq]
      rcases hRound : step parser with
        ⟨failure | value | value, after⟩
      · rw [hRound] at hStep
        exact hStep.outcome fun _ hFailure => by
          cases hFailure
          rfl
      · rw [hRound] at hStep
        have hMore := ih _ (hn ▸ progress _ _ _ hRound)
          after hStep.sound rfl
        dsimp only
        rcases hRest : Act.repeated step progress after with
          ⟨failure | ⟨values, final⟩, left⟩
        · rw [hRest] at hMore
          exact hStep.trans
            (hMore.outcome fun _ hFailure => by
              cases hFailure
              rfl)
        · rw [hRest] at hMore
          exact hStep.trans (hMore.outcome nofun)
      · rw [hRound] at hStep
        exact hStep.outcome nofun

theorem Sound.attempt
    {act : Act α}
    (h : Sound label act) :
    Sound label (attempt act) := by
  intro root parser hParser
  have hAct := h root parser hParser
  unfold Act.attempt
  rcases hReply : act parser with ⟨failure | value, after⟩
  · rw [hReply] at hAct
    have hBack : parser.rest <:+ after.source :=
      hAct.source ▸ hParser.placed
    exact ⟨hAct.sound.moved hBack, hAct.source, hAct.labels,
      nofun⟩
  · rw [hReply] at hAct
    exact hAct.outcome nofun

theorem Sound.tryEach
    {production : κ → Act α}
    (h : ∀ choice, Sound label (production choice))
    (cause : Cause)
    (choices : List κ) :
    Sound label (tryEach production cause choices) := by
  induction choices with
  | nil => exact sound_fail cause
  | cons choice more ih =>
      refine (h choice).attempt.bind fun found => ?_
      cases found with
      | none => exact ih
      | some value => exact sound_pure value

-- Productions

theorem sound_past?
    (word : Text) :
    Sound label (accepting (past? word)) :=
  sound_accepting fun _ _ => past?_suffix

theorem sound_stringLiteral :
    Sound label stringLiteral := by
  have hQuoted (text value rest : Text)
      (h : quoted? text = some (value, rest)) :
      rest <:+ text := by
    have hSuffix :=
      List.dropWhile_suffix (l := text) (· != '"')
    unfold quoted? at h
    split at h
    · cases h
    · next hText =>
        cases h
        exact (List.suffix_cons _ _).trans (hText ▸ hSuffix)
  exact ((sound_passing skipSpace_suffix).bind fun _ =>
    (sound_past? _).bind
      (either (sound_pure _) (sound_fail _))).bind fun _ =>
        sound_expecting hQuoted _

theorem sound_lineComment
    {make : Comment → α} :
    Sound label (do
      let comment ← taking lineComment
      pure (make comment)) :=
  (sound_taking fun _ => List.dropWhile_suffix _).bind
    fun _ => sound_pure _

theorem sound_nextComment
    (h : .comment ∈ label.parts) :
    Sound label nextComment := by
  have hBlock (text : Text) (found : Comment) (rest : Text)
      (h : blockComment? text = some (found, rest)) :
      rest <:+ text := by
    obtain ⟨_, hEnd, hPair⟩ := Option.map_eq_some_iff.mp h
    cases hPair
    exact blockEnd_suffix hEnd
  exact (sound_passing skipSpace_suffix).bind fun _ =>
    (sound_past? _).bind (either sound_lineComment
      ((sound_past? _).bind (either
        (((sound_expecting hBlock _).labelled h).bind
          fun _ => sound_pure _)
        (sound_pure _))))

/- All productions keep parsers sound. -/
theorem law_sound :
    Law fun label {_} act => Sound label act where
  pure := sound_pure
  bind := Sound.bind
  fail := sound_fail
  labelled := Sound.labelled
  repeated := Sound.repeated
  ended := fun _ _ hParser => ⟨hParser, rfl, rfl, nofun⟩
  skip := sound_passing skipSpace_suffix
  separator := sound_passing skipSeparator_suffix
  span := fun _ =>
    sound_taking fun _ => List.dropWhile_suffix _
  mark := fun _ => sound_past? _
  ahead := fun _ => sound_accepting fun _ _ h =>
    (past?_suffix h).trans (skipSpace_suffix _)
  word := fun _ =>
    sound_accepting fun _ _ h => (keyword?_suffix h).1
  generic := fun _ =>
    sound_accepting fun _ _ h => (generic?_suffix h).1
  literal := sound_stringLiteral
  comment := sound_nextComment
  beside := (sound_accepting fun _ _ h =>
    (past?_suffix h).trans (List.dropWhile_suffix _)).bind
      (either sound_lineComment (sound_pure _))
  depth := fun h root parser =>
    h parser.rest.length root parser

theorem sound_document
    (order : Order) :
    Sound .document (document order) := by
  have hTop (before : List Comment) :
      Sound .document (topDefinition order before) :=
    Sound.tryEach (law_sound.definition order before) _ _
  have hNext : Sound .document (nextDefinition order) :=
    (law_sound.comments (by decide)).bind fun before =>
      law_sound.ended.bind (either (sound_pure _)
        ((hTop before).bind fun _ => sound_pure _))
  exact (hNext.repeated _).bind fun _ => sound_pure _

end Act

-- Reports

/- A text is lines that have ended, and the start of one. -/
theorem exists_lines
    (text : Text) :
    ∃ lines start,
      text = lines ++ start ∧
        (lines = [] ∨ lines.getLast? = some '\n') ∧
        '\n' ∉ start ∧
        Text.afterLast '\n' text = start := by
  by_cases hBreak : '\n' ∈ text
  · -- the start of the line is what follows the last break
    obtain ⟨after, above, hReverse, hNew⟩ :=
      List.eq_append_cons_of_mem
        (List.mem_reverse.mpr hBreak)
    have hStart : '\n' ∉ after.reverse := by
      simpa using hNew
    have hText : text =
        above.reverse ++ '\n' :: after.reverse := by
      rw [← text.reverse_reverse, hReverse]
      simp
    refine ⟨above.reverse ++ ['\n'], after.reverse, ?_, ?_,
      hStart, ?_⟩
    · simp [hText]
    · simp
    · rw [hText]
      exact Text.afterLast_append_cons hStart _
  · exact ⟨[], text, rfl, .inl rfl, hBreak,
      Text.afterLast_of_not_mem hBreak⟩

/-
  The place of a report, as the text in front of it: lines
  that have ended, and the start of the line it is on.
-/
structure ParseError.IsAfter
    (source lines start : Text)
    (error : ParseError) : Prop where
  source : source = lines ++ start ++ error.remaining
  ended : lines = [] ∨ lines.getLast? = some '\n'
  begun : '\n' ∉ start
  line : error.line = (lines ++ start).count '\n' + 1
  column : error.column = start.length + 1

theorem Failure.report_isAfter
    {source : Text}
    {failure : Failure}
    (h : failure.rest <:+ source)
    (file : Option Text) :
    ∃ lines start, ParseError.IsAfter source lines start
      (failure.report source file) := by
  obtain ⟨front, rfl⟩ := h
  have hFront : failure.consumed (front ++ failure.rest) =
      front := by
    simp [Failure.consumed]
  obtain ⟨lines, start, hLines, hEnded, hBegun, hStart⟩ :=
    exists_lines front
  refine ⟨lines, start, ?_, hEnded, hBegun, ?_, ?_⟩
  · rw [← hLines]
    rfl
  · rw [← hLines]
    simp [Failure.report, hFront]
  · simp [Failure.report, hFront, hStart]

namespace Parser

/- A call reports a failure of the production it calls. -/
theorem call_reports
    {α : Type}
    {label : Label}
    {production : Act α}
    (h : Act.Sound label production)
    (hLabels : parser.labels = [])
    (hError : (parser.call label production).1 =
      .error error) :
    ∃ failure : Failure,
      failure.IsPlaced label parser.source ∧
        ∃ file,
          error = failure.report parser.source file := by
  have hStart : IsSound label label
      { parser with
        rest := parser.source
        labels := [label]
        furthest := none } :=
    ⟨List.suffix_rfl, ⟨rfl, .singleton label⟩, rfl, nofun⟩
  have hReply := h label _ hStart
  unfold call started Act.labelled at hError
  simp only [hLabels, List.nil_append] at hError
  generalize production _ = reply at hReply hError
  obtain ⟨failure | value, after⟩ := reply
  · cases hError
    refine ⟨after.furthest.getD failure, ?_, after.file, ?_⟩
    · cases hFurthest : after.furthest with
      | none => exact hReply.failure failure rfl
      | some recorded =>
          exact hReply.source ▸
            hReply.sound.furthest recorded hFurthest
    · rw [← hReply.source]
  · cases hError

theorem error_of_map
    {α β : Type}
    {make : α → β}
    {outcome : Except ParseError α}
    (h : outcome.map make = .error error) :
    outcome = .error error := by
  cases outcome with
  | error raised => exact congrArg _ (Except.error.inj h)
  | ok value => cases h

/- The production that a call reads the source as. -/
def Call.label : Call → Label
  | .document => .document
  | .type => .type

theorem perform_reports
    (h : parser.labels = [])
    {call : Call}
    (hError : (parser.perform call).1 = .error error) :
    ∃ failure : Failure,
      failure.IsPlaced call.label parser.source ∧
        ∃ file,
          error = failure.report parser.source file := by
  cases call with
  | document =>
      refine call_reports
        (Act.sound_document Order.usual) h ?_
      exact error_of_map hError
  | type =>
      refine call_reports
        (Act.law_sound.completeType Order.usual) h ?_
      exact error_of_map hError

end Parser

/- Types have only types inside them. -/
theorem IsContext.eq_type
    {labels : List Label}
    (h : IsContext .type labels) :
    ∀ label ∈ labels, label = .type := by
  obtain ⟨hStarts, hNested⟩ := h
  induction labels with
  | nil => nofun
  | cons outer inner ih =>
      cases hStarts
      refine List.forall_mem_cons.mpr ⟨rfl, ?_⟩
      cases inner with
      | nil => nofun
      | cons label more =>
          obtain ⟨hPart, hMore⟩ :=
            List.isChain_cons_cons.mp hNested
          refine ih ?_ hMore
          simpa [Label.parts] using hPart

/-
  Errors name the productions they happened in, and where.
  The names form a chain, in which each production is a part
  of the one before, from the document or the type that was
  asked for. In a type there are only types. The line, the
  column and the remaining text are all of the same place.
  This holds also after other calls of the same parser.
-/
theorem Parser.errors_name_productions
    {source : Text}
    {file : Option Text}
    (earlier : List Parser.Call)
    {call : Parser.Call}
    {error : ParseError}
    (h : (((Parser.new source file).after earlier).perform
      call).1 = .error error) :
    (∃ labels, error.context = labels.map Label.text ∧
      IsContext call.label labels ∧
      (call = .type → ∀ label ∈ labels, label = .type)) ∧
    ∃ lines start, error.IsAfter source lines start := by
  obtain ⟨hSource, _, hLabels⟩ :=
    after_keeps (Parser.new source file) rfl earlier
  obtain ⟨failure, hPlaced, from_, hReport⟩ :=
    perform_reports hLabels h
  rw [hSource] at hPlaced hReport
  subst hReport
  refine ⟨⟨failure.context, rfl, hPlaced.context, ?_⟩,
    failure.report_isAfter hPlaced.rest from_⟩
  rintro rfl
  exact hPlaced.context.eq_type

theorem errors_name_productions_at_unopened_struct :
    let source := "namespace a b\n".toList ++ unopenedStruct
    ((Parser.new source).perform .document).1 =
        .error unopenedError ∧
      (∃ labels,
        unopenedError.context = labels.map Label.text ∧
          IsContext .document labels) ∧
      ∃ lines start,
        unopenedError.IsAfter source lines start := by
  intro source
  have hError : ((Parser.new source).perform .document).1 =
      .error unopenedError := by
    have hAnswer :=
      Parser.answers_document (Parser.new source) rfl
    rw [Parser.perform, hAnswer.outcome]
    exact congrArg (Except.map Parser.Node.document)
      parse_unopenedStruct
  obtain ⟨⟨labels, hNames, hContext, _⟩, hPlace⟩ :=
    Parser.errors_name_productions [] hError
  exact ⟨hError, ⟨labels, hNames, hContext⟩, hPlace⟩

end Idl

end ThriftTypings
