import ThriftTypings.Idl.Session
import ThriftTypings.Proofs.Idl.WellFormed

/-
  This file proves that a parser may be used again and
  again: whatever calls have come before, also those that
  failed deep inside a definition, a call gives what it
  gives on a new parser, leaves no production open, and has
  read the whole source if it succeeds.

  The furthest failure of a parser is always one that is
  seen inside the productions that are open. So it is the
  furthest failure of the scans, put inside these.

  Key definitions include:
    * `Parser.Call` and `Parser.perform`
    * `Parser.after`

  Key theorems include:
    * `Parser.answers_perform`
    * `Parser.calls_are_independent`
-/

namespace ThriftTypings

namespace Idl

-- Alternatives

/- Which failure is the furthest is seen from anywhere. -/
theorem Failure.further_within
    (labels : List Label)
    (earlier : Option Failure)
    (later : Failure) :
    Failure.further (earlier.map (Failure.within labels))
        (later.within labels) =
      (Failure.further earlier later).within labels := by
  cases earlier with
  | none => rfl
  | some failure =>
      exact (apply_ite (Failure.within labels) _ _ _).symm

/- The parser with a furthest failure inside its labels. -/
def Parser.recording
    (parser : Parser)
    (furthest : Option Failure) : Parser :=
  { parser with
    furthest := furthest.map (Failure.within parser.labels) }

@[simp] theorem Parser.rest_recording
    (parser : Parser)
    (furthest : Option Failure) :
    (parser.recording furthest).rest = parser.rest :=
  rfl

@[simp] theorem Parser.rest_moved
    (parser : Parser)
    (rest : Text) :
    (parser.moved rest).rest = rest :=
  rfl

@[simp] theorem Parser.moved_moved
    (parser : Parser)
    (rest left : Text) :
    (parser.moved rest).moved left = parser.moved left :=
  rfl

@[simp] theorem Parser.moved_recording
    (parser : Parser)
    (furthest : Option Failure)
    (rest : Text) :
    (parser.recording furthest).moved rest =
      (parser.moved rest).recording furthest :=
  rfl

/- A failure is recorded with those that came before. -/
theorem Parser.reading_recording
    {α : Type}
    (parser : Parser)
    (earlier : Option Failure)
    (failure : Failure) :
    (parser.recording earlier).reading
        (.error failure : Except Failure (α × Text)) =
      (.error (failure.within parser.labels),
        (parser.moved failure.rest).recording
          (some (Failure.further earlier failure))) := by
  simp only [Parser.reading, Parser.recording, Parser.moved,
    Failure.further_within, Option.map_some]

namespace Act

variable {α κ : Type}

/- Attempts record the furthest failure of the scans. -/
theorem tryEach_recording
    {production : κ → Act α}
    {scan : κ → Scan α}
    (h : ∀ choice,
      Follows (production choice) (scan choice))
    (cause : Cause)
    (parser : Parser)
    (choices : List κ)
    (earlier : Option Failure) :
    tryEach production cause choices
        (parser.recording earlier) =
      match Idl.tryEach scan parser.rest choices earlier with
      | ⟨some (value, rest), furthest⟩ =>
          (.ok value,
            (parser.moved rest).recording furthest)
      | ⟨none, furthest⟩ =>
          fail cause (parser.recording furthest) := by
  induction choices generalizing earlier with
  | nil => rfl
  | cons choice more ih =>
      rw [tryEach_cons, h, Idl.tryEach,
        Parser.rest_recording]
      cases scan choice parser.rest with
      | ok result => rfl
      | error failure =>
          rw [Parser.reading_recording]
          exact ih (some (Failure.further earlier failure))

/- A definition is read like its scan, failures and all. -/
theorem topDefinition_recording
    (order : Order)
    (before : List Comment)
    (parser : Parser)
    (earlier : Option Failure) :
    topDefinition order before (parser.recording earlier) =
      match
        Idl.topDefinition order before earlier parser.rest
      with
      | .ok ((found, rest), furthest) =>
          (.ok found,
            (parser.moved rest).recording furthest)
      | .error furthest =>
          (.error
            (Failure.within parser.labels
              ⟨.noDefinition, [], parser.rest⟩),
            parser.recording (some furthest)) := by
  rw [topDefinition, Idl.topDefinition,
    tryEach_recording (follows_definition order before)]
  split
  · next hTry => rw [hTry]
  · next hTry =>
      rw [hTry]
      exact (follows_fail _ _).trans
        (Parser.reading_recording parser _ _)

theorem nextDefinition_eq
    (order : Order)
    (parser : Parser) :
    nextDefinition order parser =
      match comments parser with
      | (.error failure, after) => (.error failure, after)
      | (.ok before, after) =>
          if after.rest.isEmpty then
            (.ok (.last before), after)
          else
            match topDefinition order before after with
            | (.error failure, left) => (.error failure, left)
            | (.ok found, left) =>
                (.ok (.more found), left) := by
  rw [nextDefinition, bind_apply]
  cases comments parser with
  | mk outcome after =>
      cases outcome with
      | error failure => rfl
      | ok before =>
          dsimp only
          rw [bind_apply, ended]
          dsimp only
          split
          · rfl
          · rw [bind_apply]
            cases topDefinition order before after with
            | mk outcome left => cases outcome <;> rfl

/- A document is its first definition, and then the others. -/
theorem document_eq
    (order : Order)
    (parser : Parser) :
    document order parser =
      match comments parser with
      | (.error failure, after) => (.error failure, after)
      | (.ok before, after) =>
          if after.rest.isEmpty then
            (.ok { body := [], trailing := before }, after)
          else
            match topDefinition order before after with
            | (.error failure, left) => (.error failure, left)
            | (.ok found, left) =>
                match document order left with
                | (.error failure, final) =>
                    (.error failure, final)
                | (.ok document, final) =>
                    (.ok
                      { document with
                        body := found :: document.body },
                      final) := by
  rw [document, bind_apply, repeated_eq, nextDefinition_eq]
  cases comments parser with
  | mk outcome after =>
      cases outcome with
      | error failure => rfl
      | ok before =>
          dsimp only
          by_cases hEnd : after.rest.isEmpty
          · simp only [hEnd, if_true]
            rfl
          · simp only [hEnd, Bool.false_eq_true, if_false]
            cases topDefinition order before after with
            | mk outcome left =>
                cases outcome with
                | error failure => rfl
                | ok found =>
                    dsimp only
                    rw [bind_apply]
                    cases repeated (nextDefinition order)
                        (progresses_nextDefinition order)
                        left with
                    | mk outcome final =>
                        cases outcome <;> rfl

/-
  What has become of a parser after a document, as it was
  read by the scans: the document is the same, or the same
  failure is recorded as the furthest.
-/
def Reads
    (parser : Parser)
    (reply : Except Failure Document × Parser) :
    Except Failure (Document × Text) → Prop
  | .ok (document, rest) =>
      ∃ furthest,
        reply =
          (.ok document,
            (parser.moved rest).recording furthest)
  | .error furthest =>
      ∃ raised rest,
        reply =
          (.error raised,
            (parser.moved rest).recording (some furthest))

theorem reads_document
    (order : Order)
    (parser : Parser)
    (earlier : Option Failure) :
    Reads parser
      (document order (parser.recording earlier))
      (documentFrom order earlier parser.rest) := by
  induction hn : parser.rest.length using Nat.strongRecOn
    generalizing parser earlier with
  | ind n ih =>
      rw [document_eq, documentFrom_eq, follows_comments,
        Parser.rest_recording]
      cases hComments : Idl.comments parser.rest with
      | error failure =>
          rw [Parser.reading_recording]
          exact ⟨_, _, rfl⟩
      | ok pair =>
          obtain ⟨before, rest⟩ := pair
          have hShort :=
            (advances_comments _ _ _ hComments).length_le
          cases rest with
          | nil => exact ⟨earlier, rfl⟩
          | cons c rest =>
              have hTop := topDefinition_recording order
                before (parser.moved (c :: rest)) earlier
              simp only [Parser.reading,
                Parser.moved_recording, hTop,
                Parser.rest_moved, Parser.rest_recording,
                List.isEmpty_cons, Bool.false_eq_true,
                if_false]
              cases hFound : Idl.topDefinition order before
                  earlier (c :: rest) with
              | error furthest => exact ⟨_, _, rfl⟩
              | ok pair =>
                  obtain ⟨⟨found, after⟩, furthest⟩ := pair
                  have hLess :=
                    (topDefinition_suffix hFound).2
                  have hMore := ih after.length (by omega)
                    (parser.moved after) furthest rfl
                  simp only [Parser.rest_moved] at hMore
                  simp only [Parser.moved_moved]
                  cases hDocument :
                      documentFrom order furthest after with
                  | error failure =>
                      rw [hDocument] at hMore
                      obtain ⟨raised, left, hReply⟩ := hMore
                      rw [hReply]
                      exact ⟨raised, left, rfl⟩
                  | ok pair =>
                      rw [hDocument] at hMore
                      obtain ⟨last, hReply⟩ := hMore
                      rw [hReply]
                      exact ⟨last, rfl⟩

end Act

-- The Whole Source

/- A document is read to the end of the text. -/
theorem rest_of_documentFrom
    {order : Order}
    {earlier : Option Failure}
    {text rest : Text}
    {document : Document}
    (h : documentFrom order earlier text =
      .ok (document, rest)) :
    rest = [] := by
  rcases document with ⟨body, trailing⟩
  induction body generalizing text earlier with
  | nil => exact (cases_of_documentFrom h).2
  | cons found more ih =>
      rcases cases_of_documentFrom h with
        ⟨_, _, _, _, _, _, hMore⟩
      exact ih hMore

/- So is a type. -/
theorem rest_of_completeType
    {order : Order}
    {text rest : Text}
    {type : IdlType}
    (h : completeType order text = .ok (type, rest)) :
    rest = [] := by
  obtain ⟨_, _, _, h⟩ := Scan.bind_eq_ok_iff.mp h
  obtain ⟨_, left, _, h⟩ := Scan.bind_eq_ok_iff.mp h
  split at h
  · next hEmpty =>
      cases h
      exact List.isEmpty_iff.mp hEmpty
  · cases h

-- Single Calls

namespace Parser

/-
  The reply to a call is as expected: the outcome, the
  productions that were open before, and the whole source
  read if there is a value.
-/
structure Answers
    {α : Type}
    (parser : Parser)
    (expected : Except ParseError α)
    (reply : Except ParseError α × Parser) : Prop where
  outcome : reply.1 = expected
  source : reply.2.source = parser.source
  file : reply.2.file = parser.file
  labels : reply.2.labels = parser.labels
  consumed : ∀ value, reply.1 = .ok value →
    reply.2.rest = []

/- Documents are answered as they are read, in any order. -/
theorem answers_document_in
    (order : Order)
    (parser : Parser)
    (h : parser.labels = []) :
    parser.Answers
      ((Document.read order parser.source).mapError
        (·.report parser.source parser.file))
      (parser.call .document (Act.document order)) := by
  obtain ⟨source, file, rest, labels, furthest⟩ := parser
  dsimp only at h
  subst h
  have hReads := Act.reads_document order
    ⟨source, file, source, [.document], none⟩ none
  change Act.Reads _
    (Act.document order
      ⟨source, file, source, [.document], none⟩)
    (documentFrom order none source) at hReads
  rw [call, started, Document.read]
  unfold Scan.labelled Act.labelled
  dsimp only [List.nil_append]
  cases hFrom : documentFrom order none source with
  | error failure =>
      rw [hFrom] at hReads
      obtain ⟨raised, left, hReply⟩ := hReads
      rw [hReply]
      exact ⟨rfl, rfl, rfl, rfl, nofun⟩
  | ok pair =>
      rw [hFrom] at hReads
      obtain ⟨furthest, hReply⟩ := hReads
      rw [hReply]
      have hRest := rest_of_documentFrom hFrom
      exact ⟨rfl, rfl, rfl, rfl, fun _ _ => hRest⟩

theorem answers_document
    (parser : Parser)
    (h : parser.labels = []) :
    parser.Answers
      (Document.parse parser.source parser.file)
      parser.document := by
  have hAnswers := answers_document_in Order.usual parser h
  rw [Document.parse]
  cases hRead : Document.read Order.usual parser.source with
  | error failure =>
      rw [hRead] at hAnswers
      exact hAnswers
  | ok document =>
      rw [hRead] at hAnswers
      exact hAnswers

theorem answers_type
    (parser : Parser)
    (h : parser.labels = []) :
    parser.Answers
      ((IdlType.read Order.usual parser.source).mapError
        (·.report parser.source parser.file))
      parser.type := by
  obtain ⟨source, file, rest, labels, furthest⟩ := parser
  dsimp only at h
  subst h
  rw [type, call, started,
    (Act.follows_completeType Order.usual).labelled,
    IdlType.read]
  cases hRead : Scan.labelled .type
      (completeType Order.usual) source with
  | error failure =>
      exact ⟨rfl, rfl, rfl, rfl, nofun⟩
  | ok pair =>
      have hRest := rest_of_completeType
        (Scan.labelled_eq_ok_iff.mp hRead)
      exact ⟨rfl, rfl, rfl, rfl, fun _ _ => hRest⟩

-- Calls in Turn

/- What a parser may be asked to read. -/
inductive Call where
  | document
  | type
  deriving DecidableEq, Repr

/- What a parser may have read. -/
inductive Node where
  | document (found : Document)
  | type (found : IdlType)
  deriving DecidableEq, Repr

/- One call of a parser. -/
def perform
    (parser : Parser) :
    Call → Except ParseError Node × Parser
  | .document =>
      (parser.document.1.map .document, parser.document.2)
  | .type => (parser.type.1.map .type, parser.type.2)

/- The parser after several calls in turn. -/
def after
    (parser : Parser)
    (calls : List Call) : Parser :=
  calls.foldl (fun used call => (used.perform call).2) parser

/- What the scans say that a call has to give. -/
def Call.expected
    (source : Text)
    (file : Option Text) : Call → Except ParseError Node
  | .document => (Document.parse source file).map .document
  | .type =>
      ((IdlType.read Order.usual source).mapError
        (·.report source file)).map .type

theorem Answers.map
    {α β : Type}
    {parser : Parser}
    {expected : Except ParseError α}
    {reply : Except ParseError α × Parser}
    (h : parser.Answers expected reply)
    (make : α → β) :
    parser.Answers (expected.map make)
      (reply.1.map make, reply.2) := by
  refine ⟨congrArg (·.map make) h.outcome, h.source, h.file,
    h.labels, ?_⟩
  intro value hValue
  cases hOutcome : reply.1 with
  | error error => simp [hOutcome, Except.map] at hValue
  | ok found => exact h.consumed found hOutcome

theorem answers_perform
    (parser : Parser)
    (h : parser.labels = [])
    (call : Call) :
    parser.Answers (call.expected parser.source parser.file)
      (parser.perform call) := by
  cases call with
  | document => exact (answers_document parser h).map _
  | type => exact (answers_type parser h).map _

/- Calls change neither the source nor what is open. -/
theorem after_keeps
    (parser : Parser)
    (h : parser.labels = [])
    (calls : List Call) :
    (parser.after calls).source = parser.source ∧
      (parser.after calls).file = parser.file ∧
      (parser.after calls).labels = [] := by
  induction calls generalizing parser with
  | nil => exact ⟨rfl, rfl, h⟩
  | cons call more ih =>
      have hCall := answers_perform parser h call
      obtain ⟨hSource, hFile, hLabels⟩ :=
        ih (parser.perform call).2 (hCall.labels.trans h)
      exact ⟨hSource.trans hCall.source,
        hFile.trans hCall.file, hLabels⟩

/-
  A parser may be used again and again. Whatever calls have
  come before, a call gives what it gives on a new parser,
  which is what the scans read from the source. It leaves no
  production open, and the cursor at the end of the source
  if it gives a value.
-/
theorem calls_are_independent
    (source : Text)
    (file : Option Text)
    (earlier : List Call)
    (call : Call) :
    let fresh := Parser.new source file
    let reply := (fresh.after earlier).perform call
    reply.1 = (fresh.perform call).1 ∧
      reply.1 = call.expected source file ∧
      reply.2.labels = [] ∧
      ∀ node, reply.1 = .ok node →
        reply.2.position = source.length := by
  intro fresh reply
  have hFresh := answers_perform fresh rfl call
  obtain ⟨hSource, hFile, hLabels⟩ :=
    after_keeps fresh rfl earlier
  have hReply :=
    answers_perform (fresh.after earlier) hLabels call
  rw [hSource, hFile] at hReply
  refine ⟨hReply.outcome.trans hFresh.outcome.symm,
    hReply.outcome, hReply.labels.trans hLabels, ?_⟩
  intro node hNode
  rw [position, hReply.consumed node hNode, hReply.source,
    hSource]
  rfl

theorem type_after_failed_document :
    let source := " list< E>\n".toList
    let reply :=
      ((Parser.new source).after [.document]).perform .type
    reply.1 = .ok (.type (.list (.named ['E']))) ∧
      reply.2.labels = [] ∧
      reply.2.position = source.length := by
  intro source reply
  have hExpected : Call.expected source none .type =
      .ok (.type (.list (.named ['E']))) := by
    decide +kernel
  obtain ⟨_, hOutcome, hLabels, hConsumed⟩ :=
    calls_are_independent source none [.document] .type
  have hType := hOutcome.trans hExpected
  exact ⟨hType, hLabels, hConsumed _ hType⟩

end Parser

end Idl

end ThriftTypings
