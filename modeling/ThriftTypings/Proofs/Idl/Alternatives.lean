import ThriftTypings.Proofs.Idl.Concatenation
import ThriftTypings.Proofs.Idl.Reuse

/-
  This file proves that the order in which alternatives are
  tried cannot be told from what is read or reported.

  Each alternative but a name opens with a word of its own,
  so at most one of them gets past its first word. If it
  fails after that word, then its failure is further on than
  the failures of all others. If none gets there, they all
  fail at the same place, where what is reported is that
  nothing fits.

  Key theorems include:
    * `Document.read_order`
    * `Parser.document_ignores_order`
-/

namespace ThriftTypings

namespace Idl

variable {failure : Failure}

-- Words

/- Of words that differ, the order does not count. -/
theorem firstKeyword?_order
    {α : Type}
    {word : α → Text}
    (hWords : ∀ choice, IsWord (word choice))
    (hInjective : Function.Injective word)
    {choices others : List α}
    (hChoices : ∀ choice, choice ∈ choices)
    (hOthers : ∀ choice, choice ∈ others)
    (text : Text) :
    firstKeyword? word choices text =
      firstKeyword? word others text := by
  cases hFirst : firstKeyword? word others text with
  | none =>
      refine firstKeyword?_eq_none_iff.mpr fun choice _ => ?_
      exact firstKeyword?_eq_none_iff.mp hFirst choice
        (hOthers choice)
  | some found =>
      rcases found with ⟨choice, rest⟩
      rcases spelled_of_firstKeyword? hFirst with
        ⟨_, hText, hEnds⟩
      exact firstKeyword?_eq_some
        (fun choice => (hWords choice).2) hInjective
        (hChoices choice) hText hEnds

theorem firstGeneric?_order
    {choices others : List Generic}
    (hChoices : ∀ generic, generic ∈ choices)
    (hOthers : ∀ generic, generic ∈ others)
    (text : Text) :
    firstGeneric? choices text = firstGeneric? others text := by
  cases hFirst : firstGeneric? others text with
  | none =>
      refine firstGeneric?_eq_none_iff.mpr fun generic _ => ?_
      exact firstGeneric?_eq_none_iff.mp hFirst generic
        (hOthers generic)
  | some found =>
      rcases found with ⟨generic, rest⟩
      rcases spelled_of_firstGeneric? hFirst with
        ⟨_, after, hText, hOpen⟩
      exact firstGeneric?_eq_some (hChoices generic) hText
        hOpen

-- Types, Members and Definitions

section Order

variable {order other : Order}
variable (hOrder : order.IsFull) (hOther : other.IsFull)

include hOrder hOther

theorem typeAround_order
    (nested : Scan IdlType) :
    typeAround order nested = typeAround other nested := by
  unfold typeAround
  congr 1
  funext text
  rw [firstKeyword?_order Primitive.isWord_word
      Primitive.word_injective hOrder.primitives
      hOther.primitives text,
    firstGeneric?_order hOrder.generics hOther.generics text]

theorem typeWithin_order
    (depth : Nat) :
    typeWithin order depth = typeWithin other depth := by
  induction depth with
  | zero => rfl
  | succ depth ih =>
      rw [typeWithin, typeWithin, ih]
      exact typeAround_order hOrder hOther _

/- Types are read in the same way in all orders. -/
theorem idlType_order :
    idlType order = idlType other := by
  funext text
  rw [idlType, typeWithin_order hOrder hOther]
  rfl

theorem field_order :
    field order = field other := by
  have hRequiredness :
      requiredness? order = requiredness? other := by
    funext text
    rw [requiredness?, requiredness?,
      firstKeyword?_order Requiredness.isWord_word
        Requiredness.word_injective hOrder.requiredness
        hOther.requiredness text]
  funext before
  rw [field, field, hRequiredness,
    idlType_order hOrder hOther]

omit hOrder hOther in
theorem members_congr
    {α : Type}
    {first second : List Comment → Scan α}
    (hFirst : ∀ before, Scan.Consumes (first before))
    (hSecond : ∀ before, Scan.Consumes (second before))
    (h : first = second)
    (closing : Char) :
    members first hFirst closing =
      members second hSecond closing := by
  subst h
  rfl

theorem function_order :
    function order = function other := by
  funext before
  rw [function, function, idlType_order hOrder hOther,
    members_congr _ (consumes_field other)
      (field_order hOrder hOther)]

/- So are the definitions of each kind. -/
theorem definition_order :
    definition order = definition other := by
  have hField := field_order hOrder hOther
  have hFunction := function_order hOrder hOther
  funext before kind
  rw [definition, definition]
  cases kind with
  | nameSpace => rfl
  | inclusion => rfl
  | enum => rfl
  | struct =>
      rw [definitionBody, definitionBody,
        members_congr _ (consumes_field other) hField]
  | service =>
      rw [definitionBody, definitionBody,
        members_congr _ (consumes_function other) hFunction]

end Order

-- Alternatives From One Place

/- Is the other failure the same one, or not as far on? -/
def Failure.Leads
    (failure other : Failure) : Prop :=
  other = failure ∨
    failure.rest.length < other.rest.length

/- A failure that leads is kept, and recorded anew. -/
theorem Failure.Leads.further_eq
    {failure found : Failure}
    {earlier : Option Failure}
    (hFound : failure.Leads found)
    (hEarlier : ∀ other ∈ earlier, failure.Leads other)
    (h : earlier = some failure ∨ found = failure) :
    Failure.further earlier found = failure := by
  rcases h with rfl | rfl
  · rcases hFound with rfl | hLess
    · exact if_pos (Nat.le_refl _)
    · exact if_neg (Nat.not_le_of_lt hLess)
  · cases earlier with
    | none => rfl
    | some other =>
        rcases hEarlier other rfl with rfl | hLess
        · exact if_pos (Nat.le_refl _)
        · exact if_pos (Nat.le_of_lt hLess)

/-
  Where all alternatives fail, the failure that leads is the
  one recorded.
-/
theorem tryEach_of_leads
    {α κ : Type}
    {scan : κ → Scan α}
    {text : Text}
    {choices : List κ}
    (h : ∀ choice ∈ choices, ∃ found,
      scan choice text = .error found ∧ failure.Leads found)
    {earlier : Option Failure}
    (hEarlier : ∀ found ∈ earlier, failure.Leads found)
    (hHappens : earlier = some failure ∨
      ∃ choice ∈ choices,
        scan choice text = .error failure) :
    tryEach scan text choices earlier =
      ⟨none, some failure⟩ := by
  induction choices generalizing earlier with
  | nil =>
      rcases hHappens with hBefore | ⟨_, hMem, _⟩
      · rw [tryEach, hBefore]
      · cases hMem
  | cons first more ih =>
      rcases List.forall_mem_cons.mp h with
        ⟨⟨found, hFound, hLeads⟩, hMore⟩
      simp only [tryEach, hFound]
      apply ih hMore
      · intro other hOther
        cases hOther
        rcases Failure.further_cases earlier found with
          hLater | hBefore
        · rw [hLater]
          exact hLeads
        · exact hEarlier _ hBefore
      · rcases hHappens with hBefore | ⟨choice, hMem, hChoice⟩
        · left
          rw [hLeads.further_eq hEarlier (.inl hBefore)]
        · rcases List.mem_cons.mp hMem with rfl | hLater
          · left
            rw [hFound] at hChoice
            rw [hLeads.further_eq hEarlier
              (.inr (Except.error.inj hChoice))]
          · exact .inr ⟨choice, hLater, hChoice⟩

section Top

variable {order : Order} {before : List Comment}
variable {kind : Kind} {text rest : Text}

/- Only the kind whose keyword stands there is read. -/
theorem definition_of_other_keyword
    (hKeyword : keyword kind.word text = .ok ((), rest))
    {other : Kind}
    (hOther : other ≠ kind) :
    ∃ failure,
      definition order before other text = .error failure ∧
        failure.rest = skipSpace text := by
  cases hRead : definition order before other text with
  | ok result =>
      rcases exists_of_definition hRead with ⟨_, hWord, _⟩
      exact absurd (kind_unique hKeyword hWord) hOther
  | error failure =>
      rcases cases_of_definition_error hRead with
        hRest | ⟨_, _, hWord, _, _⟩
      · exact ⟨failure, rfl, hRest⟩
      · exact absurd (kind_unique hKeyword hWord) hOther

/- A definition that fails after its keyword got further. -/
theorem length_of_keyword
    (hKeyword : keyword kind.word text = .ok ((), rest))
    (h : definition order before kind text =
      .error failure) :
    failure.rest.length < (skipSpace text).length := by
  have hText := (keyword_eq_ok_iff.mp hKeyword).1
  have hWord := List.length_pos_of_ne_nil kind.isWord_word.1
  rcases Scan.error_of_labelled h with ⟨found, hFound, rfl⟩
  rcases Scan.bind_eq_error_iff.mp hFound with
    hMissing | ⟨_, after, hAfter, hBody⟩
  · rw [hKeyword] at hMissing
    cases hMissing
  · rw [hKeyword] at hAfter
    cases hAfter
    rcases (viable_definitionBody order before kind).completes
      rest found hBody with ⟨front, _, _, hSplit, _⟩
    rw [hText, hSplit, List.length_append, List.length_append]
    change found.rest.length < _
    omega

/-
  A definition that fails after its keyword is reported,
  whatever the order.
-/
theorem topDefinition_of_keyword
    (hKind : kind ∈ order.kinds)
    (hKeyword : keyword kind.word text = .ok ((), rest))
    (h : definition order before kind text = .error failure) :
    topDefinition order before none text =
      .error failure := by
  have hLess := length_of_keyword hKeyword h
  have hTry : tryEach (definition order before) text
      order.kinds none = ⟨none, some failure⟩ := by
    apply tryEach_of_leads
    · intro other _
      by_cases hSame : other = kind
      · exact ⟨failure, hSame ▸ h, .inl rfl⟩
      · rcases definition_of_other_keyword hKeyword hSame with
          ⟨found, hFound, hRest⟩
        exact ⟨found, hFound, .inr (hRest ▸ hLess)⟩
    · intro found hNone
      cases hNone
    · exact .inr ⟨kind, hKind, h⟩
  have hNothing :
      failure.Leads ⟨.noDefinition, [], text⟩ :=
    .inr (Nat.lt_of_lt_of_le hLess
      (skipSpace_suffix text).length_le)
  have hEarlier :
      ∀ other ∈ some failure, failure.Leads other := by
    intro other hSame
    exact .inl (Option.some.inj hSame).symm
  simp only [topDefinition, hTry]
  rw [hNothing.further_eq hEarlier (.inl rfl)]

/- Where there is no keyword, nothing fits. -/
theorem topDefinition_of_none
    (hSpace : skipSpace text = text)
    (hNone : ∀ kind : Kind, ∀ rest,
      keyword kind.word text ≠ .ok ((), rest)) :
    topDefinition order before none text =
      .error ⟨.noDefinition, [], text⟩ := by
  have hFails (kind : Kind) (failure : Failure)
      (hKind : definition order before kind text =
        .error failure) : failure.rest = text := by
    rcases cases_of_definition_error hKind with
      hRest | ⟨rest, _, hKeyword, _, _⟩
    · rw [hRest, hSpace]
    · exact absurd hKeyword (hNone kind rest)
  rcases hTry : tryEach (definition order before) text
    order.kinds none with ⟨result, furthest⟩
  simp only [topDefinition, hTry]
  cases result with
  | some result =>
      rcases exists_of_tryEach
        (congrArg Attempt.result hTry) with ⟨kind, _, hRead⟩
      rcases exists_of_definition hRead with
        ⟨rest, hKeyword, _⟩
      exact absurd hKeyword (hNone kind rest)
  | none =>
      cases furthest with
      | none => rfl
      | some failure =>
          rcases furthest_of_tryEach
            (congrArg Attempt.furthest hTry) with
            hEarlier | ⟨kind, _, hKind⟩
          · cases hEarlier
          · have hPlace := hFails kind failure hKind
            exact congrArg Except.error
              (if_pos (Nat.le_of_eq
                (congrArg List.length hPlace.symm)))

end Top

-- Documents

section Start

variable {order : Order} {kind : Kind}
variable {text inner rest : Text} {before : List Comment}

/- After a definition a document is read as from its start. -/
theorem documentFrom_after
    (hKind : kind ∈ order.kinds)
    (hComments : comments text = .ok (before, inner))
    {found : Definition}
    (hFound : definition order before kind inner =
      .ok (found, rest)) :
    documentFrom order none text =
      (documentFrom order none rest).map
        (fun (document, left) =>
          (document.cons found, left)) := by
  have hLess :=
    (consumes_definition order before kind _ _ _ hFound).2
  rcases documentFrom_of_definition hKind hComments hFound
    none with ⟨furthest, hDocument, hFurthest⟩
  have hBehind := behind_of_cases hFurthest
    (behind_none rest) (Nat.le_of_lt hLess)
  rw [hDocument, documentFrom_behind hBehind]

theorem documentFrom_of_keyword
    (hKind : kind ∈ order.kinds)
    (hComments : comments text = .ok (before, inner))
    (hKeyword : keyword kind.word inner = .ok ((), rest))
    (h : definition order before kind inner =
      .error failure) :
    documentFrom order none text = .error failure := by
  have hInner : inner ≠ [] := by
    rintro rfl
    have hWord := (keyword_eq_ok_iff.mp hKeyword).1
    exact kind.isWord_word.1
      (List.append_eq_nil_iff.mp hWord.symm).1
  exact documentFrom_of_top_error hComments hInner
    (topDefinition_of_keyword hKind hKeyword h)

theorem documentFrom_of_none
    (hComments : comments text = .ok (before, inner))
    (hInner : inner ≠ [])
    (hNone : ∀ kind : Kind, ∀ rest,
      keyword kind.word inner ≠ .ok ((), rest)) :
    documentFrom order none text =
      .error ⟨.noDefinition, [], inner⟩ :=
  documentFrom_of_top_error hComments hInner
    (topDefinition_of_none
      (comments_local hComments).1.space hNone)

end Start

/- Documents are read in the same way in all orders. -/
theorem documentFrom_order
    {order other : Order}
    (hOrder : order.IsFull)
    (hOther : other.IsFull)
    (text : Text) :
    documentFrom order none text =
      documentFrom other none text := by
  have hSame := definition_order hOrder hOther
  -- each definition leaves less text for the others
  induction hn : text.length using Nat.strongRecOn
    generalizing text with
  | ind n ih =>
      cases hComments : comments text with
      | error failure =>
          rw [documentFrom_eq, documentFrom_eq other,
            hComments]
      | ok found =>
          rcases found with ⟨before, inner⟩
          have hLength :=
            (advances_comments _ _ _ hComments).length_le
          by_cases hInner : inner = []
          · subst hInner
            rw [documentFrom_of_comments hComments,
              documentFrom_of_comments hComments]
          by_cases hKeyword : ∃ kind : Kind, ∃ rest,
              keyword kind.word inner = .ok ((), rest)
          · rcases hKeyword with ⟨kind, _, hKeyword⟩
            cases hRead : definition other before kind
                inner with
            | error failure =>
                rw [documentFrom_of_keyword
                    (hOrder.kinds kind) hComments hKeyword
                    (hSame ▸ hRead),
                  documentFrom_of_keyword
                    (hOther.kinds kind) hComments hKeyword
                    hRead]
            | ok result =>
                rcases result with ⟨found, rest⟩
                have hLess := (consumes_definition other
                  before kind _ _ _ hRead).2
                rw [documentFrom_after (hOrder.kinds kind)
                    hComments (hSame ▸ hRead),
                  documentFrom_after (hOther.kinds kind)
                    hComments hRead,
                  ih rest.length (by omega) rest rfl]
          · have hNone (kind : Kind) (rest : Text)
                (hWord : keyword kind.word inner =
                  .ok ((), rest)) : False :=
              hKeyword ⟨kind, rest, hWord⟩
            rw [documentFrom_of_none hComments hInner hNone,
              documentFrom_of_none hComments hInner hNone]

theorem Document.read_order
    {order other : Order}
    (hOrder : order.IsFull)
    (hOther : other.IsFull)
    (source : Text) :
    Document.read order source =
      Document.read other source := by
  simp only [Document.read, Scan.labelled,
    documentFrom_order hOrder hOther source]

-- Answers

/- Attempts at other kinds fail where a keyword stands. -/
theorem attempt_of_other_keyword
    (order : Order)
    (before : List Comment)
    {kind other : Kind}
    {place : Parser}
    {rest : Text}
    (hKeyword : keyword kind.word place.rest =
      .ok ((), rest))
    (hOther : other ≠ kind) :
    (Act.attempt (Act.definition order before other)
      place).1 = .ok none := by
  rcases definition_of_other_keyword hKeyword hOther with
    ⟨failure, hFails, _⟩
  rw [Act.attempt, Act.follows_definition, hFails]
  rfl

/-
  The order of alternatives cannot be told from outside. In
  any order that leaves none out, the answer is the same
  document or the same error. Where the keyword of one kind
  stands, an attempt at any other kind fails.
-/
theorem Parser.document_ignores_order
    {order : Order}
    (hOrder : order.IsFull)
    (source : Text)
    (file : Option Text) :
    ((Parser.new source file).call .document
        (Act.document order)).1 =
      (Parser.new source file).document.1 ∧
    ∀ (before : List Comment) (place : Parser)
      (kind other : Kind) (rest : Text),
      keyword kind.word place.rest = .ok ((), rest) →
        other ≠ kind →
          (Act.attempt (Act.definition order before other)
            place).1 = .ok none := by
  constructor
  · have hAnswer := answers_document_in order
      (Parser.new source file) rfl
    have hUsual := answers_document_in Order.usual
      (Parser.new source file) rfl
    rw [Parser.document, hAnswer.outcome, hUsual.outcome,
      Document.read_order hOrder Order.isFull_usual]
  · intro before place kind other rest hKeyword hOther
    exact attempt_of_other_keyword order before hKeyword
      hOther

/- Everything is tried the other way round. -/
theorem Parser.document_in_reversed_order :
    let order : Order :=
      { kinds := Kind.all.reverse
        primitives := Primitive.all.reverse
        generics := Generic.all.reverse
        requiredness := Requiredness.all.reverse }
    let parser := Parser.new
      "struct S \x7b 1: optional list<i32 x \x7d".toList none
    order.IsFull ∧
      (parser.call .document (Act.document order)).1 =
        parser.document.1 := by
  intro order parser
  have hOrder : order.IsFull :=
    { kinds := fun kind => by cases kind <;> decide
      primitives := fun primitive => by
        cases primitive <;> decide
      generics := fun generic => by cases generic <;> decide
      requiredness := fun requiredness => by
        cases requiredness <;> decide }
  exact ⟨hOrder,
    (Parser.document_ignores_order hOrder _ none).1⟩

end Idl

end ThriftTypings
