import ThriftTypings.Proofs.Idl.Laws

/-
  This file proves that every loop and every recursion of a
  parser makes progress.

  What is read leaves the cursor further on, and an optional
  part that is not there leaves it where it was. So loops
  and types end on every source. For loops this is said with
  bounds and with an act for the case that one is reached:
  given more rounds than characters are left, it does not
  matter which act that is. Types are read with a limit on
  the calls that are open at once, and it is said where they
  are broken off.

  Key definitions include:
    * `Parser.IsBefore`
    * `Act.MovesOn` and `Act.Stays`

  Key theorems include:
    * `Limited.breaks_type`
    * `Act.productions_make_progress`
-/

namespace ThriftTypings

namespace Idl

-- Further On

/- A cursor that is further on, and not beyond the end. -/
structure Parser.IsBefore
    (parser after : Parser) : Prop where
  source : after.source = parser.source
  inside : after.rest <:+ parser.source
  further : parser.position < after.position

namespace Act

variable {α β κ : Type}

/- The cursor moves on with every value, or such values. -/
def MovesOn
    (act : Act α)
    (found : α → Prop := fun _ => True) : Prop :=
  ∀ parser value after, parser.rest <:+ parser.source →
    act parser = (.ok value, after) → found value →
      parser.IsBefore after

/- The cursor stays where it was with such a value. -/
def Stays
    (act : Act α)
    (missing : α → Prop) : Prop :=
  ∀ parser value after, act parser = (.ok value, after) →
    missing value → after.rest = parser.rest

theorem isBefore_of_shorter
    {parser after : Parser}
    (hInside : parser.rest <:+ parser.source)
    (hSource : after.source = parser.source)
    (h : after.rest <:+ parser.rest ∧
      after.rest.length < parser.rest.length) :
    parser.IsBefore after := by
  refine ⟨hSource, h.1.trans hInside, ?_⟩
  have hLength := hInside.length_le
  simp only [Parser.position, hSource]
  omega

theorem Follows.source_eq
    {act : Act α}
    {scan : Scan α}
    (h : Follows act scan)
    (parser : Parser) :
    (act parser).2.source = parser.source := by
  rw [h]
  cases scan parser.rest <;> rfl

theorem Follows.movesOn_of
    {act : Act α}
    {scan : Scan α}
    {found : α → Prop}
    (h : Follows act scan)
    (hConsumes : ∀ text value rest,
      scan text = .ok (value, rest) → found value →
        rest <:+ text ∧ rest.length < text.length) :
    MovesOn act found := by
  intro parser value after hInside hAct hFound
  have hSource := h.source_eq parser
  rw [hAct] at hSource
  exact isBefore_of_shorter hInside hSource
    (hConsumes _ _ _ (h.of_ok hAct) hFound)

theorem Follows.movesOn
    {act : Act α}
    {scan : Scan α}
    (h : Follows act scan)
    (hConsumes : Scan.Consumes scan) :
    MovesOn act :=
  h.movesOn_of fun _ _ _ hScan _ => hConsumes _ _ _ hScan

theorem source_tryEach
    {production : κ → Act α}
    (h : ∀ choice parser,
      (production choice parser).2.source = parser.source)
    (cause : Cause)
    (choices : List κ)
    (parser : Parser) :
    (tryEach production cause choices parser).2.source =
      parser.source := by
  induction choices generalizing parser with
  | nil => rfl
  | cons choice more ih =>
      have hSource := h choice parser
      rw [tryEach_cons]
      rcases hTry : production choice parser with
        ⟨failure | value, after⟩
      · rw [hTry] at hSource
        exact (ih _).trans hSource
      · rwa [hTry] at hSource

theorem movesOn_topDefinition
    (order : Order)
    (before : List Comment) :
    MovesOn (topDefinition order before) := by
  intro parser found after hInside hTop _
  have hSource := source_tryEach
    (fun kind =>
      (follows_definition order before kind).source_eq)
    .noDefinition order.kinds parser
  rw [← topDefinition, hTop] at hSource
  obtain ⟨kind, start, hStart, hFound⟩ :=
    exists_of_tryEach hTop
  have hScan :=
    (follows_definition order before kind).of_ok hFound
  rw [hStart] at hScan
  exact isBefore_of_shorter hInside hSource
    (consumes_definition order before kind _ _ _ hScan)

theorem movesOn_inlineComment :
    MovesOn inlineComment (· ≠ []) := by
  refine follows_inlineComment.movesOn_of ?_
  intro text found rest hScan hFound
  refine ⟨advances_inlineComment _ _ _ hScan, ?_⟩
  simp only [Idl.inlineComment, lineComment] at hScan
  split at hScan
  · next more hText =>
      cases hScan
      have hSkip := (List.dropWhile_suffix
        (l := text) isLineSpace).length_le
      have hLine := (List.dropWhile_suffix
        (l := more) (· != '\n')).length_le
      rw [hText] at hSkip
      simp only [List.length_cons] at hSkip
      omega
  · cases hScan
    exact absurd rfl hFound

-- Looking Ahead

theorem stays_accepting
    (look : Text → Option Text) :
    Stays (accepting look) (· = false) := by
  rintro parser _ after hAct rfl
  unfold accepting at hAct
  split at hAct
  · cases hAct
  · cases hAct
    rfl

theorem stays_attempt
    (act : Act α) :
    Stays (attempt act) (· = none) := by
  rintro parser _ after hAct rfl
  unfold attempt at hAct
  split at hAct
  · cases hAct
  · cases hAct
    rfl

theorem separator_eq
    (parser : Parser)
    (h : ∀ c ∈ (skipSpace parser.rest).head?,
      c ≠ ',' ∧ c ≠ ';') :
    separator parser = (.ok (), parser) := by
  unfold separator passing skipSeparator
  split
  · next hText => simp [hText] at h
  · next hText => simp [hText] at h
  · rfl

/- Something optional that starts with a look ahead. -/
theorem stays_optional
    {look : Text → Option Text}
    {act : Act α}
    {make : α → β}
    {none_ : β}
    (h : ∀ value, make value ≠ none_) :
    Stays
      (do
        if ← accepting look then
          let value ← act
          pure (make value)
        else
          pure none_)
      (· = none_) := by
  rintro parser _ after hAct rfl
  obtain ⟨found, between, hLook, hAct⟩ :=
    bind_eq_ok_iff.mp hAct
  cases found with
  | false =>
      cases hAct
      exact stays_accepting look _ _ _ hLook rfl
  | true =>
      obtain ⟨value, _, _, hPure⟩ := bind_eq_ok_iff.mp hAct
      exact absurd (Except.ok.inj (congrArg Prod.fst hPure))
        (h value)

-- Loops

/- A loop with a bound on its rounds. -/
def rounds
    (step : Act (Round α β))
    (bound : Act (List α × β)) :
    Nat → Act (List α × β)
  | 0 => bound
  | limit + 1 => do
      match ← step with
      | .last value => pure ([], value)
      | .more value =>
          let (values, final) ← rounds step bound limit
          pure (value :: values, final)

/- The bound is not reached. -/
theorem rounds_eq_repeated
    {step : Act (Round α β)}
    (progress : Progresses step)
    (bound : Act (List α × β))
    {limit : Nat}
    {parser : Parser}
    (h : parser.rest.length < limit) :
    rounds step bound limit parser =
      repeated step progress parser := by
  induction limit generalizing parser with
  | zero => omega
  | succ limit ih =>
      rw [rounds, bind_apply, repeated_eq]
      rcases hStep : step parser with
        ⟨failure | value | value, after⟩
      · rfl
      · have hLess := progress _ _ _ hStep
        dsimp only
        rw [bind_apply, ih (by omega)]
        rcases repeated step progress after with
          ⟨failure | ⟨values, final⟩, left⟩ <;> rfl
      · rfl

/- A loop that ends, whatever it is bounded with. -/
def Ends
    (step : Act (Round α β)) : Prop :=
  ∃ progress : Progresses step,
    ∀ bound limit parser, parser.rest.length < limit →
      rounds step bound limit parser =
        repeated step progress parser

theorem Progresses.ends
    {step : Act (Round α β)}
    (progress : Progresses step) :
    Ends step :=
  ⟨progress, fun bound _ _ =>
    rounds_eq_repeated progress bound⟩

-- Types

theorem type_eq
    (order : Order) :
    type order = typeAround order (type order) := by
  funext parser
  rw [follows_type, idlType_eq]
  exact (follows_typeAround order
    (follows_type order) _).symm

end Act

/-
  The act with a limit is broken off at such texts, and is
  the act without one at all others.
-/
structure Limited.Breaks
    {α : Type}
    (limited : Limited α)
    (act : Act α)
    (deep : Text → Prop) : Prop where
  off : ∀ parser : Parser, deep parser.rest →
    limited parser = none
  not : ∀ parser : Parser, ¬ deep parser.rest →
    limited parser = some (act parser)

namespace Limited

variable {α β : Type}

theorem bind_apply
    (first : Limited α)
    (next : α → Limited β)
    (parser : Parser) :
    (first >>= next) parser =
      match first parser with
      | none => none
      | some (.error failure, after) =>
          some (.error failure, after)
      | some (.ok value, after) => next value after :=
  rfl

theorem breaks_ofAct
    (act : Act α) :
    Breaks (ofAct act) act fun _ => False :=
  ⟨fun _ h => h.elim, fun _ _ => rfl⟩

namespace Breaks

variable {limited : Limited α} {act : Act α}
variable {deep : Text → Prop}

theorem of_iff
    {other : Text → Prop}
    (h : Breaks limited act deep)
    (hIff : ∀ text, other text ↔ deep text) :
    Breaks limited act other :=
  ⟨fun _ hOther => h.off _ ((hIff _).mp hOther),
    fun _ hNot => h.not _ fun hDeep =>
      hNot ((hIff _).mpr hDeep)⟩

/- It is broken off early, or where the first one leaves. -/
theorem bind
    {scan : Scan α}
    {next : α → Limited β}
    {then_ : α → Act β}
    {inner : α → Text → Prop}
    (h : Breaks limited act deep)
    (hScan : Act.Follows act scan)
    (hNext : ∀ value,
      Breaks (next value) (then_ value) (inner value)) :
    Breaks (limited >>= next) (act >>= then_) fun text =>
      deep text ∨ ∃ value rest,
        scan text = .ok (value, rest) ∧ inner value rest := by
  have hRun (parser : Parser) (hNot : ¬ deep parser.rest) :
      limited parser =
        some (parser.reading (scan parser.rest)) := by
    rw [h.not parser hNot, hScan]
  constructor
  · intro parser hDeep
    by_cases hHere : deep parser.rest
    · rw [bind_apply, h.off parser hHere]
    · rcases hDeep with hDeep | ⟨value, rest, hRest, hInner⟩
      · exact absurd hDeep hHere
      · rw [bind_apply, hRun parser hHere, hRest]
        exact (hNext value).off (parser.moved rest) hInner
  · intro parser hNot
    rw [bind_apply, hRun parser fun hDeep => hNot (.inl hDeep),
      Act.bind_apply, hScan]
    cases hRest : scan parser.rest with
    | error failure => rfl
    | ok pair =>
        refine (hNext pair.1).not (parser.moved pair.2) ?_
        exact fun hInner => hNot (.inr ⟨_, _, hRest, hInner⟩)

theorem labelled
    (h : Breaks limited act deep)
    (label : Label) :
    Breaks (Limited.labelled label limited)
      (Act.labelled label act) deep := by
  constructor
  · intro parser hDeep
    exact congrArg (Option.map _)
      (h.off
        { parser with labels := parser.labels ++ [label] }
        hDeep)
  · intro parser hNot
    exact congrArg (Option.map _)
      (h.not
        { parser with labels := parser.labels ++ [label] }
        hNot)

/- It goes on past the first of several that stands there. -/
theorem choosing
    {κ : Type}
    {look : κ → Text → Option Text}
    {choices : List κ}
    {next : Option κ → Limited α}
    {then_ : Option κ → Act α}
    {found : κ → Text → Prop}
    {missing : Text → Prop}
    (hFound : ∀ choice,
      Breaks (next (some choice)) (then_ (some choice))
        (found choice))
    (hMissing : Breaks (next none) (then_ none) missing) :
    Breaks (ofAct (Act.accepting? look choices) >>= next)
      (Act.accepting? look choices >>= then_) fun text =>
        match
          choices.findSome? fun choice =>
            (look choice text).map fun rest => (choice, rest)
        with
        | some (choice, rest) => found choice rest
        | none => missing text := by
  constructor
  · intro parser
    rw [bind_apply, ofAct, Act.follows_accepting?,
      Scan.choosingEach]
    cases choices.findSome? _ with
    | none => exact hMissing.off parser
    | some pair =>
        exact (hFound pair.1).off (parser.moved pair.2)
  · intro parser
    rw [bind_apply, ofAct, Act.bind_apply,
      Act.follows_accepting?, Scan.choosingEach]
    cases choices.findSome? _ with
    | none => exact hMissing.not parser
    | some pair =>
        exact (hFound pair.1).not (parser.moved pair.2)

end Breaks

/-
  Is a composed type broken off past its opening, given
  where the types inside it are? The value of a map is read
  only after its key and a comma.
-/
def IsDeep
    (order : Order)
    (deep : Text → Prop)
    (generic : Generic)
    (text : Text) : Prop :=
  deep text ∨
    generic = .map ∧ ∃ key between after,
      idlType order text = .ok (key, between) ∧
        symbol ',' between = .ok ((), after) ∧ deep after

/-
  Does it take more than so many open calls to read a type
  at a text? Each type inside a composed one takes a call
  more.
-/
def Nests
    (order : Order) : Nat → Text → Prop
  | 0, _ => True
  | calls + 1, text =>
      firstKeyword? Primitive.word order.primitives text =
          none ∧
        ∃ generic rest,
          firstGeneric? order.generics text =
              some (generic, rest) ∧
            IsDeep order (Nests order calls) generic rest

section Types

variable {order : Order} {nested : Limited IdlType}
variable {deep : Text → Prop}

theorem Breaks.composed
    (h : Breaks nested (Act.type order) deep)
    (generic : Generic) :
    Breaks (Limited.composed nested generic)
      (Act.composed (Act.type order) generic)
      (IsDeep order deep generic) := by
  have hType := Act.follows_type order
  have hSymbol (c : Char) := Act.follows_symbol c
  have hLast (c : Char) (found : IdlType) :=
    (breaks_ofAct (Act.symbol c)).bind (hSymbol c)
      fun _ => breaks_ofAct (pure found)
  cases generic with
  | list =>
      refine (h.bind hType fun element =>
        hLast '>' (.list element)).of_iff ?_
      simp [IsDeep]
  | map =>
      refine (h.bind hType fun key =>
        (breaks_ofAct (Act.symbol ',')).bind (hSymbol ',')
          fun _ => h.bind hType fun value =>
            hLast '>' (.map key value)).of_iff ?_
      intro text
      constructor
      · rintro (hDeep |
          ⟨_, key, between, after, hKey, hComma, hDeep⟩)
        · exact .inl hDeep
        · exact .inr ⟨key, between, hKey,
            .inr ⟨(), after, hComma, .inl hDeep⟩⟩
      · rintro (hDeep | ⟨key, between, hKey, hRest⟩)
        · exact .inl hDeep
        · have hValue : ∃ read after, symbol ',' between =
              .ok (read, after) ∧ deep after := by
            simpa using hRest
          rcases hValue with ⟨_, after, hComma, hDeep⟩
          exact .inr ⟨rfl, key, between, after, hKey, hComma,
            hDeep⟩

theorem Breaks.typeAround
    (h : Breaks nested (Act.type order) deep) :
    Breaks (Limited.typeAround order nested)
      (Act.type order) fun text =>
        firstKeyword? Primitive.word order.primitives text =
            none ∧
          ∃ generic rest,
            firstGeneric? order.generics text =
                some (generic, rest) ∧
              IsDeep order deep generic rest := by
  rw [Act.type_eq]
  refine ((Breaks.choosing (fun _ => breaks_ofAct _)
    (Breaks.choosing h.composed
      (breaks_ofAct _))).labelled .type).of_iff ?_
  intro text
  rw [firstKeyword?]
  cases order.primitives.findSome? _ with
  | some pair => simp
  | none =>
      rw [firstGeneric?]
      cases order.generics.findSome? _ with
      | none => simp
      | some pair => rcases pair; simp [and_assoc]

/- Types are broken off just where they nest too deep. -/
theorem breaks_type
    (order : Order)
    (calls : Nat) :
    Breaks (type order calls) (Act.type order)
      (Nests order calls) := by
  induction calls with
  | zero =>
      exact ⟨fun _ _ => rfl, fun _ hNot => absurd trivial hNot⟩
  | succ calls ih => exact ih.typeAround

theorem Nests.le_length
    {calls : Nat}
    {text : Text}
    (h : Nests order calls text) :
    calls ≤ text.length := by
  induction calls generalizing text with
  | zero => exact Nat.zero_le _
  | succ calls ih =>
      rcases h with ⟨_, generic, rest, hOpen, hDeep⟩
      have hRest := (firstGeneric?_suffix hOpen).2
      rcases hDeep with
        hDeep | ⟨_, key, between, after, hKey, hComma, hDeep⟩
      · have hCalls := ih hDeep
        omega
      · have hCalls := ih hDeep
        have hKey := (consumes_idlType order _ _ _ hKey).2
        have hComma := (consumes_symbol ',' _ _ _ hComma).2
        omega

end Types

/- A list of lists, opened so often and never closed. -/
def openings
    (depth : Nat) : Text :=
  (List.replicate depth "list<".toList).flatten

/- Each opening takes a call more. -/
theorem nests_openings
    {calls depth : Nat}
    (h : calls ≤ depth) :
    Nests Order.usual calls (openings depth) := by
  induction calls generalizing depth with
  | zero => trivial
  | succ calls ih =>
      rcases depth with _ | depth
      · omega
      · refine ⟨?_, .list, openings depth, ?_,
          .inl (ih (by omega))⟩
        · rfl
        · rfl

theorem breaks_completeType
    (order : Order)
    (calls : Nat) :
    Breaks (completeType order calls)
      (Act.completeType order) (Nests order calls) := by
  refine ((breaks_type order calls).bind
    (Act.follows_type order) fun found =>
      breaks_ofAct (do
        Act.passing skipSpace
        if ← Act.ended then pure found
        else Act.fail .afterType)).of_iff ?_
  simp

end Limited

/- A call is broken off just if its type nests too deep. -/
theorem Parser.breaks_typeWithin
    (calls : Nat)
    (parser : Parser) :
    (Limited.Nests Order.usual calls parser.source →
        parser.typeWithin calls = none) ∧
      (¬ Limited.Nests Order.usual calls parser.source →
        parser.typeWithin calls = some parser.type) := by
  have hBreaks := (Limited.breaks_completeType Order.usual
    calls).labelled .type
  unfold typeWithin
  constructor
  · intro hNests
    rw [hBreaks.off parser.started hNests]
    rfl
  · intro hNot
    rw [hBreaks.not parser.started hNot]
    rfl

namespace Act

-- All Loops

/- Productions that succeed move the cursor. -/
structure ProductionsMoveOn
    (order : Order) : Prop where
  definition : ∀ before,
    MovesOn (topDefinition order before)
  field : ∀ before, MovesOn (field order before)
  enumMember : ∀ before, MovesOn (enumMember before)
  function : ∀ before, MovesOn (function order before)
  type : MovesOn (type order)
  annotation : MovesOn annot
  comment : MovesOn nextComment (· ≠ .last ())
  beside : MovesOn inlineComment (· ≠ [])

theorem productionsMoveOn
    (order : Order) :
    ProductionsMoveOn order where
  definition := movesOn_topDefinition order
  field before := (follows_field order before).movesOn
    (consumes_field order before)
  enumMember before := (follows_enumMember before).movesOn
    (consumes_enumMember before)
  function before := (follows_function order before).movesOn
    (consumes_function order before)
  type :=
    (follows_type order).movesOn (consumes_idlType order)
  annotation := follows_annot.movesOn consumes_annot
  comment := by
    refine follows_nextComment.movesOn_of ?_
    intro text round rest hScan hFound
    cases round with
    | last => exact absurd rfl hFound
    | more found => exact progresses_nextComment _ _ _ hScan
  beside := movesOn_inlineComment

/- What does not stand there is not passed. -/
structure LooksStay : Prop where
  keyword : ∀ word,
    Stays (accepting (keyword? word)) (· = false)
  generic : ∀ generic,
    Stays (accepting (generic? generic)) (· = false)
  separator : ∀ parser : Parser,
    (∀ c ∈ (skipSpace parser.rest).head?,
      c ≠ ',' ∧ c ≠ ';') →
        separator parser = (.ok (), parser)
  beside : Stays inlineComment (· = [])
  annotations : Stays annotations? (· = none)
  attempt : ∀ {α} (act : Act α),
    Stays (attempt act) (· = none)

theorem looksStay : LooksStay where
  keyword _ := stays_accepting _
  generic _ := stays_accepting _
  separator := separator_eq
  beside := stays_optional (by simp)
  annotations := stays_optional (by simp)
  attempt := stays_attempt

/- Loops end, with no bound reached on their rounds. -/
structure LoopsEnd
    (order : Order) : Prop where
  definitions : Ends (nextDefinition order)
  fields : ∀ closing,
    Ends (nextMember (field order) closing)
  enumMembers : ∀ closing,
    Ends (nextMember enumMember closing)
  functions : ∀ closing,
    Ends (nextMember (function order) closing)
  comments : Ends nextComment
  annotations : Ends nextAnnot

theorem loopsEnd
    (order : Order) :
    LoopsEnd order where
  definitions := (progresses_nextDefinition order).ends
  fields closing := (progresses_nextMember
    (follows_field order) (consumes_field order)
    closing).ends
  enumMembers closing := (progresses_nextMember
    follows_enumMember consumes_enumMember closing).ends
  functions closing := (progresses_nextMember
    (follows_function order) (consumes_function order)
    closing).ends
  comments := (follows_nextComment.progresses
    progresses_nextComment).ends
  annotations := (follows_nextAnnot.progresses
    progresses_nextAnnot).ends

/-
  Types in types end too, but each one inside another takes
  a call more. Where a type takes more calls than may be
  open at once, it is broken off; anywhere else it is read
  as without a limit. It never takes more calls than there
  are characters left.
-/
structure TypesEnd
    (order : Order) : Prop where
  within : ∀ calls,
    Limited.Breaks (Limited.type order calls) (type order)
      (Limited.Nests order calls)
  ends : ∀ calls text, text.length < calls →
    ¬ Limited.Nests order calls text
  call : ∀ calls (parser : Parser),
    (Limited.Nests Order.usual calls parser.source →
        parser.typeWithin calls = none) ∧
      (¬ Limited.Nests Order.usual calls parser.source →
        parser.typeWithin calls = some parser.type)

theorem typesEnd
    (order : Order) :
    TypesEnd order where
  within := Limited.breaks_type order
  ends _ _ hFewer hNests :=
    Nat.not_lt.mpr hNests.le_length hFewer
  call := Parser.breaks_typeWithin

/-
  Loops and recursions of a parser make progress. Each
  production that succeeds moves the cursor further on, and
  not beyond the end. What is optional and does not stand
  there leaves the cursor where it was. So all loops end on
  every source, with no bound reached on their rounds. Types
  in types end as well, and the calls that are open at once
  can be too many only for a type that nests so deep.
-/
theorem productions_make_progress
    (order : Order) :
    ProductionsMoveOn order ∧ LooksStay ∧
      LoopsEnd order ∧ TypesEnd order :=
  ⟨productionsMoveOn order, looksStay, loopsEnd order,
    typesEnd order⟩

/-
  A source may nest deeper than an interpreter allows: a list
  that is opened eleven hundred times is broken off, even if
  all calls there may be were for types.
-/
theorem deep_lists_are_broken_off :
    (Parser.new (Limited.openings 1100)).typeWithin callLimit =
      none :=
  (Parser.breaks_typeWithin callLimit _).1
    (Limited.nests_openings (by decide))

end Act

end Idl

end ThriftTypings
