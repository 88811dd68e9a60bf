import ThriftTypings.Proofs.Idl.WellFormed
import ThriftTypings.Proofs.Text.Decimal
import ThriftTypings.Proofs.TypeScript.Tidiness

/-
  This file proves which values the members of enums have in
  emitted code: the integer that is written, without zeros
  to spare, or else the position of the member. A value with
  too many digits is the only thing that keeps a document
  from being emitted.

  Key definitions include:
    * `Idl.Document.enums` and `Idl.Document.initializers`
    * `Idl.EnumMember.valueAt`

  Key theorems include:
    * `declarationsFrom_eq_error_iff`
    * `Generator.emits_enum_values`
-/

namespace ThriftTypings

-- Initializers

namespace Idl

/- The enum that a definition is, if it is one. -/
def Definition.enum? : Definition → Option EnumDef
  | .enum found => some found
  | _ => none

/- The values that are written in an enum, in order. -/
def EnumDef.initializers
    (found : EnumDef) : List Text :=
  found.members.filterMap EnumMember.value

/- The enums of a document. -/
def Document.enums
    (document : Document) : List EnumDef :=
  document.body.filterMap Definition.enum?

/- The values that are written anywhere in a document. -/
def Document.initializers
    (document : Document) : List Text :=
  document.enums.flatMap EnumDef.initializers

/-
  The value of a member at some position: what is written,
  or else the position. Nothing else has a part in it.
-/
def EnumMember.valueAt
    (position : Nat)
    (found : EnumMember) : Int :=
  match found.value with
  | some number => Text.denoted number
  | none => position

/- A number of a document is read for what it denotes. -/
theorem IsSigned.toInteger_eq
    {number : Text}
    (h : IsSigned number) :
    Text.toInteger number =
      if Text.digitLimit < (Text.digitsOf number).length then
        .error (.tooLong (Text.digitsOf number).length)
      else .ok (Text.denoted number) := by
  rcases h with hDigits | ⟨digits, hDigits, rfl⟩
  · exact Text.toInteger_digits hDigits.1 hDigits.2
  · exact Text.toInteger_minus hDigits.1 hDigits.2

end Idl

namespace TypeScript

open Idl

/- What the first number with too many digits is refused for. -/
def firstFault
    (numbers : List Text) : Option IntegerFault :=
  (numbers.find? fun number =>
    Text.digitLimit < (Text.digitsOf number).length).map
      fun number => .tooLong (Text.digitsOf number).length

theorem firstFault_append
    (first second : List Text) :
    firstFault (first ++ second) =
      (firstFault first).or (firstFault second) := by
  simp only [firstFault, List.find?_append, Option.map_or]

/- A fault names the length of a number that is too long. -/
theorem exists_of_firstFault
    {numbers : List Text}
    {fault : IntegerFault}
    (h : firstFault numbers = some fault) :
    ∃ number ∈ numbers,
      Text.digitLimit < (Text.digitsOf number).length ∧
        fault = .tooLong (Text.digitsOf number).length := by
  rcases Option.map_eq_some_iff.mp h with
    ⟨number, hFound, rfl⟩
  exact ⟨number, List.mem_of_find?_eq_some hFound,
    by simpa using List.find?_some hFound, rfl⟩

theorem firstFault_isSome_iff
    {numbers : List Text} :
    (∃ fault, firstFault numbers = some fault) ↔
      ∃ number ∈ numbers,
        Text.digitLimit < (Text.digitsOf number).length := by
  rw [← Option.isSome_iff_exists, firstFault,
    Option.isSome_map, List.find?_isSome]
  simp

-- Constants

/- A member has its value, unless that is too long. -/
theorem memberValue_eq
    {found : EnumMember}
    (h : ∀ number ∈ found.value, IsSigned number)
    (position : Nat) :
    memberValue position found =
      (firstFault found.value.toList).elim
        (.ok (found.valueAt position)) .error := by
  unfold memberValue EnumMember.valueAt
  cases hValue : found.value with
  | none => rfl
  | some number =>
      simp only [(h number (by simp [hValue])).toInteger_eq,
        firstFault, Option.toList_some]
      by_cases hLong :
          Text.digitLimit < (Text.digitsOf number).length
      · simp [hLong]
      · simp [hLong]

/- The entry of an enum member at some position. -/
def constantAt
    (position : Nat)
    (found : EnumMember) : Constant :=
  Generator.constantOf found (found.valueAt position)

/- The members of an enum have their values, or one fails. -/
theorem constantsFrom_eq
    {members : List EnumMember}
    (h : ∀ found ∈ members,
      ∀ number ∈ found.value, IsSigned number)
    (position : Nat) :
    constantsFrom position members =
      (firstFault (members.filterMap EnumMember.value)).elim
        (.ok (members.mapIdx fun i found =>
          constantAt (position + i) found))
        .error := by
  induction members generalizing position with
  | nil => rfl
  | cons found more ih =>
      have hFound := memberValue_eq (h found (by simp)) position
      have hMore := ih (fun other hMem =>
        h other (by simp [hMem])) (position + 1)
      have hNumbers :
          (found :: more).filterMap EnumMember.value =
            found.value.toList ++
              more.filterMap EnumMember.value := by
        cases hValue : found.value <;> simp [hValue]
      have hEntries :
          (found :: more).mapIdx (fun i other =>
              constantAt (position + i) other) =
            constantAt position found ::
              more.mapIdx fun i other =>
                constantAt (position + 1 + i) other := by
        simp [List.mapIdx_cons, Nat.add_assoc, Nat.add_comm 1]
      rw [Generator.constantsFrom_cons, hFound, hMore,
        hNumbers, hEntries, firstFault_append]
      cases firstFault found.value.toList with
      | some fault => rfl
      | none =>
          cases firstFault (more.filterMap EnumMember.value) with
          | some fault => rfl
          | none => rfl

-- Documents

/- The values that are written in a definition. -/
def initializersOf
    (definition : Definition) : List Text :=
  definition.enum?.toList.flatMap EnumDef.initializers

theorem initializers_eq
    (document : Document) :
    document.initializers =
      document.body.flatMap initializersOf := by
  rw [Document.initializers, Document.enums,
    List.filterMap_eq_flatMap_toList, List.flatMap_assoc]
  rfl

/- The members of a well-formed enum have proper numbers. -/
theorem isSigned_of_mem
    {found : EnumDef}
    (h : (Definition.enum found).WellFormed) :
    ∀ member ∈ found.members,
      ∀ number ∈ member.value, IsSigned number :=
  fun member hMem => (h.content.2 member hMem).value

/- A definition fails for its first number that is too long. -/
theorem declaration_eq_error_iff
    {definition : Definition}
    (h : definition.WellFormed)
    {taken : List Text}
    {fault : IntegerFault} :
    declaration taken definition = .error fault ↔
      firstFault (initializersOf definition) = some fault := by
  cases definition with
  | enum found =>
      have hConstants := constantsFrom_eq (isSigned_of_mem h) 0
      have hNumbers : initializersOf (.enum found) =
          found.members.filterMap EnumMember.value := by
        simp [initializersOf, Definition.enum?,
          EnumDef.initializers]
      rw [declaration, hConstants, hNumbers]
      cases firstFault
          (found.members.filterMap EnumMember.value) with
      | none => simp
      | some other => simp
  | _ => simp [declaration, initializersOf, Definition.enum?,
      firstFault]

/- So does a document, for the first one in it. -/
theorem declarationsFrom_eq_error_iff
    {body : List Definition}
    (h : ∀ definition ∈ body, definition.WellFormed)
    {taken : List Text}
    {fault : IntegerFault} :
    declarationsFrom taken body = .error fault ↔
      firstFault (body.flatMap initializersOf) =
        some fault := by
  induction body generalizing taken with
  | nil => simp [declarationsFrom, firstFault]
  | cons definition more ih =>
      have hFirst (other : IntegerFault) :=
        @declaration_eq_error_iff definition
          (h definition (by simp)) taken other
      have hMore (others : List Text) :=
        @ih (fun other hMem => h other (by simp [hMem])) others
      rw [List.flatMap_cons, firstFault_append,
        declarationsFrom]
      cases hDeclared : declaration taken definition with
      | error other =>
          rw [(hFirst other).mp hDeclared]
          simp
      | ok found =>
          have hNone : firstFault (initializersOf definition) =
              none := by
            refine Option.eq_none_iff_forall_not_mem.mpr ?_
            intro other hSome
            rw [(hFirst other).mpr hSome] at hDeclared
            cases hDeclared
          rw [hNone, Option.none_or, ← hMore]
          dsimp only
          cases declarationsFrom (takenAfter taken found) more <;>
            simp

-- Emitted Values

/- The constant object that an item is, if it is one. -/
def Item.constants? : Item → Option (Text × List EntryTree)
  | .constants name entries => some (name, entries)
  | _ => none

/- A constant object with the members and values of an enum. -/
def HasValues
    (found : EnumDef)
    (object : Text × List EntryTree) : Prop :=
  object.1 = bindingName found.name ∧
    object.2.map (fun entry => (entry.1.name, entry.2)) =
      found.members.mapIdx fun position member =>
        (member.name, member.valueAt position)

/- An entry on a line of its own, in its only spelling. -/
def IsSpelled
    (text : Text)
    (entry : EntryTree) : Prop :=
  ∃ number, Text.IsCanonical number ∧
    Text.denoted number = entry.2 ∧
    "  ".toList ++ propertyKey entry.1.name ++
      ": ".toList ++ number ++ ",".toList ∈ textLines text

/- An enum is declared with its members and values. -/
theorem hasValues_of_declaration
    {taken : List Text}
    {definition : Definition}
    {found : Declaration}
    (hFits : definition.WellFormed)
    (h : declaration taken definition = .ok found) :
    Option.Rel HasValues definition.enum?
      (found.item?.bind Item.constants?) := by
  cases definition with
  | enum definition =>
      have hConstants :=
        constantsFrom_eq (isSigned_of_mem hFits) 0
      rw [declaration, hConstants] at h
      cases hFault : firstFault
          (definition.members.filterMap EnumMember.value) with
      | some fault =>
          rw [hFault] at h
          cases h
      | none =>
          rw [hFault] at h
          cases h
          refine .some ⟨rfl, ?_⟩
          refine List.ext_getElem? fun position => ?_
          simp only [List.getElem?_map, List.getElem?_mapIdx,
            Option.map_map, Function.comp_def, constantAt,
            Constant.tree, Generator.constantOf,
            Key.name_ofName, Nat.zero_add]
  | _ =>
      cases h
      exact .none

theorem mem_lines_constant
    (constant : Constant) :
    "  ".toList ++ propertyKey constant.name ++
        ": ".toList ++ Text.ofInt constant.value ++
        ",".toList ∈
      constant.lines := by
  have hLine := lineAt_concat 1
    (propertyKey constant.name ++ ": ".toList ++
      Text.ofInt constant.value)
    (by decide : Text.isBlank ',' = false)
  have hMargin : margin 1 = "  ".toList := by decide
  rw [hMargin] at hLine
  refine List.mem_append_right _ (List.mem_singleton.mpr ?_)
  simp only [List.append_assoc] at hLine ⊢
  exact hLine.symm

/- Every entry of a constant object is spelled in the text. -/
theorem isSpelled_of_declarationsFrom
    {taken : List Text}
    {body : List Definition}
    {declarations : List Declaration}
    (h : declarationsFrom taken body = .ok declarations)
    (trailing : List Text)
    {object : Text × List EntryTree}
    (hObject : object ∈
      (declarations.filterMap Declaration.item?).filterMap
        Item.constants?) :
    ∀ entry ∈ object.2,
      IsSpelled (Module.text ⟨declarations, trailing⟩)
        entry := by
  rcases List.mem_filterMap.mp hObject with
    ⟨item, hItem, hConstants⟩
  rcases List.mem_filterMap.mp hItem with
    ⟨found, hFound, hDeclared⟩
  cases found with
  | constants doc name members closing =>
      cases hDeclared
      cases hConstants
      intro entry hEntry
      rcases List.mem_map.mp hEntry with
        ⟨constant, hMem, rfl⟩
      refine ⟨Text.ofInt constant.value,
        Text.isCanonical_ofInt _, Text.denoted_ofInt _, ?_⟩
      refine mem_textLines_of_declared h trailing hFound ?_
      have hName : constant.tree.1.name = constant.name :=
        Key.name_ofName constant.name
      have hLine := mem_lines_constant constant
      rw [← hName] at hLine
      simp only [Declaration.lines, Declaration.block,
        List.mem_append, List.mem_flatMap]
      exact .inl (.inr (.inl (.inl (.inr
        ⟨constant, hMem, hLine⟩))))
  | standing doc => cases hDeclared
  | _ =>
      cases hDeclared
      cases hConstants

/- A document is not emitted for the same fault. -/
theorem generate_eq_error_iff
    {document : Document}
    {fault : IntegerFault} :
    generate document = .error fault ↔
      declarationsFrom [] document.body = .error fault := by
  unfold generate Module.ofDocument
  cases declarationsFrom [] document.body <;> simp

theorem isSigned_of_mem_initializers
    {document : Document}
    (h : document.WellFormed) :
    ∀ number ∈ document.initializers, IsSigned number := by
  intro number hNumber
  rcases List.mem_flatMap.mp hNumber with
    ⟨found, hFound, hMember⟩
  rcases List.mem_filterMap.mp hMember with
    ⟨member, hMem, hValue⟩
  rcases List.mem_filterMap.mp hFound with
    ⟨definition, hDefinition, hEnum⟩
  cases definition with
  | enum other =>
      cases hEnum
      exact isSigned_of_mem (h.body _ hDefinition) member hMem
        number hValue
  | _ => cases hEnum

/-
  The build of a document that was read fails for its first
  value with too many digits, if there is one. Otherwise the
  emitted objects have the members of the enums, with their
  values, in whatever state the generator has been before.
-/
theorem Generator.emits_enum_values
    {source : Text}
    {file : Option Text}
    {generator : Generator}
    (h : Document.parse source file = .ok generator.document)
    (options : Options) :
    (∀ number ∈ generator.document.initializers,
      IsSigned number) ∧
    ((∃ fault,
        (generator.build options).1 = .error fault) ↔
      ∃ number ∈ generator.document.initializers,
        4300 < (Text.digitsOf number).length) ∧
    (∀ fault, (generator.build options).1 = .error fault →
      ∃ number ∈ generator.document.initializers,
        4300 < (Text.digitsOf number).length ∧
          fault = .tooLong (Text.digitsOf number).length) ∧
    ∀ text, (generator.build options).1 = .ok text →
      ∃ items, readModule text = some items ∧
        List.Forall₂
          (fun found object =>
            HasValues found object ∧
              ∀ entry ∈ object.2, IsSpelled text entry)
          generator.document.enums
          (items.filterMap Item.constants?) := by
  have hFits := Document.wellFormed_of_read
    Order.isFull_usual (Document.parse_eq_ok_iff.mp h)
  have hFault (fault : IntegerFault) :
      (generator.build options).1 = .error fault ↔
        firstFault generator.document.initializers =
          some fault := by
    rw [(generator.build_eq_generate options).1,
      generate_eq_error_iff, initializers_eq]
    exact declarationsFrom_eq_error_iff hFits.body
  refine ⟨isSigned_of_mem_initializers hFits, ?_, ?_, ?_⟩
  · simp only [hFault]
    exact firstFault_isSome_iff
  · intro fault hError
    exact exists_of_firstFault ((hFault fault).mp hError)
  · intro text hText
    rw [(generator.build_eq_generate options).1] at hText
    rcases generate_eq_ok_iff.mp hText with
      ⟨declarations, hFrom, rfl⟩
    have hEach := forall₂_of_declarationsFrom
      (fun hMem => hasValues_of_declaration
        (hFits.body _ hMem)) hFrom
    have hValues : List.Forall₂ HasValues
        generator.document.enums
        ((declarations.filterMap Declaration.item?).filterMap
          Item.constants?) := by
      rw [List.filterMap_filterMap]
      exact List.rel_filterMap (fun _ _ hRel => hRel) hEach
    have hSpelled := (List.forall₂_and_left _ _).mpr
      ⟨fun object => isSpelled_of_declarationsFrom hFrom
        (commentEntries generator.document.trailing),
        hValues.flip⟩
    refine ⟨_, readModule_text hFrom _, ?_⟩
    exact hSpelled.flip.imp fun _ _ hBoth => hBoth.symm

/- Enums with signs, with zeros to spare and without values. -/
def signedDocument : Document where
  body :=
    [.enum
      { name := ['E']
        members :=
          [⟨['A'], some "-007".toList, []⟩, ⟨['B'], none, []⟩,
           ⟨['C'], some "-0".toList, []⟩]
        comments := []
        trailing := [] },
     .enum
      { name := ['F']
        members := [⟨['G'], none, []⟩]
        comments := []
        trailing := [] }]
  trailing := []

/- A generator that broke off in the middle of an enum. -/
def brokenGenerator : Generator where
  document := signedDocument
  options := {}
  page := ⟨1, ["export const E = \x7b".toList]⟩
  bindings := [['b']]
  previous := some .enum
  position := 7

theorem Generator.emits_values_after_breaking_off :
    Document.parse
        ("enum E \x7b A = -007, B C = -0 \x7d ".toList ++
          "enum F \x7b G \x7d".toList) none =
      .ok brokenGenerator.document ∧
    ∃ text, (brokenGenerator.build {}).1 = .ok text ∧
      ∃ items, readModule text = some items ∧
        List.Forall₂
          (fun found object =>
            HasValues found object ∧
              ∀ entry ∈ object.2, IsSpelled text entry)
          signedDocument.enums
          (items.filterMap Item.constants?) := by
  have hParse : Document.parse
      ("enum E \x7b A = -007, B C = -0 \x7d ".toList ++
        "enum F \x7b G \x7d".toList) none =
      .ok brokenGenerator.document := by
    decide +kernel
  exact ⟨hParse, _, rfl,
    (Generator.emits_enum_values hParse {}).2.2.2 _ rfl⟩

end TypeScript

end ThriftTypings
