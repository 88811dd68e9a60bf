import ThriftTypings.Proofs.TypeScript.Spelling

/-
  This file proves that emitted code is in the grammar, and
  that the document can be read back from it: one item for
  each definition that is no namespace, in order, with the
  names, types and values that the definition has.

  Key definitions include:
    * `TypeTree.ofIdl`
    * `Item.Shows`

  Key theorems include:
    * `readModule_text`
    * `generate_reads_back`
-/

namespace ThriftTypings

namespace TypeScript

open Idl

variable {taken : List Text}

-- Names

/- More characters of words make a longer identifier. -/
theorem isIdentifier_append
    {name more : Text}
    (hName : isIdentifier name = true)
    (hMore : ∀ c ∈ more,
      c = '$' ∨ Text.continuesWord c = true) :
    isIdentifier (name ++ more) = true := by
  have hWord : ∀ c ∈ more,
      Text.continuesWord (if c = '$' then '_' else c) =
        true := by
    intro c hc
    by_cases hDollar : c = '$'
    · rw [if_pos hDollar]
      decide
    · rw [if_neg hDollar]
      exact (hMore c hc).resolve_left hDollar
  cases name with
  | nil => exact absurd hName (by decide)
  | cons first rest =>
      unfold isIdentifier at hName ⊢
      simp only [List.cons_append, List.map_cons,
        List.map_append, Text.isWord, List.all_append,
        Bool.and_eq_true] at hName ⊢
      refine ⟨hName.1, hName.2, ?_⟩
      simpa using hWord

theorem safeChar_cases
    (c : Char) :
    safeChar c = '$' ∨
      Text.continuesWord (safeChar c) = true := by
  unfold safeChar
  split
  · next hSafe => exact hSafe
  · exact .inr (by decide)

theorem isIdentifier_sanitize
    (name : Text) :
    isIdentifier (sanitize name) = true := by
  unfold sanitize
  dsimp only
  split
  · next hSafe => exact hSafe
  · have hFirst : isIdentifier ['_'] = true := by decide
    refine isIdentifier_append hFirst ?_
    intro c hc
    rcases List.mem_map.mp hc with ⟨other, _, rfl⟩
    exact safeChar_cases other

/- No reserved word has an underscore in it. -/
theorem isBinding_of_underscore
    {name : Text}
    (hName : isIdentifier name = true)
    (hUnderscore : '_' ∈ name) :
    isBinding name = true := by
  have hWords : ∀ word ∈ reservedWords, '_' ∉ word := by
    decide
  have hFree : name ∉ reservedWords :=
    fun hMem => hWords name hMem hUnderscore
  simp [isBinding, hName, hFree]

theorem isBinding_bindingName
    (name : Text) :
    isBinding (bindingName name) = true := by
  have hSafe := isIdentifier_sanitize name
  unfold bindingName
  dsimp only
  split
  · refine isBinding_of_underscore ?_ (by simp)
    refine isIdentifier_append hSafe fun c hc => .inr ?_
    rw [List.mem_singleton.mp hc]
    decide
  · next hFree => simp [isBinding, hSafe, hFree]

/- The parts of a reference are those of the name, legal. -/
theorem pieces_typeReference
    {name head : Text}
    {members : List Text}
    (h : Text.pieces '.' name = head :: members) :
    Text.pieces '.' (typeReference name) =
      bindingName head :: members.map sanitize := by
  rw [typeReference, h]
  refine Text.pieces_joined (by simp) fun part hPart => ?_
  apply not_mem_of_isIdentifier
  rcases List.mem_cons.mp hPart with rfl | hMember
  · exact isIdentifier_of_isBinding
      (isBinding_bindingName head)
  · rcases List.mem_map.mp hMember with ⟨member, _, rfl⟩
    exact isIdentifier_sanitize member

theorem isBinding_candidate
    {base : Text}
    (h : isBinding base = true)
    (k : Nat) :
    isBinding (candidate base k) = true := by
  cases k with
  | zero => exact h
  | succ k =>
      simp only [candidate, List.append_assoc]
      refine isBinding_of_underscore ?_ (by simp)
      refine isIdentifier_append
        (isIdentifier_of_isBinding h) fun c hc => .inr ?_
      rcases List.mem_cons.mp hc with rfl | hDigit
      · decide
      · exact continuesWord_of_mem_ofNat hDigit

-- Types

/- The type that stands for a built-in one. -/
def TypeTree.ofPrimitive : Primitive → TypeTree
  | .void => .void
  | .string => .named "string".toList []
  | .bool => .named "boolean".toList []
  | .i16 => .named "number".toList []
  | .i32 => .named "number".toList []
  | .i64 => .named "number".toList []
  | .double => .named "number".toList []

/-
  The type of the same shape: lists are arrays, maps are
  records, and a dotted name has a declared name in front.
-/
def TypeTree.ofIdl : IdlType → TypeTree
  | .primitive name => .ofPrimitive name
  | .list element => .array (ofIdl element)
  | .map key value => .record (ofIdl key) (ofIdl value)
  | .named name =>
      .named (bindingName ((Text.pieces '.' name).headD []))
        ((Text.pieces '.' name).tail.map sanitize)

theorem wellFormed_ofIdl
    (type : IdlType) :
    (TypeTree.ofIdl type).WellFormed := by
  induction type with
  | primitive name =>
      cases name with
      | void => trivial
      | _ => exact ⟨by decide, by simp⟩
  | list element ih => exact ih
  | map key value ihKey ihValue => exact ⟨ihKey, ihValue⟩
  | named name =>
      refine ⟨isBinding_bindingName _, ?_⟩
      intro part hPart
      rcases List.mem_map.mp hPart with ⟨member, _, rfl⟩
      exact isIdentifier_sanitize member

/- The type of an emitted type expression is of that shape. -/
theorem tree_ofIdl
    (type : IdlType) :
    (TypeExpr.ofIdl type).tree = TypeTree.ofIdl type := by
  induction type with
  | primitive name => cases name <;> rfl
  | list element ih => exact congrArg TypeTree.array ih
  | map key value ihKey ihValue =>
      simp [TypeExpr.ofIdl, TypeExpr.tree, TypeTree.ofIdl,
        ihKey, ihValue]
  | named name =>
      rcases Text.exists_pieces '.' name with
        ⟨head, members, hPieces⟩
      simp [TypeExpr.ofIdl, TypeExpr.tree, TypeTree.ofIdl,
        TypeTree.dotted, hPieces,
        pieces_typeReference hPieces]

-- What Items Show

/- A property that shows a field. -/
def ShowsField
    (field : Field) : Member → Prop
  | .property key optional type =>
      key.name = field.name ∧
        (optional = true ↔
          field.requiredness = some .optional) ∧
        type = TypeTree.ofIdl field.type
  | .method _ _ _ => False

/- A method that shows a function, with its parameters. -/
def ShowsFunction
    (function : Function) : Member → Prop
  | .property _ _ _ => False
  | .method key parameters result =>
      key.name = function.name ∧
        parameters = function.fields.map (fun field =>
          (bindingName field.name,
            TypeTree.ofIdl field.type)) ∧
        result = TypeTree.ofIdl function.returnType

/-
  An entry that shows an enum member at some position. Its
  value is the one written, or else the position.
-/
def ShowsMember
    (found : EnumMember × Nat)
    (entry : EntryTree) : Prop :=
  entry.1.name = found.1.name ∧
    match found.1.value with
    | some written => Text.toInteger written = .ok entry.2
    | none => entry.2 = found.2

/-
  An item that shows a definition. An import has the name of
  its module, with a number after it if that is taken.
-/
def Item.Shows : Definition → Item → Prop
  | .inclusion found, .importing binding specifier =>
      (∃ k, binding = candidate
        (bindingName (Path.moduleStem found.path)) k) ∧
        specifier = Path.importSpecifier found.path
  | .struct found, .interface name members =>
      name = bindingName found.name ∧
        List.Forall₂ ShowsField found.fields members
  | .service found, .interface name members =>
      name = bindingName found.name ∧
        List.Forall₂ ShowsFunction found.functions members
  | .enum found, .constants name entries =>
      name = bindingName found.name ∧
        List.Forall₂ ShowsMember found.members.zipIdx entries
  | _, _ => False

-- Declarations

theorem shows_ofField
    (field : Field) :
    (Property.ofField field).tree.WellFormed ∧
      ShowsField field (Property.ofField field).tree := by
  have hType := tree_ofIdl field.type
  have hFits := wellFormed_ofIdl field.type
  simp only [Property.tree, Property.ofField, hType]
  refine ⟨⟨Key.wellFormed_ofName _, hFits⟩, ?_, ?_, rfl⟩
  · exact Key.name_ofName _
  · exact beq_iff_eq

theorem shows_ofFunction
    (function : Function) :
    (Method.ofFunction function).tree.WellFormed ∧
      ShowsFunction function
        (Method.ofFunction function).tree := by
  have hType := tree_ofIdl function.returnType
  have hFits := wellFormed_ofIdl function.returnType
  simp only [Method.tree, Method.ofFunction, List.map_map,
    hType]
  refine ⟨⟨Key.wellFormed_ofName _, ?_, hFits⟩, ?_, ?_, rfl⟩
  · intro parameter hMem
    rcases List.mem_map.mp hMem with ⟨field, _, rfl⟩
    refine ⟨isBinding_bindingName field.name, ?_⟩
    simp only [Function.comp_apply, Parameter.tree,
      tree_ofIdl]
    exact wellFormed_ofIdl field.type
  · exact Key.name_ofName _
  · simp [Parameter.tree, tree_ofIdl]

/- The entries show the members, at their positions. -/
theorem shows_constantsFrom
    {position : Nat}
    {members : List EnumMember}
    {constants : List Constant}
    (h : constantsFrom position members = .ok constants) :
    List.Forall₂ ShowsMember (members.zipIdx position)
      (constants.map Constant.tree) := by
  induction members generalizing position constants with
  | nil =>
      cases h
      exact .nil
  | cons found more ih =>
      rcases constantsFrom_cons_eq_ok_iff.mp h with
        ⟨value, others, hValue, hOthers, rfl⟩
      refine .cons ⟨Key.name_ofName _, ?_⟩ (ih hOthers)
      unfold memberValue at hValue
      dsimp only
      cases hWritten : found.value with
      | none =>
          rw [hWritten] at hValue
          cases hValue
          rfl
      | some written =>
          rw [hWritten] at hValue
          exact hValue

/- A definition that is no namespace is shown by its item. -/
theorem shows_of_declaration
    {definition : Definition}
    {found : Declaration}
    (h : declaration taken definition = .ok found)
    (hKind : definition.kind ≠ .nameSpace) :
    ∃ item, found.item? = some item ∧
      item.WellFormed ∧ Item.Shows definition item := by
  have hName (name : Text) := isBinding_bindingName name
  cases definition with
  | nameSpace definition => exact absurd rfl hKind
  | inclusion definition =>
      cases h
      rcases importBinding_eq_candidate taken definition.path
        with ⟨k, hBinding⟩
      refine ⟨_, rfl, ?_, ⟨k, hBinding⟩, rfl⟩
      rw [hBinding]
      exact isBinding_candidate (hName _) k
  | struct definition =>
      cases h
      refine ⟨_, rfl, ⟨hName _, ?_⟩, rfl, ?_⟩
      · simp only [List.map_map]
        intro member hMem
        rcases List.mem_map.mp hMem with ⟨field, _, rfl⟩
        exact (shows_ofField field).1
      · simp only [List.map_map, List.forall₂_map_right_iff]
        exact List.forall₂_same.mpr fun field _ =>
          (shows_ofField field).2
  | enum definition =>
      rcases declaration_enum_eq_ok_iff.mp h with
        ⟨constants, hConstants, rfl⟩
      refine ⟨_, rfl, ⟨hName _, ?_⟩, rfl,
        shows_constantsFrom hConstants⟩
      intro entry hMem
      rcases List.mem_map.mp hMem with ⟨constant, _, rfl⟩
      exact Key.wellFormed_ofName constant.name
  | service definition =>
      cases h
      refine ⟨_, rfl, ⟨hName _, ?_⟩, rfl, ?_⟩
      · simp only [List.map_map]
        intro member hMem
        rcases List.mem_map.mp hMem with ⟨function, _, rfl⟩
        exact (shows_ofFunction function).1
      · simp only [List.map_map, List.forall₂_map_right_iff]
        exact List.forall₂_same.mpr fun function _ =>
          (shows_ofFunction function).2

/- The definitions that are no namespaces are shown in turn. -/
theorem shows_of_declarationsFrom
    {body : List Definition}
    {declarations : List Declaration}
    (h : declarationsFrom taken body = .ok declarations) :
    (∀ found ∈ declarations,
      ∀ item ∈ found.item?, item.WellFormed) ∧
    List.Forall₂ Item.Shows
      (body.filter (·.kind != .nameSpace))
      (declarations.filterMap Declaration.item?) := by
  induction body generalizing taken declarations with
  | nil =>
      cases h
      exact ⟨by simp, .nil⟩
  | cons definition more ih =>
      rcases declarationsFrom_cons_eq_ok_iff.mp h with
        ⟨first, others, hFirst, hOthers, rfl⟩
      rcases ih hOthers with ⟨hFits, hShows⟩
      by_cases hKind : definition.kind = .nameSpace
      · have hNone : first.item? = none := by
          cases definition with
          | nameSpace definition =>
              cases hFirst
              rfl
          | _ => cases hKind
        refine ⟨List.forall_mem_cons.mpr ⟨?_, hFits⟩, ?_⟩
        · simp [hNone]
        · simpa [hKind, hNone] using hShows
      · rcases shows_of_declaration hFirst hKind with
          ⟨item, hItem, hItemFits, hItemShows⟩
        refine ⟨List.forall_mem_cons.mpr ⟨?_, hFits⟩, ?_⟩
        · simpa [hItem] using hItemFits
        · simpa [hKind, hItem] using ⟨hItemShows, hShows⟩

-- Reading Back

/- From the text of declarations their items are read. -/
theorem readModule_text
    {body : List Definition}
    {declarations : List Declaration}
    (h : declarationsFrom taken body = .ok declarations)
    (trailing : List Text) :
    readModule (Module.text ⟨declarations, trailing⟩) =
      some (declarations.filterMap Declaration.item?) := by
  have hFits := (shows_of_declarationsFrom h).1
  have hResidue := @residue_text ⟨declarations, trailing⟩
    (hasCode_of_declarationsFrom h)
  have hSpelled := (closed_bareLines hFits).tokens_eq
  refine readModule_eq_some_iff.mpr ⟨?_, ?_⟩
  · rw [← tokens_residue, hResidue, tokens_joined_lines,
      hSpelled]
  · intro item hItem
    rcases List.mem_filterMap.mp hItem with
      ⟨found, hMem, hFound⟩
    exact hFits found hMem item hFound

/-
  Emitted code is in the grammar, and is read from the text
  alone as one item for each definition that is no
  namespace, in order.
-/
theorem generate_reads_back
    {document : Document}
    {text : Text}
    (h : generate document = .ok text) :
    ∃ items,
      IsModule text items ∧
      readModule text = some items ∧
      List.Forall₂ Item.Shows
        (document.body.filter (·.kind != .nameSpace))
        items := by
  have hCode := residue_generate document
  rw [h] at hCode
  cases hFrom : declarationsFrom [] document.body with
  | error fault =>
      rw [hFrom] at hCode
      cases hCode
  | ok declarations =>
      rw [hFrom] at hCode
      have hResidue : residue text =
          Text.joined ['\n'] (bareLines declarations) :=
        Except.ok.inj hCode
      rcases shows_of_declarationsFrom hFrom with
        ⟨hFits, hShows⟩
      have hSpelled := (closed_bareLines hFits).tokens_eq
      have hModule : IsModule text
          (declarations.filterMap Declaration.item?) := by
        constructor
        · rw [← tokens_residue, hResidue,
            tokens_joined_lines, hSpelled]
        · intro item hItem
          rcases List.mem_filterMap.mp hItem with
            ⟨found, hMem, hFound⟩
          exact hFits found hMem item hFound
      exact ⟨_, hModule, readModule_eq_some_iff.mpr hModule,
        hShows⟩

/-
  A document of all kinds of definitions, with names that
  have to be changed or quoted, and comments that try to
  close the emitted ones.
-/
def mixedDocument : Document where
  body :=
    [.nameSpace
      { scope := ['*'], name := ['n'], comments := [] },
     .inclusion
      { path := "a-b.thrift".toList
        comments := [.line "*/ import".toList] },
     .inclusion { path := "\"/a_b".toList, comments := [] },
     .struct
      { name := "class".toList
        fields :=
          [{ id := ['1']
             requiredness := some .optional
             type := .map (.primitive .string)
               (.list (.named "a-b.in".toList))
             name := "x \"y".toList
             annotations := none
             comments := [] }]
        comments := []
        trailing := [.line "\x7d".toList] },
     .enum
      { name := ['E']
        members :=
          [⟨['A'], none, []⟩, ⟨['1'], some "-07".toList, []⟩]
        comments := []
        trailing := [] },
     .service
      { name := ['S']
        functions :=
          [{ returnType := .primitive .void
             name := "in".toList
             fields :=
               [{ id := ['1']
                  requiredness := some .optional
                  type := .primitive .i32
                  name := "in".toList
                  annotations := none
                  comments := [] },
                { id := ['2']
                  requiredness := none
                  type := .primitive .bool
                  name := "b:".toList
                  annotations := none
                  comments := [] }]
             annotations := none
             comments := [.block ["*/".toList]] }]
        comments := []
        trailing := [] }]
  trailing := []

theorem mixed_document_reads_back :
    ∃ text, generate mixedDocument = .ok text ∧
      ∃ items,
        IsModule text items ∧
        readModule text = some items ∧
        List.Forall₂ Item.Shows
          (mixedDocument.body.filter (·.kind != .nameSpace))
          items :=
  ⟨_, rfl, generate_reads_back rfl⟩

end TypeScript

end ThriftTypings
