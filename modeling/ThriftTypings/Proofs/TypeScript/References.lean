import ThriftTypings.Proofs.Idl.WellFormed
import ThriftTypings.Proofs.TypeScript.Bindings

/-
  This file proves which import a type reference reaches. A
  name such as `shared.Thing` stands for a type in the module
  that the include of `shared` names, but nothing ties the
  reference to that include: the reference is cut at its
  dots, while the import is bound to a name made of the whole
  stem, and to another one if that is taken.

  Key definitions include:
    * `Idl.Document.typeLeaves`
    * `typeLeaves`

  Key theorems include:
    * `ofIdl_qualified`
    * `reference_reaches_import_iff`
-/

namespace ThriftTypings

-- Types in a Document

namespace Idl

/- The types that a type is made of, from left to right. -/
def IdlType.leaves : IdlType → List IdlType
  | .list element => element.leaves
  | .map key value => key.leaves ++ value.leaves
  | .primitive name => [.primitive name]
  | .named name => [.named name]

/- The types in a function, those of its parameters first. -/
def Function.types
    (function : Function) : List IdlType :=
  function.fields.map Field.type ++ [function.returnType]

/- The types in a definition. -/
def Definition.types : Definition → List IdlType
  | .struct found => found.fields.map Field.type
  | .service found => found.functions.flatMap Function.types
  | _ => []

/- All that types are made of, anywhere in a document. -/
def Document.typeLeaves
    (document : Document) : List IdlType :=
  (document.body.flatMap Definition.types).flatMap
    IdlType.leaves

end Idl

namespace TypeScript

open Idl

-- Types in Emitted Code

/- The types that a type is made of, from left to right. -/
def TypeTree.leaves : TypeTree → List TypeTree
  | .array element => element.leaves
  | .record key value => key.leaves ++ value.leaves
  | .void => [.void]
  | .named head members => [.named head members]

/- The types in a member, those of its parameters first. -/
def Member.types : Member → List TypeTree
  | .property _ _ type => [type]
  | .method _ parameters result =>
      parameters.map Prod.snd ++ [result]

/- The types in an item. -/
def Item.types : Item → List TypeTree
  | .interface _ members => members.flatMap Member.types
  | _ => []

/- All that types are made of, anywhere in emitted code. -/
def typeLeaves
    (items : List Item) : List TypeTree :=
  (items.flatMap Item.types).flatMap TypeTree.leaves

/- A type is emitted leaf by leaf. -/
theorem leaves_ofIdl
    (type : IdlType) :
    (TypeTree.ofIdl type).leaves =
      type.leaves.map TypeTree.ofIdl := by
  induction type with
  | primitive name => cases name <;> rfl
  | list element ih => exact ih
  | map key value ihKey ihValue =>
      simp only [TypeTree.ofIdl, TypeTree.leaves,
        IdlType.leaves, ihKey, ihValue, List.map_append]
  | named name => rfl

theorem types_ofField
    (field : Field) :
    (Property.ofField field).tree.types =
      [TypeTree.ofIdl field.type] :=
  congrArg (fun type => [type]) (tree_ofIdl field.type)

theorem types_ofFunction
    (function : Function) :
    (Method.ofFunction function).tree.types =
      function.types.map TypeTree.ofIdl := by
  simp [Method.tree, Method.ofFunction, Member.types,
    Function.types, Parameter.tree, tree_ofIdl]

/- The item of a definition has the definition's types. -/
theorem types_of_declaration
    {taken : List Text}
    {definition : Definition}
    {found : Declaration}
    (h : declaration taken definition = .ok found) :
    found.item?.toList.flatMap Item.types =
      definition.types.map TypeTree.ofIdl := by
  cases definition with
  | enum definition =>
      rcases declaration_enum_eq_ok_iff.mp h with ⟨_, _, rfl⟩
      rfl
  | struct definition =>
      cases h
      simp [Declaration.item?, Item.types, Definition.types,
        List.flatMap_map, types_ofField,
        ← List.map_eq_flatMap, Function.comp_def]
  | service definition =>
      cases h
      simp [Declaration.item?, Item.types, Definition.types,
        List.flatMap_map, types_ofFunction, List.map_flatMap]
  | _ =>
      cases h
      rfl

/- Every leaf in a body has its leaf in the emitted code. -/
theorem typeLeaves_of_declarationsFrom
    {taken : List Text}
    {body : List Definition}
    {declarations : List Declaration}
    (h : declarationsFrom taken body = .ok declarations) :
    typeLeaves (declarations.filterMap Declaration.item?) =
      ((body.flatMap Definition.types).flatMap
        IdlType.leaves).map TypeTree.ofIdl := by
  have hEach := forall₂_of_declarationsFrom
    (fun _ hFound => types_of_declaration hFound) h
  have hTypes :
      (declarations.filterMap Declaration.item?).flatMap
          Item.types =
        (body.flatMap Definition.types).map
          TypeTree.ofIdl := by
    rw [List.filterMap_eq_flatMap_toList, List.flatMap_assoc,
      List.map_flatMap]
    clear h
    induction hEach with
    | nil => rfl
    | cons hFirst _ ih =>
        rw [List.flatMap_cons, List.flatMap_cons, hFirst, ih]
  rw [typeLeaves, hTypes, List.flatMap_map,
    List.map_flatMap]
  exact List.flatMap_congr fun type _ => leaves_ofIdl type

-- Qualified References

variable {stem name : Text}

/- A qualified name is the parts of its stem and the name. -/
theorem pieces_qualified
    (hName : '.' ∉ name) :
    Text.pieces '.' (stem ++ '.' :: name) =
      Text.pieces '.' stem ++ [name] := by
  have hSome : Text.pieces '.' stem ≠ [] := by
    rcases Text.exists_pieces '.' stem with
      ⟨head, members, hStem⟩
    simp [hStem]
  have hJoined :
      Text.joined ['.'] (Text.pieces '.' stem ++ [name]) =
        stem ++ '.' :: name := by
    rw [Text.joined_append_singleton _ _ hSome,
      Text.joined_pieces, List.append_assoc]
    rfl
  rw [← hJoined]
  refine Text.pieces_joined (by simp) ?_
  intro part hPart
  rcases List.mem_append.mp hPart with hOld | hNew
  · exact Text.not_mem_of_mem_pieces hOld
  · rw [List.mem_singleton.mp hNew]
    exact hName

/- The stem is cut at its dots, like the rest of the name. -/
theorem ofIdl_qualified
    {head : Text}
    {members : List Text}
    (hStem : Text.pieces '.' stem = head :: members)
    (hName : '.' ∉ name) :
    TypeTree.ofIdl (.named (stem ++ '.' :: name)) =
      .named (bindingName head)
        ((members ++ [name]).map sanitize) := by
  rw [TypeTree.ofIdl, pieces_qualified hName, hStem]
  rfl

/-
  A qualified name has the form of a member of one binding
  just when its stem has no dot and is bound to that name.
-/
theorem ofIdl_qualified_eq_iff
    {binding : Text}
    (hName : '.' ∉ name) :
    TypeTree.ofIdl (.named (stem ++ '.' :: name)) =
        .named binding [sanitize name] ↔
      '.' ∉ stem ∧ binding = bindingName stem := by
  rcases Text.exists_pieces '.' stem with
    ⟨head, members, hStem⟩
  have hWhole := Text.joined_pieces '.' stem
  rw [ofIdl_qualified hStem hName]
  rw [hStem] at hWhole
  cases members with
  | nil =>
      have hDotless := Text.not_mem_of_mem_pieces
        (List.mem_of_mem_head? (by rw [hStem]; rfl))
      rw [Text.joined_singleton] at hWhole
      subst hWhole
      simp [hDotless, eq_comm]
  | cons second more =>
      have hDotted : '.' ∈ stem := by
        rw [← hWhole, Text.joined_cons_cons]
        simp
      simp [hDotted]

/-
  A reference to a type in an included module is emitted as
  the parts of the stem and the name of the type. It reaches
  the import of that include just when the stem has no dot
  and no earlier import has taken its name.
-/
theorem reference_reaches_import_iff
    {document : Document}
    {text : Text}
    (h : generate document = .ok text) :
    ∃ items, readModule text = some items ∧
      ∀ (i : Nat) (path : Text),
        (includePaths document.body)[i]? = some path →
        ∃ binding, (boundNames items)[i]? = some binding ∧
          ∀ (n : Nat) (name : Text),
            '.' ∉ name →
            document.typeLeaves[n]? =
              some (.named
                (Path.moduleStem path ++ '.' :: name)) →
            ∃ head members found,
              Text.pieces '.' (Path.moduleStem path) =
                head :: members ∧
              (typeLeaves items)[n]? = some found ∧
              found = .named (bindingName head)
                ((members ++ [name]).map sanitize) ∧
              (found = .named binding [sanitize name] ↔
                '.' ∉ Path.moduleStem path ∧
                  bindingName (Path.moduleStem path) ∉
                    (boundNames items).take i) := by
  rcases generate_eq_ok_iff.mp h with
    ⟨declarations, hDeclared, rfl⟩
  refine ⟨_, readModule_text hDeclared _, ?_⟩
  have hLeaves := typeLeaves_of_declarationsFrom hDeclared
  have hBound := boundNames_of_declarationsFrom hDeclared
  have hAre :=
    areBound_bindingsFrom (includePaths document.body)
  rw [← hBound, List.nil_append] at hAre
  intro i path hPath
  have hIndex : i < (includePaths document.body).length :=
    (List.getElem?_eq_some_iff.mp hPath).1
  rw [← hAre.length] at hIndex
  refine ⟨_, List.getElem?_eq_getElem hIndex, ?_⟩
  have hFirst := (hAre.first i path _ hPath
    (List.getElem?_eq_getElem hIndex)).1
  intro n name hName hLeaf
  rcases Text.exists_pieces '.' (Path.moduleStem path) with
    ⟨head, members, hStem⟩
  refine ⟨head, members, _, hStem, ?_,
    ofIdl_qualified hStem hName, ?_⟩
  · rw [hLeaves, List.getElem?_map]
    exact congrArg (Option.map TypeTree.ofIdl) hLeaf
  · rw [ofIdl_qualified_eq_iff hName, hFirst.eq_base_iff]

/- A module named by a reserved word, and types in it. -/
def linkedDocument : Document where
  body :=
    [.inclusion
      { path := "lib/for.thrift".toList
        comments := [] },
     .service
      { name := ['V']
        functions :=
          [{ returnType :=
              .map (.primitive .i32)
                (.list (.named "for.T".toList))
             name := ['f']
             fields :=
              [{ id := ['1']
                 requiredness := none
                 type := .named "for.U".toList
                 name := ['x']
                 annotations := none
                 comments := [] }]
             annotations := none
             comments := [] }]
        comments := []
        trailing := [] }]
  trailing := []

theorem reserved_stem_is_reached :
    Document.parse
        ("include \"lib/for.thrift\" service V \x7b ".toList ++
          "map<i32, list<for.T>> f(1: for.U x) \x7d".toList)
        none =
      .ok linkedDocument ∧
    ∃ text items binding,
      generate linkedDocument = .ok text ∧
      readModule text = some items ∧
      (boundNames items)[0]? = some binding ∧
      (typeLeaves items)[2]? =
        some (.named binding ["T".toList]) := by
  have hParse : Document.parse
      ("include \"lib/for.thrift\" service V \x7b ".toList ++
        "map<i32, list<for.T>> f(1: for.U x) \x7d".toList)
      none = .ok linkedDocument := by
    decide +kernel
  have hText : generate linkedDocument = .ok _ := rfl
  rcases reference_reaches_import_iff hText with
    ⟨items, hItems, hEach⟩
  rcases hEach 0 "lib/for.thrift".toList rfl with
    ⟨binding, hBinding, hLeaves⟩
  rcases hLeaves 2 "T".toList (by decide) rfl with
    ⟨_, _, found, _, hFound, _, hReached⟩
  have hForm := hReached.mpr ⟨by decide, List.not_mem_nil⟩
  refine ⟨hParse, _, items, binding, hText, hItems,
    hBinding, ?_⟩
  rw [hFound, hForm]
  rfl

/-
  Every reference to a type in an included module reaches
  the import of that include, if its stem is a word and no
  other include has it.
-/
def ReachesImports
    (document : Document)
    (items : List Item) : Prop :=
  ∀ (i n : Nat) (path binding name : Text),
    (includePaths document.body)[i]? = some path →
    IsWord (Path.moduleStem path) →
    ((includePaths document.body).map
      Path.moduleStem).count (Path.moduleStem path) = 1 →
    IsWord name →
    '.' ∉ name →
    document.typeLeaves[n]? =
      some (.named (Path.moduleStem path ++ '.' :: name)) →
    (boundNames items)[i]? = some binding →
    (typeLeaves items)[n]? =
      some (.named binding [sanitize name])

/- A struct with one field of a named type. -/
def holderOf
    (name : Text) : Definition :=
  .struct
    { name := ['S']
      fields :=
        [{ id := ['1']
           requiredness := none
           type := .named name
           name := ['f']
           annotations := none
           comments := [] }]
      comments := []
      trailing := [] }

/- A module whose stem has a dot, and a type in it. -/
def dottedDocument : Document where
  body :=
    [.inclusion
      { path := "a.b.thrift".toList
        comments := [] },
     holderOf "a.b.T".toList]
  trailing := []

/- A module whose name has been taken, and a type in it. -/
def crowdedDocument : Document where
  body :=
    [.inclusion
      { path := "p/x.thrift".toList
        comments := [] },
     .inclusion
      { path := "q/x.thrift".toList
        comments := [] },
     .inclusion
      { path := "x_2.thrift".toList
        comments := [] },
     holderOf "x_2.T".toList]
  trailing := []

/-
  A reference misses its import if the stem has a dot, and
  also if the stem is like a name that has been numbered.
-/
theorem references_miss_imports :
    (Document.parse
          ("include \"a.b.thrift\" ".toList ++
            "struct S \x7b 1: a.b.T f \x7d".toList) none =
        .ok dottedDocument ∧
      ∃ text items, generate dottedDocument = .ok text ∧
        readModule text = some items ∧
        ¬ ReachesImports dottedDocument items) ∧
    Document.parse
          ("include \"p/x.thrift\" ".toList ++
            "include \"q/x.thrift\" ".toList ++
            "include \"x_2.thrift\" ".toList ++
            "struct S \x7b 1: x_2.T f \x7d".toList) none =
        .ok crowdedDocument ∧
      ∃ text items, generate crowdedDocument = .ok text ∧
        readModule text = some items ∧
        ¬ ReachesImports crowdedDocument items := by
  have hDotted : declarationsFrom [] dottedDocument.body =
      .ok _ := rfl
  have hCrowded : declarationsFrom [] crowdedDocument.body =
      .ok _ := rfl
  refine ⟨⟨by decide +kernel, _, _, rfl,
    readModule_text hDotted _, ?_⟩, by decide +kernel, _, _,
    rfl, readModule_text hCrowded _, ?_⟩
  · intro h
    have hReached := h 0 0 "a.b.thrift".toList "a_b".toList
      ['T'] rfl (by decide) rfl (by decide) (by decide) rfl
      rfl
    revert hReached
    decide +kernel
  · intro h
    have hReached := h 2 0 "x_2.thrift".toList
      "x_2_2".toList ['T'] rfl (by decide) rfl (by decide)
      (by decide) rfl rfl
    revert hReached
    decide +kernel

end TypeScript

end ThriftTypings
