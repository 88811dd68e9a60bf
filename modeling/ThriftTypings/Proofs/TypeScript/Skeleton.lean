import ThriftTypings.Proofs.TypeScript.Declared
import ThriftTypings.Proofs.TypeScript.Residue

/-
  This file proves that comments, annotations, field ids and
  namespaces have no part in the code that is emitted, only
  in the comments of it. The code depends on no more than
  the skeleton of a document.

  Key definitions include:
    * `Idl.Document.skeleton`
    * `Declaration.bare`

  Key theorems include:
    * `residue_text`
    * `code_of_same_skeleton`
-/

namespace ThriftTypings

variable {kept : List Text} {page : Page}

-- Skeletons

namespace Idl

/- A field without its id, annotations and comments. -/
def Field.skeleton
    (field : Field) : Field :=
  { field with
    id := []
    annotations := none
    comments := [] }

/- An enum member without its comments. -/
def EnumMember.skeleton
    (found : EnumMember) : EnumMember :=
  { found with comments := [] }

/- A function without its annotations and comments. -/
def Function.skeleton
    (function : Function) : Function :=
  { function with
    fields := function.fields.map Field.skeleton
    annotations := none
    comments := [] }

/- A definition without all these. A namespace has none. -/
def Definition.skeleton? : Definition → Option Definition
  | .nameSpace _ => none
  | .inclusion found =>
      some (.inclusion { found with comments := [] })
  | .struct found =>
      some (.struct
        { found with
          fields := found.fields.map Field.skeleton
          comments := []
          trailing := [] })
  | .enum found =>
      some (.enum
        { found with
          members := found.members.map EnumMember.skeleton
          comments := []
          trailing := [] })
  | .service found =>
      some (.service
        { found with
          functions := found.functions.map Function.skeleton
          comments := []
          trailing := [] })

/- A document without comments, annotations, ids and so on. -/
def Document.skeleton
    (document : Document) : Document where
  body := document.body.filterMap Definition.skeleton?
  trailing := []

end Idl

namespace TypeScript

open Idl

-- Names

theorem isPlain_of_continuesWord
    {c : Char}
    (h : c = '$' ∨ Text.continuesWord c = true) :
    isPlain c = true := by
  have hOther (mark : Char)
      (hDollar : mark ≠ '$')
      (hWord : Text.continuesWord mark = false) :
      c ≠ mark := by
    rintro rfl
    rcases h with hSame | hContinues
    · exact hDollar hSame
    · simp [hWord] at hContinues
  have hSlash := hOther '/' (by decide) (by decide)
  have hQuote := hOther '"' (by decide) (by decide)
  have hNewline := hOther '\n' (by decide) (by decide)
  simp [isPlain, hSlash, hQuote, hNewline]

theorem isPlain_safeChar
    (c : Char) :
    isPlain (safeChar c) = true := by
  unfold safeChar
  split
  · next hSafe => exact isPlain_of_continuesWord hSafe
  · decide

theorem isPlain_sanitize
    (name : Text) :
    (sanitize name).all isPlain = true := by
  have hSafe : (name.map safeChar).all isPlain = true := by
    simp [isPlain_safeChar]
  simp only [sanitize]
  split
  · exact hSafe
  · rw [List.all_cons, hSafe]
    decide

theorem isPlain_bindingName
    (name : Text) :
    (bindingName name).all isPlain = true := by
  have hName := isPlain_sanitize name
  simp only [bindingName]
  split
  · rw [List.all_append, hName]
    decide
  · exact hName

theorem continuesWord_of_mem_ofNat
    {n : Nat}
    {c : Char}
    (h : c ∈ Text.ofNat n) :
    Text.continuesWord c = true := by
  have hDigit :=
    Nat.isDigit_of_mem_toDigits (by decide) (by decide) h
  have hSmall : c.toNat < 128 := by
    simp only [Char.isDigit, Bool.and_eq_true,
      decide_eq_true_eq] at hDigit
    have hUpper : c.toNat ≤ 57 := hDigit.2
    omega
  simp [Text.continuesWord, hSmall, hDigit]

theorem isPlain_ofNat
    (n : Nat) :
    (Text.ofNat n).all isPlain = true := by
  rw [List.all_eq_true]
  intro c hc
  exact isPlain_of_continuesWord
    (.inr (continuesWord_of_mem_ofNat hc))

theorem isPlain_ofInt
    (value : Int) :
    (Text.ofInt value).all isPlain = true := by
  cases value with
  | ofNat n => exact isPlain_ofNat n
  | negSucc n =>
      rw [Text.ofInt, List.all_cons, isPlain_ofNat]
      decide

/- An import is bound to a plain name. -/
theorem isPlain_importBinding
    (taken : List Text)
    (path : Text) :
    (importBinding taken path).all isPlain = true := by
  have hBase := isPlain_bindingName (Path.moduleStem path)
  rcases importBinding_eq_candidate taken path with
    ⟨k, hBinding⟩
  rw [hBinding]
  cases k with
  | zero => exact hBase
  | succ k =>
      simp only [candidate, List.all_append, hBase,
        isPlain_ofNat]
      decide

theorem continuesWord_of_isWord
    {text : Text}
    (h : Text.isWord text = true) :
    ∀ c ∈ text, Text.continuesWord c = true := by
  cases text with
  | nil => simp
  | cons first more =>
      simp only [Text.isWord, Bool.and_eq_true,
        List.all_eq_true] at h
      intro c hc
      rcases List.mem_cons.mp hc with rfl | hMore
      · exact Text.continuesWord_of_beginsWord h.1
      · exact h.2 c hMore

theorem continuesWord_of_isIdentifier
    {name : Text}
    (h : isIdentifier name = true) :
    ∀ c ∈ name, c = '$' ∨ Text.continuesWord c = true := by
  intro c hc
  by_cases hDollar : c = '$'
  · exact .inl hDollar
  · refine .inr (continuesWord_of_isWord h c ?_)
    exact List.mem_map.mpr ⟨c, hc, if_neg hDollar⟩

theorem isCode_propertyKey
    (name : Text) :
    IsCode (propertyKey name) := by
  unfold propertyKey
  split
  · next hName =>
      refine .of_plain (List.all_eq_true.mpr fun c hc => ?_)
      exact isPlain_of_continuesWord
        (continuesWord_of_isIdentifier hName c hc)
  · exact .literal name

theorem isCode_typeReference
    (name : Text) :
    IsCode (typeReference name) := by
  unfold typeReference
  split
  · exact .nil
  · next head members _ =>
      refine .joined (.of_plain (by decide)) ?_
      intro part hPart
      rcases List.mem_cons.mp hPart with rfl | hMember
      · exact .of_plain (isPlain_bindingName head)
      · rcases List.mem_map.mp hMember with ⟨member, _, rfl⟩
        exact .of_plain (isPlain_sanitize member)

theorem isCode_ofIdl
    (type : IdlType) :
    IsCode (TypeExpr.ofIdl type).text := by
  induction type with
  | primitive name =>
      cases name <;> exact .of_plain (by decide)
  | list element ih =>
      exact ((IsCode.of_plain (by decide)).append ih).append
        (.of_plain (by decide))
  | map key value ihKey ihValue =>
      exact ((((IsCode.of_plain (by decide)).append
        ihKey).append (.of_plain (by decide))).append
          ihValue).append (.of_plain (by decide))
  | named name => exact isCode_typeReference name

-- Bare Declarations

/- A declaration without documentation and remarks. -/
def Declaration.bare : Declaration → Declaration
  | .standing _ => .standing []
  | .importing _ binding specifier =>
      .importing [] binding specifier
  | .properties _ name members _ =>
      .properties [] name
        (members.map fun found => { found with doc := [] }) []
  | .methods _ name members _ =>
      .methods [] name
        (members.map fun found => { found with doc := [] }) []
  | .constants _ name members _ =>
      .constants [] name
        (members.map fun found => { found with doc := [] }) []

/- Are the names and types in a declaration code? -/
def Declaration.HasCode : Declaration → Prop
  | .standing _ => True
  | .importing _ binding _ => IsCode binding
  | .properties _ name members _ =>
      IsCode name ∧ ∀ found ∈ members, IsCode found.type.text
  | .methods _ name members _ =>
      IsCode name ∧ ∀ found ∈ members,
        IsCode found.result.text ∧
          ∀ parameter ∈ found.parameters,
            IsCode parameter.text
  | .constants _ name _ _ => IsCode name

/- Of documented code the code is left. -/
theorem leaves_documented
    (depth : Int)
    (entries : List Text)
    {code : List Text}
    (h : Leaves code code) :
    Leaves (docAt depth entries ++ code)
      (docAt depth [] ++ code) :=
  (leaves_docAt depth entries).append h

theorem leaves_property
    {property : Property}
    (h : IsCode property.type.text) :
    Leaves property.lines
      (Property.lines { property with doc := [] }) := by
  have hOptional :
      IsCode (if property.optional then ['?'] else []) := by
    split <;> exact .of_plain (by decide)
  refine leaves_documented 1 _ (leaves_code 1 (by decide) ?_)
  exact ((((isCode_propertyKey _).append hOptional).append
    (.of_plain (by decide))).append h).append
      (.of_plain (by decide))

theorem leaves_method
    {method : Method}
    (hResult : IsCode method.result.text)
    (hParameters : ∀ parameter ∈ method.parameters,
      IsCode parameter.text) :
    Leaves method.lines
      (Method.lines { method with doc := [] }) := by
  have hListed : IsCode (Text.joined ", ".toList
      (method.parameters.map Parameter.text)) := by
    refine .joined (.of_plain (by decide)) ?_
    intro part hPart
    rcases List.mem_map.mp hPart with ⟨parameter, hMem, rfl⟩
    exact hParameters parameter hMem
  refine leaves_documented 1 _ (leaves_code 1 (by decide) ?_)
  exact (((((isCode_propertyKey _).append
    (.of_plain (by decide))).append hListed).append
      (.of_plain (by decide))).append hResult).append
        (.of_plain (by decide))

theorem leaves_constant
    (constant : Constant) :
    Leaves constant.lines
      (Constant.lines { constant with doc := [] }) := by
  refine leaves_documented 1 _ (leaves_code 1 (by decide) ?_)
  exact (((isCode_propertyKey _).append
    (.of_plain (by decide))).append
      (.of_plain (isPlain_ofInt _))).append
        (.of_plain (by decide))

/- Of a block in braces the remarks are not left. -/
theorem leaves_block
    {opening : Text}
    {inside kept : List Text}
    (trailing : List Text)
    {closing : Text}
    (hOpening : IsCode opening)
    (hInside : Leaves inside kept)
    (hClosing : Leaves
      [lineAt 0 ("\x7d".toList ++ closing)]
      [lineAt 0 ("\x7d".toList ++ closing)]) :
    Leaves (Declaration.block opening inside trailing closing)
      (Declaration.block opening kept [] closing) := by
  have hOpen : " \x7b".toList = [' '] ++ ['\x7b'] := rfl
  have hFirst : Leaves
      [lineAt 0 (opening ++ " \x7b".toList)]
      [lineAt 0 (opening ++ " \x7b".toList)] := by
    rw [hOpen, ← List.append_assoc]
    refine leaves_code 0 (by decide) ?_
    exact (hOpening.append (.of_plain (by decide))).append
      (.of_plain (by decide))
  unfold Declaration.block
  exact ((hFirst.append hInside).append
    (leaves_remarksAt 1 trailing)).append hClosing

/- Of a declaration of code the bare one is left. -/
theorem leaves_bare
    {declaration : Declaration}
    (h : declaration.HasCode) :
    Leaves declaration.lines declaration.bare.lines := by
  have hExport : IsCode "export interface ".toList :=
    .of_plain (by decide)
  have hBrace : Leaves [lineAt 0 ("\x7d".toList ++ [])]
      [lineAt 0 ("\x7d".toList ++ [])] := by
    have hEnd : "\x7d".toList ++ [] = [] ++ ['\x7d'] := rfl
    rw [hEnd]
    exact leaves_code 0 (by decide) (.of_plain (by decide))
  cases declaration with
  | standing doc => exact leaves_docAt 0 doc
  | importing doc binding specifier =>
      refine leaves_documented 0 _
        (leaves_code 0 (by decide) ?_)
      exact ((((IsCode.of_plain (by decide)).append h).append
        (.of_plain (by decide))).append
          (.literal specifier)).append (.of_plain (by decide))
  | properties doc name members trailing =>
      simp only [Declaration.lines, Declaration.bare,
        List.flatMap_map]
      refine (leaves_docAt 0 doc).append (leaves_block
        trailing (hExport.append h.1)
        (.flatMap fun found hMem => ?_) hBrace)
      exact leaves_property (h.2 found hMem)
  | methods doc name members trailing =>
      simp only [Declaration.lines, Declaration.bare,
        List.flatMap_map]
      refine (leaves_docAt 0 doc).append (leaves_block
        trailing (hExport.append h.1)
        (.flatMap fun found hMem => ?_) hBrace)
      rcases h.2 found hMem with ⟨hResult, hParameters⟩
      exact leaves_method hResult hParameters
  | constants doc name members trailing =>
      have hClose : Leaves
          [lineAt 0 ("\x7d".toList ++ " as const;".toList)]
          [lineAt 0 ("\x7d".toList ++ " as const;".toList)] :=
        by
        have hEnd : "\x7d".toList ++ " as const;".toList =
            "\x7d as const".toList ++ [';'] := rfl
        rw [hEnd]
        exact leaves_code 0 (by decide)
          (.of_plain (by decide))
      have hType : Leaves
          [lineAt 0
            ("export type ".toList ++ name ++
              " = typeof ".toList ++ name ++
              "[keyof typeof ".toList ++ name ++
              "];".toList)]
          [lineAt 0
            ("export type ".toList ++ name ++
              " = typeof ".toList ++ name ++
              "[keyof typeof ".toList ++ name ++
              "];".toList)] := by
        have hEnd : "];".toList = [']'] ++ [';'] := rfl
        rw [hEnd, ← List.append_assoc]
        refine leaves_code 0 (by decide) ?_
        have hPlain {text : Text}
            (hText : text.all isPlain = true) :=
          IsCode.of_plain hText
        exact (((((((hPlain (by decide)).append h).append
          (hPlain (by decide))).append h).append
            (hPlain (by decide))).append h).append
              (hPlain (by decide))).append (hPlain (by decide))
      simp only [Declaration.lines, Declaration.bare,
        List.flatMap_map]
      refine ((leaves_docAt 0 doc).append (leaves_block
        trailing ?_ (.flatMap fun found _ =>
          leaves_constant found) hClose)).append hType
      exact ((IsCode.of_plain (by decide)).append h).append
        (.of_plain (by decide))

-- Modules

theorem leaves_blank
    (h : Leaves page.lines kept) :
    Leaves page.blank.lines kept := by
  have hEmpty : Leaves [[]] [] :=
    @Leaves.of_blank [[]] [] (by simp) fun rest => by
      simp only [unlines_cons, unlines_nil, List.nil_append,
        List.cons_append]
      exact uncomment_plain (by decide) (by decide)
  unfold Page.blank
  split
  · exact h
  · split
    · exact h
    · simpa [Page.add] using h.append hEmpty

/- The lines of the bare declarations. -/
def bareLines
    (declarations : List Declaration) : List Text :=
  declarations.flatMap fun found => found.bare.lines

theorem leaves_write
    {declarations : List Declaration}
    (hCode : ∀ found ∈ declarations, found.HasCode)
    (previous : Option Declaration)
    (h : Leaves page.lines kept) :
    Leaves (Module.write previous declarations page).lines
      (kept ++ bareLines declarations) := by
  induction declarations generalizing previous page kept with
  | nil =>
      cases previous <;>
        simpa [Module.write, bareLines] using h
  | cons found more ih =>
      have hMore : ∀ other ∈ more, other.HasCode :=
        fun other hMem => hCode other (by simp [hMem])
      have hFound := leaves_bare (hCode found (by simp))
      have hSplit : kept ++ bareLines (found :: more) =
          (kept ++ found.bare.lines) ++ bareLines more := by
        simp [bareLines]
      rw [hSplit]
      cases previous with
      | none =>
          exact ih hMore _ ((leaves_blank h).append hFound)
      | some last =>
          simp only [Module.write]
          refine ih hMore _ ?_
          split
          · exact h.append hFound
          · exact (leaves_blank h).append hFound

theorem leaves_remarks
    (h : Leaves page.lines kept)
    (entries : List Text) :
    Leaves (page.remarks entries).lines kept := by
  have hAll := h.append (leaves_remarksAt page.depth entries)
  rwa [List.append_nil] at hAll

/- Of a module of code the bare declarations are left. -/
theorem residue_text
    {module_ : Module}
    (h : ∀ found ∈ module_.declarations, found.HasCode) :
    residue module_.text =
      Text.joined ['\n']
        (bareLines module_.declarations) := by
  have hWritten :
      Leaves
        (Module.write none module_.declarations
          Page.empty).lines
        ([] ++ bareLines module_.declarations) :=
    leaves_write h none .nil
  refine residue_output ?_
  simp only [Module.page]
  split
  · exact hWritten
  · exact leaves_remarks (leaves_blank hWritten) _

-- Documents

/- The declarations of a document are code. -/
theorem hasCode_of_declaration
    {taken : List Text}
    {definition : Definition}
    {found : Declaration}
    (h : declaration taken definition = .ok found) :
    found.HasCode := by
  have hName (name : Text) : IsCode (bindingName name) :=
    .of_plain (isPlain_bindingName name)
  cases definition with
  | nameSpace definition =>
      cases h
      trivial
  | inclusion definition =>
      cases h
      exact .of_plain (isPlain_importBinding _ _)
  | struct definition =>
      cases h
      refine ⟨hName _, fun property hMem => ?_⟩
      rcases List.mem_map.mp hMem with ⟨field, _, rfl⟩
      exact isCode_ofIdl field.type
  | enum definition =>
      rcases declaration_enum_eq_ok_iff.mp h with ⟨_, _, rfl⟩
      exact hName _
  | service definition =>
      cases h
      refine ⟨hName _, fun method hMem => ?_⟩
      rcases List.mem_map.mp hMem with ⟨function, _, rfl⟩
      refine ⟨isCode_ofIdl function.returnType,
        fun parameter hParameter => ?_⟩
      rcases List.mem_map.mp hParameter with ⟨field, _, rfl⟩
      exact ((hName field.name).append
        (.of_plain (by decide))).append
          (isCode_ofIdl field.type)

theorem hasCode_of_declarationsFrom
    {taken : List Text}
    {body : List Definition}
    {declarations : List Declaration}
    (h : declarationsFrom taken body = .ok declarations) :
    ∀ found ∈ declarations, found.HasCode := by
  induction body generalizing taken declarations with
  | nil =>
      cases h
      simp
  | cons definition more ih =>
      rcases declarationsFrom_cons_eq_ok_iff.mp h with
        ⟨first, others, hFirst, hOthers, rfl⟩
      exact List.forall_mem_cons.mpr
        ⟨hasCode_of_declaration hFirst, ih hOthers⟩

/- The values of enum members do not depend on comments. -/
theorem constantsFrom_skeleton
    (position : Nat)
    (members : List EnumMember) :
    (constantsFrom position members).map
        (List.map fun found => { found with doc := [] }) =
      (constantsFrom position
          (members.map EnumMember.skeleton)).map
        (List.map fun found => { found with doc := [] }) := by
  induction members generalizing position with
  | nil => rfl
  | cons found more ih =>
      have hMore := ih (position + 1)
      have hValue :
          memberValue position found.skeleton =
            memberValue position found := rfl
      simp only [List.map_cons, constantsFrom, hValue]
      cases memberValue position found with
      | error fault => rfl
      | ok value =>
          cases hFirst : constantsFrom (position + 1) more <;>
            cases hSecond : constantsFrom (position + 1)
              (more.map EnumMember.skeleton) <;>
            simp_all [Except.map, EnumMember.skeleton]

/- The bare declaration of a definition is its skeleton's. -/
theorem bare_declaration_skeleton
    (taken : List Text)
    {definition skeleton : Definition}
    (h : definition.skeleton? = some skeleton) :
    (declaration taken definition).map Declaration.bare =
      (declaration taken skeleton).map Declaration.bare := by
  cases definition with
  | nameSpace found => cases h
  | inclusion found =>
      cases h
      rfl
  | struct found =>
      cases h
      simp [declaration, Except.map, Declaration.bare,
        Property.ofField, Field.skeleton]
  | enum found =>
      cases h
      have hConstants := constantsFrom_skeleton 0 found.members
      simp only [declaration]
      cases hFirst : constantsFrom 0 found.members <;>
        cases hSecond : constantsFrom 0
          (found.members.map EnumMember.skeleton) <;>
        simp_all [Except.map, Declaration.bare]
  | service found =>
      cases h
      simp [declaration, Except.map, Declaration.bare,
        Method.ofFunction, Function.skeleton, Field.skeleton]

theorem takenAfter_bare
    (taken : List Text)
    (found : Declaration) :
    takenAfter taken found.bare = takenAfter taken found := by
  cases found <;> rfl

/- One definition gives its code, and what it takes. -/
theorem bareLines_cons
    (taken : List Text)
    (definition : Definition)
    (more : List Definition) :
    (declarationsFrom taken (definition :: more)).map
        bareLines =
      match
        (declaration taken definition).map Declaration.bare
      with
      | .error fault => .error fault
      | .ok bare =>
          ((declarationsFrom (takenAfter taken bare) more).map
            bareLines).map (bare.lines ++ ·) := by
  simp only [declarationsFrom]
  cases declaration taken definition with
  | error fault => rfl
  | ok first =>
      simp only [Except.map, takenAfter_bare]
      cases declarationsFrom (takenAfter taken first) more with
      | error fault => rfl
      | ok others => simp [bareLines]

/- The code of definitions is the code of their skeletons. -/
theorem bareLines_skeleton
    (taken : List Text)
    (body : List Definition) :
    (declarationsFrom taken body).map bareLines =
      (declarationsFrom taken
        (body.filterMap Definition.skeleton?)).map
          bareLines := by
  induction body generalizing taken with
  | nil => rfl
  | cons definition more ih =>
      cases hSkeleton : definition.skeleton? with
      | none =>
          rw [List.filterMap_cons_none hSkeleton,
            bareLines_cons, ← ih taken]
          -- only namespaces have no skeleton, and no code
          cases definition with
          | nameSpace found =>
              exact congrFun Except.map_id _
          | _ => cases hSkeleton
      | some skeleton =>
          rw [List.filterMap_cons_some hSkeleton,
            bareLines_cons, bareLines_cons,
            bare_declaration_skeleton taken hSkeleton]
          simp only [ih]

/-
  The code that a document gives: the bare declarations,
  whatever its comments are.
-/
theorem residue_generate
    (document : Document) :
    (generate document).map residue =
      ((declarationsFrom [] document.body).map bareLines).map
        (Text.joined ['\n']) := by
  simp only [generate, Module.ofDocument]
  cases h : declarationsFrom [] document.body with
  | error fault => rfl
  | ok declarations =>
      exact congrArg Except.ok
        (residue_text (hasCode_of_declarationsFrom h))

/-
  Documents with the same skeleton fail alike, and give
  texts with the same code.
-/
theorem code_of_same_skeleton
    {first second : Document}
    (h : first.skeleton = second.skeleton) :
    (∀ fault, generate first = .error fault ↔
      generate second = .error fault) ∧
    ∀ one two, generate first = .ok one →
      generate second = .ok two →
        residue one = residue two := by
  have hBody := congrArg Document.body h
  have hCode :
      (generate first).map residue =
        (generate second).map residue := by
    rw [residue_generate, residue_generate,
      bareLines_skeleton [] first.body,
      bareLines_skeleton [] second.body]
    exact congrArg
      (fun body => ((declarationsFrom [] body).map
        bareLines).map (Text.joined ['\n'])) hBody
  constructor
  · intro fault
    cases hFirst : generate first <;>
      cases hSecond : generate second <;>
      simp_all [Except.map]
  · intro one two hFirst hSecond
    rw [hFirst, hSecond] at hCode
    exact Except.ok.inj hCode

/- A struct whose comments try to close the emitted ones. -/
def closingComments : Document where
  body :=
    [.struct
      { name := ['s']
        fields :=
          [{ id := ['1']
             requiredness := none
             type := .primitive .i32
             name := ['f']
             annotations := some [⟨['a'], ['b']⟩]
             comments := [.line "*/ x /*".toList] }]
        comments := [.block ["*/".toList]]
        trailing := [.line "//".toList] }]
  trailing := []

/- The same struct with no comments, after a namespace. -/
def withoutComments : Document where
  body :=
    [.nameSpace
      { scope := ['*'], name := ['n'], comments := [] },
     .struct
      { name := ['s']
        fields :=
          [{ id := ['2']
             requiredness := none
             type := .primitive .i32
             name := ['f']
             annotations := none
             comments := [] }]
        comments := []
        trailing := [] }]
  trailing := [.line "end".toList]

theorem code_of_closing_comments :
    closingComments.skeleton = withoutComments.skeleton ∧
      (∀ fault, generate closingComments = .error fault ↔
        generate withoutComments = .error fault) ∧
      ∀ one two, generate closingComments = .ok one →
        generate withoutComments = .ok two →
          residue one = residue two :=
  ⟨rfl, code_of_same_skeleton rfl⟩

end TypeScript

end ThriftTypings
