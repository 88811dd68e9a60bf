import ThriftTypings.TypeScript.Session

/-
  This file proves that a generator carries nothing from one
  build to the next: whatever earlier builds have left, also
  those that broke off in the middle of an enum, a build
  gives what a new generator gives for the same document.

  The walk over the document is compared with the module
  that the document stands for, definition by definition:
  both break off at the same place with the same fault, or
  the page of the walk is the page of the module.

  Key definitions include:
    * `Follows`
    * `Session.runAfresh`

  Key theorems include:
    * `Generator.build_eq_generate`
    * `Session.builds_carry_nothing`
-/

namespace ThriftTypings

namespace TypeScript

open Idl

-- Pages

namespace Page

@[simp] theorem depth_add
    (page : Page)
    (lines : List Text) :
    (page.add lines).depth = page.depth :=
  rfl

@[simp] theorem depth_blank
    (page : Page) :
    page.blank.depth = page.depth := by
  unfold blank
  split
  · rfl
  · split <;> rfl

@[simp] theorem add_nil
    (page : Page) :
    page.add [] = page := by
  simp [add]

@[simp] theorem add_add
    (page : Page)
    (lines more : List Text) :
    (page.add lines).add more = page.add (lines ++ more) := by
  simp [add]

end Page

namespace Generator

variable {generator : Generator}

/- The generator with further lines on its page. -/
def adding
    (generator : Generator)
    (lines : List Text) : Generator :=
  generator.write (·.add lines)

theorem adding_adding
    (lines more : List Text) :
    (generator.adding lines).adding more =
      generator.adding (lines ++ more) := by
  simp [adding, write]

theorem adding_nil :
    generator.adding [] = generator := by
  simp [adding, write]

/-
  A block that is opened, filled and closed at the outer
  level is back there, and has the lines of a block.
-/
theorem closeBlock_adding_openBlock
    (hDepth : generator.page.depth = 0)
    (comments trailing : List Comment)
    (opening closing : Text)
    (inside : List Text) :
    ((generator.openBlock comments opening).adding
        inside).closeBlock trailing closing =
      generator.adding
        (docAt 0 (commentEntries comments) ++
          Declaration.block opening inside
            (commentEntries trailing) closing) := by
  obtain ⟨document, options, ⟨depth, lines⟩, bindings,
    previous, position⟩ := generator
  subst hDepth
  simp [openBlock, closeBlock, adding, write, Page.doc,
    Page.line, Page.remarks, Page.indent, Page.add,
    Declaration.block]

-- Members

/- Members that each add their lines add them all. -/
theorem foldl_adding
    {α : Type}
    {visit : Generator → α → Generator}
    {lines : α → List Text}
    (hVisit : ∀ (before : Generator) (item : α),
      before.page.depth = 1 →
        visit before item = before.adding (lines item))
    (hDepth : generator.page.depth = 1)
    (items : List α) :
    items.foldl visit generator =
      generator.adding (items.flatMap lines) := by
  induction items generalizing generator with
  | nil => exact adding_nil.symm
  | cons item more ih =>
      have hNext :
          (generator.adding (lines item)).page.depth = 1 :=
        hDepth
      rw [List.foldl_cons, hVisit _ _ hDepth, ih hNext,
        adding_adding, List.flatMap_cons]

theorem visitField_eq
    (before : Generator)
    (field : Field)
    (hDepth : before.page.depth = 1) :
    before.visitField field =
      before.adding (Property.ofField field).lines := by
  simp [visitField, adding, write, Page.doc, Page.line,
    hDepth, Property.lines, Property.ofField]

theorem visitFunction_eq
    (before : Generator)
    (function : Function)
    (hDepth : before.page.depth = 1) :
    before.visitFunction function =
      before.adding (Method.ofFunction function).lines := by
  have hParameter : Parameter.text ∘ (fun field : Field =>
      { binding := bindingName field.name
        type := TypeExpr.ofIdl field.type }) =
        parameterText := rfl
  simp [visitFunction, adding, write, Page.doc, Page.line,
    hDepth, Method.lines, Method.ofFunction, hParameter]

end Generator

-- Walks and What They Stand For

/-
  A walk over a document follows a computation: both break
  off with the same fault, the document left as it was, or
  both succeed with related results.
-/
inductive Follows
    {β : Type}
    (document : Document)
    (Related : Generator → β → Prop) :
    Except Broken Generator → Except IntegerFault β →
      Prop where
  | broken
      {fault : IntegerFault}
      {left : Generator}
      (kept : left.document = document) :
      Follows document Related (.error ⟨fault, left⟩)
        (.error fault)
  | done
      {walked : Generator}
      {value : β}
      (related : Related walked value) :
      Follows document Related (.ok walked) (.ok value)

namespace Follows

variable {β γ : Type}
variable {document : Document}
variable {Related : Generator → β → Prop}
variable {After : Generator → γ → Prop}
variable {walk : Except Broken Generator}
variable {value : Except IntegerFault β}

/- What follows step by step follows as a whole. -/
theorem andThen
    {next : Generator → Except Broken Generator}
    {rest : β → Except IntegerFault γ}
    (h : Follows document Related walk value)
    (hNext : ∀ walked found, Related walked found →
      Follows document After (next walked) (rest found)) :
    Follows document After (walk >>= next)
      (value >>= rest) := by
  cases h with
  | broken kept => exact .broken kept
  | done related => exact hNext _ _ related

theorem map
    {make : β → γ}
    (h : Follows document Related walk value)
    (hMake : ∀ walked found, Related walked found →
      After walked (make found)) :
    Follows document After walk (make <$> value) := by
  cases h with
  | broken kept => exact .broken kept
  | done related => exact .done (hMake _ _ related)

end Follows

namespace Generator

variable {generator : Generator}

/- The entry of an enum member with a given value. -/
def constantOf
    (found : EnumMember)
    (value : Int) : Constant where
  doc := commentEntries found.comments
  name := found.name
  value := value

theorem constantsFrom_cons
    (position : Nat)
    (found : EnumMember)
    (more : List EnumMember) :
    constantsFrom position (found :: more) =
      (do
        let value ← memberValue position found
        List.cons (constantOf found value) <$>
          constantsFrom (position + 1) more) := by
  rw [constantsFrom]
  cases memberValue position found with
  | error fault => rfl
  | ok value =>
      change _ = List.cons _ <$> constantsFrom _ _
      cases constantsFrom (position + 1) more <;> rfl

/- The generator with one more entry, and one further. -/
def counting
    (generator : Generator)
    (constant : Constant) : Generator :=
  { generator.adding constant.lines with
    position := generator.position + 1 }

theorem follows_visitMember
    (hDepth : generator.page.depth = 1)
    (found : EnumMember) :
    Follows generator.document
      (fun walked value =>
        walked = generator.counting (constantOf found value))
      (generator.visitMember found)
      (memberValue generator.position found) := by
  unfold visitMember
  cases memberValue generator.position found with
  | error fault => exact .broken rfl
  | ok value =>
      refine .done ?_
      simp [counting, constantOf, adding, write, Page.doc,
        Page.line, hDepth, Constant.lines]

/-
  The members of an enum are the entries from the position
  of the generator on. Only the position moves with them.
-/
theorem follows_visitMembers
    (generator : Generator)
    (hDepth : generator.page.depth = 1)
    (members : List EnumMember) :
    Follows generator.document
      (fun walked constants =>
        ∃ position, walked =
          { generator.adding
              (constants.flatMap Constant.lines) with
            position := position })
      (members.foldlM visitMember generator)
      (constantsFrom generator.position members) := by
  induction members generalizing generator with
  | nil =>
      exact .done ⟨generator.position, adding_nil.symm⟩
  | cons found more ih =>
      rw [List.foldlM_cons, constantsFrom_cons]
      refine (follows_visitMember hDepth found).andThen ?_
      rintro _ value rfl
      have hCounting :
          (generator.counting
            (constantOf found value)).page.depth = 1 :=
        hDepth
      refine (ih _ hCounting).map ?_
      rintro _ constants ⟨position, rfl⟩
      refine ⟨position, ?_⟩
      simp [counting, adding, write]

-- Definitions

end Generator

/- The kind of definition that a declaration stands for. -/
def Declaration.kind : Declaration → Kind
  | .standing _ => .nameSpace
  | .importing _ _ _ => .inclusion
  | .properties _ _ _ _ => .struct
  | .methods _ _ _ _ => .service
  | .constants _ _ _ _ => .enum

namespace Generator

variable {generator : Generator}

/-
  What a generator has done for a definition: it has set it
  apart, written its declaration and taken its binding.
-/
structure Declared
    (before : Generator)
    (definition : Definition)
    (after : Generator)
    (declared : Declaration) : Prop where
  kind : declared.kind = definition.kind
  document : after.document = before.document
  page : after.page =
    (before.separate definition.kind).page.add declared.lines
  bindings : after.bindings =
    takenAfter before.bindings declared
  previous : after.previous = some definition.kind

@[simp] theorem depth_separate
    (kind : Kind) :
    (generator.separate kind).page.depth =
      generator.page.depth := by
  unfold separate
  dsimp only
  split
  · rfl
  · exact Page.depth_blank _

@[simp] theorem bindings_separate
    (kind : Kind) :
    (generator.separate kind).bindings =
      generator.bindings :=
  rfl

theorem depth_openBlock
    (hDepth : generator.page.depth = 0)
    (comments : List Comment)
    (opening : Text) :
    (generator.openBlock comments opening).page.depth =
      1 := by
  simp [openBlock, write, Page.indent, Page.line, Page.doc,
    hDepth]

/- A block with members that each add their lines. -/
theorem closeBlock_foldl_openBlock
    {α : Type}
    {visit : Generator → α → Generator}
    {lines : α → List Text}
    (hVisit : ∀ (before : Generator) (item : α),
      before.page.depth = 1 →
        visit before item = before.adding (lines item))
    (hDepth : generator.page.depth = 0)
    (kind : Kind)
    (comments trailing : List Comment)
    (opening closing : Text)
    (items : List α) :
    (items.foldl visit
        ((generator.separate kind).openBlock comments
          opening)).closeBlock trailing closing =
      (generator.separate kind).adding
        (docAt 0 (commentEntries comments) ++
          Declaration.block opening (items.flatMap lines)
            (commentEntries trailing) closing) := by
  have hApart :
      (generator.separate kind).page.depth = 0 := by
    rw [depth_separate, hDepth]
  rw [foldl_adding hVisit (depth_openBlock hApart _ _),
    closeBlock_adding_openBlock hApart]

theorem declared_visitNamespace
    (hDepth : generator.page.depth = 0)
    (found : NamespaceDef) :
    Declared generator (.nameSpace found)
      (generator.visitNamespace found)
      (.standing
        (commentEntries found.comments ++
          ["namespace ".toList ++ found.scope ++
            " ".toList ++ found.name])) := by
  refine ⟨rfl, rfl, ?_, rfl, rfl⟩
  simp only [visitNamespace, write, Page.doc, depth_separate,
    hDepth, Declaration.lines, Definition.kind]

theorem declared_visitInclude
    (hDepth : generator.page.depth = 0)
    (found : IncludeDef) :
    Declared generator (.inclusion found)
      (generator.visitInclude found)
      (.importing (commentEntries found.comments)
        (importBinding generator.bindings found.path)
        (Path.importSpecifier found.path)) := by
  refine ⟨rfl, rfl, ?_, rfl, rfl⟩
  simp only [visitInclude, write, Page.doc, Page.line,
    Page.depth_add, Page.add_add, depth_separate,
    bindings_separate, hDepth, Declaration.lines,
    Definition.kind]

theorem declared_visitStruct
    (hDepth : generator.page.depth = 0)
    (found : StructDef) :
    Declared generator (.struct found)
      (generator.visitStruct found)
      (.properties (commentEntries found.comments)
        (bindingName found.name)
        (found.fields.map Property.ofField)
        (commentEntries found.trailing)) := by
  rw [visitStruct,
    closeBlock_foldl_openBlock visitField_eq hDepth]
  refine ⟨rfl, rfl, ?_, rfl, rfl⟩
  rw [Declaration.lines, List.flatMap_map]
  rfl

theorem declared_visitService
    (hDepth : generator.page.depth = 0)
    (found : ServiceDef) :
    Declared generator (.service found)
      (generator.visitService found)
      (.methods (commentEntries found.comments)
        (bindingName found.name)
        (found.functions.map Method.ofFunction)
        (commentEntries found.trailing)) := by
  rw [visitService,
    closeBlock_foldl_openBlock visitFunction_eq hDepth]
  refine ⟨rfl, rfl, ?_, rfl, rfl⟩
  rw [Declaration.lines, List.flatMap_map]
  rfl

/- An enum may break off, with the fault of its member. -/
theorem follows_visitEnum
    (hDepth : generator.page.depth = 0)
    (found : EnumDef) :
    Follows generator.document
      (Declared generator (.enum found))
      (generator.visitEnum found)
      (declaration generator.bindings (.enum found)) := by
  have hApart :
      (generator.separate .enum).page.depth = 0 := by
    rw [depth_separate, hDepth]
  have hMembers := follows_visitMembers
    { (generator.separate .enum).openBlock found.comments
        ("export const ".toList ++
          bindingName found.name ++ " =".toList) with
      position := 0 }
    (depth_openBlock hApart _ _) found.members
  rw [visitEnum, declaration]
  dsimp only at hMembers ⊢
  generalize found.members.foldlM visitMember _ = walk
    at hMembers ⊢
  generalize constantsFrom 0 found.members = value
    at hMembers ⊢
  cases hMembers with
  | broken kept => exact .broken kept
  | @done walked constants related =>
      obtain ⟨position, rfl⟩ := related
      refine .done ⟨rfl, rfl, ?_, rfl, rfl⟩
      have hPage := congrArg Generator.page
        (closeBlock_adding_openBlock hApart found.comments
          found.trailing
          ("export const ".toList ++
            bindingName found.name ++ " =".toList)
          " as const;".toList
          (constants.flatMap Constant.lines))
      refine (congrArg (Page.line · _) hPage).trans ?_
      simp only [adding, write, Page.line, Page.depth_add,
        Page.add_add, hApart, Declaration.lines,
        Definition.kind]

theorem follows_visit
    (hDepth : generator.page.depth = 0)
    (definition : Definition) :
    Follows generator.document
      (Declared generator definition)
      (generator.visit definition)
      (declaration generator.bindings definition) := by
  cases definition with
  | nameSpace found =>
      exact .done (declared_visitNamespace hDepth found)
  | inclusion found =>
      exact .done (declared_visitInclude hDepth found)
  | struct found =>
      exact .done (declared_visitStruct hDepth found)
  | enum found => exact follows_visitEnum hDepth found
  | service found =>
      exact .done (declared_visitService hDepth found)

-- Documents

/-
  A generator sets a definition apart just where a module
  sets its declaration apart.
-/
theorem page_separate
    {previous : Option Declaration}
    {declared : Declaration}
    (hPrevious : generator.previous =
      previous.map Declaration.kind) :
    (generator.separate declared.kind).page =
      match previous with
      | none => generator.page.blank
      | some earlier =>
          if earlier.adjoins declared then generator.page
          else generator.page.blank := by
  cases previous with
  | none => simp [separate, hPrevious]
  | some earlier =>
      cases earlier <;> cases declared <;>
        simp [separate, hPrevious, Declaration.kind,
          Declaration.adjoins]

theorem declarationsFrom_cons
    (taken : List Text)
    (definition : Definition)
    (more : List Definition) :
    declarationsFrom taken (definition :: more) =
      (do
        let first ← declaration taken definition
        List.cons first <$>
          declarationsFrom (takenAfter taken first)
            more) := by
  rw [declarationsFrom]
  cases declaration taken definition with
  | error fault => rfl
  | ok first =>
      change _ = List.cons _ <$> declarationsFrom _ _
      dsimp only
      cases declarationsFrom (takenAfter taken first) more <;>
        rfl

/- The walk over a body writes the page of its module. -/
theorem follows_walk
    (generator : Generator)
    (previous : Option Declaration)
    (hDepth : generator.page.depth = 0)
    (hPrevious : generator.previous =
      previous.map Declaration.kind)
    (body : List Definition) :
    Follows generator.document
      (fun walked declarations =>
        walked.document = generator.document ∧
          walked.page =
            Module.write previous declarations
              generator.page)
      (body.foldlM visit generator)
      (declarationsFrom generator.bindings body) := by
  induction body generalizing generator previous with
  | nil =>
      refine .done ⟨rfl, ?_⟩
      cases previous <;> rfl
  | cons definition more ih =>
      rw [List.foldlM_cons, declarationsFrom_cons]
      refine (follows_visit hDepth definition).andThen ?_
      intro walked declared h
      rw [← h.bindings, ← h.document]
      have hWalked : walked.page.depth = 0 := by
        rw [h.page, Page.depth_add, depth_separate, hDepth]
      have hBefore : walked.previous =
          (some declared).map Declaration.kind := by
        rw [h.previous, ← h.kind, Option.map_some]
      refine (ih _ _ hWalked hBefore).map ?_
      rintro final declarations ⟨hDocument, hPage⟩
      refine ⟨hDocument, ?_⟩
      rw [hPage, h.page, ← h.kind, page_separate hPrevious]
      cases previous <;> rfl

end Generator

/- Every comment has an entry. -/
theorem commentEntries_isEmpty
    (comments : List Comment) :
    (commentEntries comments).isEmpty =
      comments.isEmpty := by
  have hEntry (comment : Comment) :
      commentEntry comment ≠ [] := by
    cases comment with
    | line text => exact List.cons_ne_nil _ _
    | block lines =>
        rw [commentEntry, blockEntries]
        split <;> exact List.cons_ne_nil _ _
  cases comments with
  | nil => rfl
  | cons comment more =>
      simp [commentEntries, hEntry comment]

namespace Generator

theorem document_finish
    (generator : Generator) :
    generator.finish.document = generator.document := by
  unfold finish
  split <;> rfl

theorem page_finish
    (generator : Generator) :
    generator.finish.page =
      if generator.document.trailing.isEmpty then
        generator.page
      else
        generator.page.blank.remarks
          (commentEntries generator.document.trailing) := by
  unfold finish
  split <;> rfl

/-
  Whatever state a generator is in, a build gives what the
  document stands for, and leaves the document alone.
-/
theorem build_eq_generate
    (generator : Generator)
    (options : Options) :
    (generator.build options).1 =
        generate generator.document ∧
      (generator.build options).2.document =
        generator.document := by
  have hWalk := follows_walk (generator.restart options)
    none rfl rfl generator.document.body
  rw [build, generate, Module.ofDocument]
  dsimp only [restart] at hWalk ⊢
  generalize generator.document.body.foldlM visit _ = walk
    at hWalk ⊢
  generalize declarationsFrom [] generator.document.body =
    value at hWalk ⊢
  cases hWalk with
  | broken kept => exact ⟨rfl, kept⟩
  | @done walked declarations related =>
      obtain ⟨hDocument, hPage⟩ := related
      refine ⟨congrArg (Except.ok ∘ Page.output) ?_,
        (document_finish walked).trans hDocument⟩
      rw [page_finish, hDocument, hPage, Module.page,
        commentEntries_isEmpty]

end Generator

-- Sessions

namespace Session

/- An edit as it changes a document, and its reply. -/
def revised
    (document : Document)
    (body : List Definition) : Reply × Document :=
  (.definitions body.length, { document with body := body })

/-
  One request about a document. A build is left to a new
  generator, which is thrown away after it.
-/
def stepAfresh
    (document : Document) : Request → Reply × Document
  | .build =>
      (.ofBuild ((Generator.new document).build {}).1,
        document)
  | .append source =>
      match Document.parse source with
      | .error error => (.unreadable error, document)
      | .ok more =>
          revised document (document.body ++ more.body)
  | .pop =>
      if document.body.isEmpty then (.nothingToPop, document)
      else revised document document.body.dropLast
  | .reverse => revised document document.body.reverse

/- Several requests in turn, with a generator for each. -/
def runAfresh :
    Document → List Request → List Reply
  | _, [] => []
  | document, request :: more =>
      let (reply, after) := stepAfresh document request
      reply :: runAfresh after more

/- A step depends on the generator's document alone. -/
theorem step_eq_stepAfresh
    (generator : Generator)
    (request : Request) :
    (step generator request).1 =
        (stepAfresh generator.document request).1 ∧
      (step generator request).2.document =
        (stepAfresh generator.document request).2 := by
  cases request with
  | build =>
      obtain ⟨hText, hDocument⟩ :=
        generator.build_eq_generate {}
      have hNew :=
        ((Generator.new generator.document).build_eq_generate
          {}).1
      exact ⟨congrArg Reply.ofBuild (hText.trans hNew.symm),
        hDocument⟩
  | append source =>
      unfold step stepAfresh
      dsimp only
      cases Document.parse source with
      | error error => exact ⟨rfl, rfl⟩
      | ok more => exact ⟨rfl, rfl⟩
  | pop =>
      unfold step stepAfresh
      dsimp only
      split
      · exact ⟨rfl, rfl⟩
      · exact ⟨rfl, rfl⟩
  | reverse => exact ⟨rfl, rfl⟩

theorem runFrom_eq_runAfresh
    (generator : Generator)
    (requests : List Request) :
    runFrom generator requests =
      runAfresh generator.document requests := by
  induction requests generalizing generator with
  | nil => rfl
  | cons request more ih =>
      obtain ⟨hReply, hDocument⟩ :=
        step_eq_stepAfresh generator request
      change (step generator request).1 ::
          runFrom (step generator request).2 more =
        (stepAfresh generator.document request).1 ::
          runAfresh
            (stepAfresh generator.document request).2 more
      rw [ih, hReply, hDocument]

/-
  A generator carries nothing from one build to the next. In
  any state, also one that a broken build has left, it gives
  what the document stands for. So a session of edits and
  builds with one generator gives the replies of a session
  with a new generator for every build.
-/
theorem builds_carry_nothing :
    (∀ (generator : Generator) (options : Options),
      (generator.build options).1 =
          generate generator.document ∧
        (generator.build options).2.document =
          generator.document) ∧
      ∀ (document : Document) (requests : List Request),
        run document requests =
          runAfresh document requests := by
  constructor
  · exact Generator.build_eq_generate
  · intro document requests
    exact runFrom_eq_runAfresh (.new document) requests

end Session

end TypeScript

end ThriftTypings
