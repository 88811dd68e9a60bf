import ThriftTypings.TypeScript.Generate

/-
  This file defines generators. A generator belongs to one
  document and may build it again and again. It walks the
  document node by node and writes on a page as it goes.

  A generator keeps the page, the bindings that are taken,
  the kind of the definition before, and the position of the
  next enum member. A build that cannot read a value breaks
  off and leaves all of this as it stands.
-/

namespace ThriftTypings

namespace TypeScript

open Idl

-- Generators

/- The settings of a build. None are known yet. -/
structure Options where
  deriving DecidableEq, Repr

/- A generator, with what its last build has left. -/
structure Generator where
  document : Document
  options : Options
  page : Page
  bindings : List Text
  previous : Option Kind
  position : Nat
  deriving DecidableEq, Repr

/- A walk that broke off: why, and what it has left. -/
structure Broken where
  fault : IntegerFault
  left : Generator
  deriving DecidableEq, Repr

namespace Generator

/- A generator that has not built anything yet. -/
def new
    (document : Document) : Generator where
  document := document
  options := {}
  page := .empty
  bindings := []
  previous := none
  position := 0

/- Something is written on the page. -/
def write
    (generator : Generator)
    (writing : Page → Page) : Generator :=
  { generator with page := writing generator.page }

/-
  A definition is set apart from the one before it. Only
  namespaces and includes are kept together.
-/
def separate
    (generator : Generator)
    (kind : Kind) : Generator :=
  let together :=
    generator.previous == some kind &&
      (kind == .nameSpace || kind == .inclusion)
  { generator with
    page :=
      if together then generator.page
      else generator.page.blank
    previous := some kind }

/- A block opens, and what follows is indented. -/
def openBlock
    (generator : Generator)
    (comments : List Comment)
    (opening : Text) : Generator :=
  generator.write fun page =>
    ((page.doc (commentEntries comments)).line
      (opening ++ " \x7b".toList)).indent 1

/- A block closes after the remarks at its end. -/
def closeBlock
    (generator : Generator)
    (trailing : List Comment)
    (closing : Text) : Generator :=
  generator.write fun page =>
    ((page.remarks (commentEntries trailing)).indent
      (-1)).line ("\x7d".toList ++ closing)

-- Members

/- A field of a struct. -/
def visitField
    (generator : Generator)
    (field : Field) : Generator :=
  generator.write fun page =>
    (page.doc
      (commentEntries field.comments ++
        ["@fieldId ".toList ++ field.id] ++
        annotationTags field.annotations)).line
      (propertyKey field.name ++
        (if field.requiredness == some .optional then ['?']
         else []) ++
        ": ".toList ++ (TypeExpr.ofIdl field.type).text ++
        ";".toList)

/- A parameter of a function, as it is declared. -/
def parameterText
    (field : Field) : Text :=
  bindingName field.name ++ ": ".toList ++
    (TypeExpr.ofIdl field.type).text

/- A function of a service. -/
def visitFunction
    (generator : Generator)
    (function : Function) : Generator :=
  generator.write fun page =>
    (page.doc
      (commentEntries function.comments ++
        function.fields.map parameterTag ++
        annotationTags function.annotations)).line
      (propertyKey function.name ++ "(".toList ++
        Text.joined ", ".toList
          (function.fields.map parameterText) ++
        "): ".toList ++
        (TypeExpr.ofIdl function.returnType).text ++
        ";".toList)

/- A member of an enum, which may break off the walk. -/
def visitMember
    (generator : Generator)
    (found : EnumMember) : Except Broken Generator :=
  match memberValue generator.position found with
  | .error fault => .error ⟨fault, generator⟩
  | .ok value =>
      let counted :=
        { generator with position := generator.position + 1 }
      .ok
        (counted.write fun page =>
          (page.doc (commentEntries found.comments)).line
            (propertyKey found.name ++ ": ".toList ++
              Text.ofInt value ++ ",".toList))

-- Definitions

/- A namespace stands in a comment of its own. -/
def visitNamespace
    (generator : Generator)
    (found : NamespaceDef) : Generator :=
  (generator.separate .nameSpace).write fun page =>
    page.doc
      (commentEntries found.comments ++
        ["namespace ".toList ++ found.scope ++
          " ".toList ++ found.name])

/- An include takes a binding that is free. -/
def visitInclude
    (generator : Generator)
    (found : IncludeDef) : Generator :=
  let apart := generator.separate .inclusion
  let binding := importBinding apart.bindings found.path
  let bound :=
    { apart with bindings := apart.bindings ++ [binding] }
  bound.write fun page =>
    (page.doc (commentEntries found.comments)).line
      ("import * as ".toList ++ binding ++ " from ".toList ++
        Text.literal (Path.importSpecifier found.path) ++
        ";".toList)

/- A struct, with its fields inside a block. -/
def visitStruct
    (generator : Generator)
    (found : StructDef) : Generator :=
  let opened :=
    (generator.separate .struct).openBlock found.comments
      ("export interface ".toList ++ bindingName found.name)
  (found.fields.foldl visitField opened).closeBlock
    found.trailing []

/-
  An enum, with its members inside a block. The positions of
  its members start anew.
-/
def visitEnum
    (generator : Generator)
    (found : EnumDef) : Except Broken Generator :=
  let name := bindingName found.name
  let opened :=
    (generator.separate .enum).openBlock found.comments
      ("export const ".toList ++ name ++ " =".toList)
  let started := { opened with position := 0 }
  match found.members.foldlM visitMember started with
  | .error broken => .error broken
  | .ok walked =>
      .ok
        ((walked.closeBlock found.trailing
          " as const;".toList).write fun page =>
            page.line
              ("export type ".toList ++ name ++
                " = typeof ".toList ++ name ++
                "[keyof typeof ".toList ++ name ++
                "];".toList))

/- A service, with its functions inside a block. -/
def visitService
    (generator : Generator)
    (found : ServiceDef) : Generator :=
  let opened :=
    (generator.separate .service).openBlock found.comments
      ("export interface ".toList ++ bindingName found.name)
  (found.functions.foldl visitFunction opened).closeBlock
    found.trailing []

/- A definition of any kind. -/
def visit
    (generator : Generator) :
    Definition → Except Broken Generator
  | .nameSpace found => .ok (generator.visitNamespace found)
  | .inclusion found => .ok (generator.visitInclude found)
  | .struct found => .ok (generator.visitStruct found)
  | .enum found => generator.visitEnum found
  | .service found => .ok (generator.visitService found)

-- Builds

/-
  The generator at the start of a build. The position of the
  next member stays, since every enum sets it.
-/
def restart
    (generator : Generator)
    (options : Options) : Generator :=
  { generator with
    options := options
    page := .empty
    bindings := []
    previous := none }

/- What stands after the last definition is written. -/
def finish
    (generator : Generator) : Generator :=
  if generator.document.trailing.isEmpty then generator
  else
    generator.write fun page =>
      page.blank.remarks
        (commentEntries generator.document.trailing)

/- One build: the text, or why there is none. -/
def build
    (generator : Generator)
    (options : Options) :
    Except IntegerFault Text × Generator :=
  match
    generator.document.body.foldlM visit
      (generator.restart options)
  with
  | .error broken => (.error broken.fault, broken.left)
  | .ok walked =>
      (.ok walked.finish.page.output, walked.finish)

end Generator

end TypeScript

end ThriftTypings
