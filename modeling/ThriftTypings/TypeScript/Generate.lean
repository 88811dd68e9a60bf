import ThriftTypings.Idl.Syntax
import ThriftTypings.Path.Extension
import ThriftTypings.Text.Integer
import ThriftTypings.TypeScript.Declaration

/-
  This file defines the module that a document stands for:
  structs and services become interfaces, enums become
  constant objects, and includes become imports. Field ids,
  annotations and comments become documentation.
-/

namespace ThriftTypings

namespace TypeScript

open Idl

-- Comments

/-
  The line of a block comment without the star that many
  write at its front, and without one space after it.
-/
def withoutGutter : Text → Text
  | '*' :: '/' :: rest => '*' :: '/' :: rest
  | '*' :: ' ' :: rest => rest
  | '*' :: rest => rest
  | text => text

/- The list without the empty texts at both ends. -/
def trimmed
    (texts : List Text) : List Text :=
  let front := texts.dropWhile (·.isEmpty)
  (front.reverse.dropWhile (·.isEmpty)).reverse

/- The entries of a block comment, one at least. -/
def blockEntries
    (lines : List Text) : List Text :=
  match trimmed (lines.map withoutGutter) with
  | [] => [[]]
  | first :: more => first :: more

/- The entries of a comment. -/
def commentEntry : Comment → List Text
  | .line text => [text]
  | .block lines => blockEntries lines

/- The entries of several comments. -/
def commentEntries
    (comments : List Comment) : List Text :=
  comments.flatMap commentEntry

-- Tags

/- An annotation as an assignment. -/
def assignment
    (found : Annot) : Text :=
  found.name ++ "=".toList ++ found.value

/- The tags of annotations, one for each. -/
def annotationTags
    (annotations : Option (List Annot)) : List Text :=
  (annotations.getD []).map fun found =>
    "@annotation ".toList ++ assignment found

/- The tag of a parameter. -/
def parameterTag
    (field : Field) : Text :=
  let listed :=
    match field.annotations with
    | none => []
    | some [] => []
    | some (first :: more) =>
        " (".toList ++
          Text.joined ", ".toList
            ((first :: more).map assignment) ++
          ")".toList
  let description :=
    Text.joined " ".toList (commentEntries field.comments)
  "@param ".toList ++ bindingName field.name ++
    " fieldId ".toList ++ field.id ++ listed ++
    (if description.isEmpty then []
     else " ".toList ++ description)

-- Types

/- The built-in type that stands for one of the language. -/
def primitiveType : Primitive → TypeExpr
  | .void => .void
  | .string => .string
  | .bool => .boolean
  | .i16 => .number
  | .i32 => .number
  | .i64 => .number
  | .double => .number

/- The type expression of a type. -/
def TypeExpr.ofIdl : IdlType → TypeExpr
  | .primitive name => primitiveType name
  | .list element => .array (TypeExpr.ofIdl element)
  | .map key value =>
      .record (TypeExpr.ofIdl key) (TypeExpr.ofIdl value)
  | .named name => .reference (typeReference name)

-- Members

/- The property of a field. -/
def Property.ofField
    (field : Field) : Property where
  doc :=
    commentEntries field.comments ++
      ["@fieldId ".toList ++ field.id] ++
      annotationTags field.annotations
  name := field.name
  optional := field.requiredness == some .optional
  type := TypeExpr.ofIdl field.type

/- The method of a function. -/
def Method.ofFunction
    (function : Function) : Method where
  doc :=
    commentEntries function.comments ++
      function.fields.map parameterTag ++
      annotationTags function.annotations
  name := function.name
  parameters :=
    function.fields.map fun field =>
      { binding := bindingName field.name
        type := TypeExpr.ofIdl field.type }
  result := TypeExpr.ofIdl function.returnType

/-
  The value of an enum member: as written, or its position
  among all members.
-/
def memberValue
    (position : Nat)
    (found : EnumMember) : Except IntegerFault Int :=
  match found.value with
  | some written => Text.toInteger written
  | none => .ok position

/- The entries of enum members from a position on. -/
def constantsFrom :
    Nat → List EnumMember →
      Except IntegerFault (List Constant)
  | _, [] => .ok []
  | position, found :: more =>
      match memberValue position found with
      | .error fault => .error fault
      | .ok value =>
          match constantsFrom (position + 1) more with
          | .error fault => .error fault
          | .ok constants =>
              .ok
                ({ doc := commentEntries found.comments
                   name := found.name
                   value := value } :: constants)

-- Imports

/- The names to try for an import, in order. -/
def candidate
    (base : Text) : Nat → Text
  | 0 => base
  | k + 1 => base ++ "_".toList ++ Text.ofNat (k + 2)

/-
  The first candidate that is not taken. Among one more
  candidates than there are taken names, one is free.
-/
def freshBinding
    (taken : List Text)
    (base : Text) : Text :=
  match
    ((List.range (taken.length + 1)).map (candidate base)).find?
      fun name => !taken.contains name
  with
  | some name => name
  | none => base

/- The binding of an import by the path of its source. -/
def importBinding
    (taken : List Text)
    (path : Text) : Text :=
  freshBinding taken (bindingName (Path.moduleStem path))

-- Documents

/-
  The declaration of a definition, given the bindings of
  the imports before it.
-/
def declaration
    (taken : List Text) :
    Definition → Except IntegerFault Declaration
  | .nameSpace found =>
      .ok (.standing
        (commentEntries found.comments ++
          ["namespace ".toList ++ found.scope ++
            " ".toList ++ found.name]))
  | .inclusion found =>
      .ok (.importing (commentEntries found.comments)
        (importBinding taken found.path)
        (Path.importSpecifier found.path))
  | .struct found =>
      .ok (.properties (commentEntries found.comments)
        (bindingName found.name)
        (found.fields.map Property.ofField)
        (commentEntries found.trailing))
  | .enum found =>
      match constantsFrom 0 found.members with
      | .error fault => .error fault
      | .ok constants =>
          .ok (.constants (commentEntries found.comments)
            (bindingName found.name) constants
            (commentEntries found.trailing))
  | .service found =>
      .ok (.methods (commentEntries found.comments)
        (bindingName found.name)
        (found.functions.map Method.ofFunction)
        (commentEntries found.trailing))

/- The bindings that are taken after a declaration. -/
def takenAfter
    (taken : List Text) : Declaration → List Text
  | .importing _ binding _ => taken ++ [binding]
  | _ => taken

/- The declarations of definitions, in order. -/
def declarationsFrom :
    List Text → List Definition →
      Except IntegerFault (List Declaration)
  | _, [] => .ok []
  | taken, found :: more =>
      match declaration taken found with
      | .error fault => .error fault
      | .ok first =>
          match
            declarationsFrom (takenAfter taken first) more
          with
          | .error fault => .error fault
          | .ok declarations => .ok (first :: declarations)

/- The module of a document. -/
def Module.ofDocument
    (document : Document) : Except IntegerFault Module :=
  match declarationsFrom [] document.body with
  | .error fault => .error fault
  | .ok declarations =>
      .ok
        { declarations := declarations
          trailing := commentEntries document.trailing }

/- The text of the module of a document. -/
def generate
    (document : Document) : Except IntegerFault Text :=
  match Module.ofDocument document with
  | .error fault => .error fault
  | .ok found => .ok found.text

end TypeScript

end ThriftTypings
