import ThriftTypings.TypeScript.Layout
import ThriftTypings.TypeScript.Name

/-
  This file defines the declarations that emitted code is
  made of, and the lines in which they are written.
-/

namespace ThriftTypings

namespace TypeScript

-- Types

/- A type expression. -/
inductive TypeExpr where
  | void
  | string
  | boolean
  | number
  | array (element : TypeExpr)
  | record (key value : TypeExpr)
  | reference (name : Text)
  deriving DecidableEq, Repr

/- The text of a type expression. -/
def TypeExpr.text : TypeExpr → Text
  | .void => "void".toList
  | .string => "string".toList
  | .boolean => "boolean".toList
  | .number => "number".toList
  | .array element =>
      "Array<".toList ++ element.text ++ ">".toList
  | .record key value =>
      "Record<".toList ++ key.text ++ ", ".toList ++
        value.text ++ ">".toList
  | .reference name => name

-- Members

/- A property of an interface. -/
structure Property where
  doc : List Text
  name : Text
  optional : Bool
  type : TypeExpr
  deriving DecidableEq, Repr

/- The lines of a property. -/
def Property.lines
    (property : Property) : List Text :=
  docAt 1 property.doc ++
    [lineAt 1
      (propertyKey property.name ++
        (if property.optional then ['?'] else []) ++
        ": ".toList ++ property.type.text ++ ";".toList)]

/- A parameter of a method. -/
structure Parameter where
  binding : Text
  type : TypeExpr
  deriving DecidableEq, Repr

/- The text of a parameter. -/
def Parameter.text
    (parameter : Parameter) : Text :=
  parameter.binding ++ ": ".toList ++ parameter.type.text

/- A method of an interface. -/
structure Method where
  doc : List Text
  name : Text
  parameters : List Parameter
  result : TypeExpr
  deriving DecidableEq, Repr

/- The lines of a method. -/
def Method.lines
    (method : Method) : List Text :=
  docAt 1 method.doc ++
    [lineAt 1
      (propertyKey method.name ++ "(".toList ++
        Text.joined ", ".toList
          (method.parameters.map Parameter.text) ++
        "): ".toList ++ method.result.text ++ ";".toList)]

/- An entry of a constant object. -/
structure Constant where
  doc : List Text
  name : Text
  value : Int
  deriving DecidableEq, Repr

/- The lines of an entry. -/
def Constant.lines
    (constant : Constant) : List Text :=
  docAt 1 constant.doc ++
    [lineAt 1
      (propertyKey constant.name ++ ": ".toList ++
        Text.ofInt constant.value ++ ",".toList)]

-- Declarations

/-
  A declaration: a comment that stands alone, the import of
  a whole module, an interface of properties or of methods,
  or a constant object together with the type of its
  values. The trailing remarks stand before the closing
  brace.
-/
inductive Declaration where
  | standing (doc : List Text)
  | importing (doc : List Text) (binding specifier : Text)
  | properties (doc : List Text) (name : Text)
      (members : List Property) (trailing : List Text)
  | methods (doc : List Text) (name : Text)
      (members : List Method) (trailing : List Text)
  | constants (doc : List Text) (name : Text)
      (members : List Constant) (trailing : List Text)
  deriving DecidableEq, Repr

namespace Declaration

/- The lines of a block in braces. -/
def block
    (opening : Text)
    (inside trailing : List Text)
    (closing : Text) : List Text :=
  [lineAt 0 (opening ++ " \x7b".toList)] ++ inside ++
    remarksAt 1 trailing ++
    [lineAt 0 ("\x7d".toList ++ closing)]

/- The lines of a declaration. -/
def lines : Declaration → List Text
  | .standing doc => docAt 0 doc
  | .importing doc binding specifier =>
      docAt 0 doc ++
        [lineAt 0
          ("import * as ".toList ++ binding ++
            " from ".toList ++ Text.literal specifier ++
            ";".toList)]
  | .properties doc name members trailing =>
      docAt 0 doc ++
        block ("export interface ".toList ++ name)
          (members.flatMap Property.lines) trailing []
  | .methods doc name members trailing =>
      docAt 0 doc ++
        block ("export interface ".toList ++ name)
          (members.flatMap Method.lines) trailing []
  | .constants doc name members trailing =>
      docAt 0 doc ++
        block ("export const ".toList ++ name ++ " =".toList)
          (members.flatMap Constant.lines) trailing
          " as const;".toList ++
        [lineAt 0
          ("export type ".toList ++ name ++
            " = typeof ".toList ++ name ++
            "[keyof typeof ".toList ++ name ++ "];".toList)]

/-
  May the second declaration follow the first one without a
  blank line? Only comments that stand alone, and imports,
  are kept together.
-/
def adjoins : Declaration → Declaration → Bool
  | .standing _, .standing _ => true
  | .importing _ _ _, .importing _ _ _ => true
  | _, _ => false

end Declaration

-- Modules

/- A module: declarations, and remarks after the last. -/
structure Module where
  declarations : List Declaration
  trailing : List Text
  deriving DecidableEq, Repr

namespace Module

/- The page with further declarations, after a given one. -/
def write : Option Declaration → List Declaration →
    Page → Page
  | _, [], page => page
  | none, declaration :: more, page =>
      write (some declaration) more
        (page.blank.add declaration.lines)
  | some previous, declaration :: more, page =>
      let start :=
        if previous.adjoins declaration then page
        else page.blank
      write (some declaration) more
        (start.add declaration.lines)

/- The page of a module. -/
def page
    (module_ : Module) : Page :=
  let written :=
    write none module_.declarations Page.empty
  if module_.trailing.isEmpty then written
  else written.blank.remarks module_.trailing

/- The text of a module. -/
def text
    (module_ : Module) : Text :=
  module_.page.output

end Module

end TypeScript

end ThriftTypings
