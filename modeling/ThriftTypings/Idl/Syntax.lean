import ThriftTypings.Text.Basic

/-
  This file defines the documents of the interface
  definition language: their definitions, members, types,
  annotations and comments.

  Names, numbers and paths are kept as they are written.
-/

namespace ThriftTypings

namespace Idl

-- Comments

/-
  A comment: one that runs to the end of its line, or a
  block, which may span lines. The texts are stripped.
-/
inductive Comment where
  | line (text : Text)
  | block (lines : List Text)
  deriving DecidableEq, Repr

-- Types

/- The built-in types. -/
inductive Primitive where
  | void
  | string
  | i16
  | i32
  | i64
  | double
  | bool
  deriving DecidableEq, Repr

namespace Primitive

/- The keyword of a built-in type. -/
def word : Primitive → Text
  | .void => "void".toList
  | .string => "string".toList
  | .i16 => "i16".toList
  | .i32 => "i32".toList
  | .i64 => "i64".toList
  | .double => "double".toList
  | .bool => "bool".toList

/- The built-in types in their usual order. -/
def all : List Primitive :=
  [.void, .string, .i16, .i32, .i64, .double, .bool]

/- No keyword is empty. -/
theorem length_word_pos
    (primitive : Primitive) :
    0 < primitive.word.length := by
  cases primitive <;> decide

end Primitive

/-
  A type. A named one refers to a definition, of this
  document or, with a dotted name, of an included one.
-/
inductive IdlType where
  | primitive (name : Primitive)
  | list (element : IdlType)
  | map (key value : IdlType)
  | named (name : Text)
  deriving DecidableEq, Repr

-- Members

/- A piece of metadata on a field or a function. -/
structure Annot where
  name : Text
  value : Text
  deriving DecidableEq, Repr

/- Whether a field may be left out. -/
inductive Requiredness where
  | optional
  | required
  deriving DecidableEq, Repr

namespace Requiredness

/- The keyword of a requiredness. -/
def word : Requiredness → Text
  | .optional => "optional".toList
  | .required => "required".toList

/- Both, in their usual order. -/
def all : List Requiredness :=
  [.optional, .required]

end Requiredness

/-
  A field of a struct, or a parameter of a function. The id
  is the ordinal as written; ids may repeat. No annotations
  and an empty list of them are told apart.
-/
structure Field where
  id : Text
  requiredness : Option Requiredness
  type : IdlType
  name : Text
  annotations : Option (List Annot)
  comments : List Comment
  deriving DecidableEq, Repr

/- A member of an enum, with its value as written. -/
structure EnumMember where
  name : Text
  value : Option Text
  comments : List Comment
  deriving DecidableEq, Repr

/- A function of a service. -/
structure Function where
  returnType : IdlType
  name : Text
  fields : List Field
  annotations : Option (List Annot)
  comments : List Comment
  deriving DecidableEq, Repr

-- Definitions

/- The name that a document takes in some target scope. -/
structure NamespaceDef where
  scope : Text
  name : Text
  comments : List Comment
  deriving DecidableEq, Repr

/- The inclusion of another document, by its path. -/
structure IncludeDef where
  path : Text
  comments : List Comment
  deriving DecidableEq, Repr

/- A struct and its fields. -/
structure StructDef where
  name : Text
  fields : List Field
  comments : List Comment
  trailing : List Comment
  deriving DecidableEq, Repr

/- An enum and its members. -/
structure EnumDef where
  name : Text
  members : List EnumMember
  comments : List Comment
  trailing : List Comment
  deriving DecidableEq, Repr

/- A service and its functions. -/
structure ServiceDef where
  name : Text
  functions : List Function
  comments : List Comment
  trailing : List Comment
  deriving DecidableEq, Repr

/- A definition at the top level of a document. -/
inductive Definition where
  | nameSpace (definition : NamespaceDef)
  | inclusion (definition : IncludeDef)
  | struct (definition : StructDef)
  | enum (definition : EnumDef)
  | service (definition : ServiceDef)
  deriving DecidableEq, Repr

/- The kinds of definitions. -/
inductive Kind where
  | nameSpace
  | inclusion
  | struct
  | enum
  | service
  deriving DecidableEq, Repr

namespace Kind

/- The keyword that opens a definition of this kind. -/
def word : Kind → Text
  | .nameSpace => "namespace".toList
  | .inclusion => "include".toList
  | .struct => "struct".toList
  | .enum => "enum".toList
  | .service => "service".toList

/- The kinds in their usual order. -/
def all : List Kind :=
  [.nameSpace, .inclusion, .struct, .enum, .service]

end Kind

namespace Definition

/- The kind of a definition. -/
def kind : Definition → Kind
  | .nameSpace _ => .nameSpace
  | .inclusion _ => .inclusion
  | .struct _ => .struct
  | .enum _ => .enum
  | .service _ => .service

end Definition

-- Documents

/-
  A document: its definitions in order, and the comments
  that follow the last of them.
-/
structure Document where
  body : List Definition
  trailing : List Comment
  deriving DecidableEq, Repr

end Idl

end ThriftTypings
