import ThriftTypings.Text.Identifier
import ThriftTypings.Text.StringLiteral

/-
  This file defines the names of emitted code: how names of
  any spelling become identifiers, property keys and type
  references.
-/

namespace ThriftTypings

namespace TypeScript

-- Identifiers

/-
  Is the name an identifier? A dollar sign may stand
  wherever an underscore may.
-/
def isIdentifier
    (name : Text) : Bool :=
  Text.isWord (name.map fun c => if c = '$' then '_' else c)

/- The character, or an underscore in its place. -/
def safeChar
    (c : Char) : Char :=
  if c = '$' ∨ Text.continuesWord c then c else '_'

/-
  The nearest identifier: every character that may not
  stand in one becomes an underscore, and a name that may
  not begin as it does gets one in front.
-/
def sanitize
    (name : Text) : Text :=
  let safe := name.map safeChar
  if isIdentifier safe then safe else '_' :: safe

-- Bindings

/- The words that cannot be declared as names. -/
def reservedWords : List Text :=
  ["arguments", "await", "break", "case", "catch", "class",
   "const", "continue", "debugger", "default", "delete",
   "do", "else", "enum", "eval", "export", "extends",
   "false", "finally", "for", "function", "if",
   "implements", "import", "in", "instanceof", "interface",
   "let", "new", "null", "package", "private", "protected",
   "public", "return", "static", "super", "switch", "this",
   "throw", "true", "try", "typeof", "var", "void", "while",
   "with", "yield"].map String.toList

/- A name that can be declared. -/
def bindingName
    (name : Text) : Text :=
  let safe := sanitize name
  if safe ∈ reservedWords then safe ++ ['_'] else safe

-- Property Keys and Type References

/- A property key: any name will do, if need be in quotes. -/
def propertyKey
    (name : Text) : Text :=
  if isIdentifier name then name else Text.literal name

/-
  A reference to a type by its dotted name. The first part
  is a declared name, the others are members.
-/
def typeReference
    (name : Text) : Text :=
  match Text.pieces '.' name with
  | [] => []
  | head :: members =>
      Text.joined ['.']
        (bindingName head :: members.map sanitize)

end TypeScript

end ThriftTypings
