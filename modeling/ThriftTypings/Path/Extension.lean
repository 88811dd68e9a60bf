import ThriftTypings.Text.Basic

/-
  This file defines how the name of a generated module
  follows from the path of a source. Everything but the
  extension is kept as it is written.
-/

namespace ThriftTypings

namespace Path

-- Extensions

/- The extension of source files. -/
def sourceExtension : Text := ".thrift".toList

/- The extension of generated modules. -/
def outputExtension : Text := ".ts".toList

/-
  The file name of a path without its extension. A dot in
  front of the name opens no extension.
-/
def moduleStem
    (path : Text) : Text :=
  let name := Text.afterLast '/' path
  let stem := (Text.throughLast '.' name).dropLast
  if stem.isEmpty then name else stem

/- The path with another extension on its last segment. -/
def replaceExtension
    (path : Text)
    (extension : Text := outputExtension) : Text :=
  Text.throughLast '/' path ++
    moduleStem (Text.afterLast '/' path) ++ extension

/-
  The specifier under which the module of an included
  source is imported. It is relative to the importing
  module unless it is absolute.
-/
def importSpecifier
    (include_ : Text) : Text :=
  let target := replaceExtension include_
  if Text.startsWith target "./".toList ||
      Text.startsWith target "../".toList ||
      Text.startsWith target "/".toList then
    target
  else
    "./".toList ++ target

end Path

end ThriftTypings
