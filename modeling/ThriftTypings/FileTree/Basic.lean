import ThriftTypings.Path.Basic
import ThriftTypings.Text.Utf8

/-
  This file defines file trees: what stands at each place
  of a file system. A place is the list of names on the way
  to it from the root, without links on the way.
-/

namespace ThriftTypings

-- Trees

/- A place: the names on the way from the root. -/
abbrev Place := List Text

/- What may stand at a place. -/
inductive Entry where
  | file (content : List UInt8)
  | directory
  | link (target : Text)
  deriving DecidableEq, Repr

/- Is the entry a link? -/
def FileTree.isLink : Entry → Bool
  | .link _ => true
  | _ => false

/-
  A file tree: the entries with their places. The root is a
  directory and not listed.
-/
structure FileTree where
  entries : List (Place × Entry)
  deriving DecidableEq, Repr

namespace FileTree

/- The tree with nothing but its root. -/
def empty : FileTree where
  entries := []

/- What stands at a place. -/
def get?
    (tree : FileTree)
    (place : Place) : Option Entry :=
  if place = [] then some .directory
  else tree.entries.lookup place

/- The tree with an entry at a place. -/
def put
    (tree : FileTree)
    (place : Place)
    (entry : Entry) : FileTree where
  entries :=
    (place, entry) ::
      tree.entries.filter fun found => found.1 != place

/- The tree without a place and all that is below it. -/
def erase
    (tree : FileTree)
    (place : Place) : FileTree where
  entries :=
    tree.entries.filter fun found =>
      !place.isPrefixOf found.1

/-
  Everything below a place, by the names on the way from
  there.
-/
def below
    (tree : FileTree)
    (place : Place) : List (Place × Entry) :=
  tree.entries.filterMap fun (found, entry) =>
    if place.isPrefixOf found && found != place then
      some (found.drop place.length, entry)
    else
      none

end FileTree

end ThriftTypings
