import ThriftTypings.Path.Basic
import ThriftTypings.Path.Extension

/-
  This file defines which changes of files matter to a
  watch: those of sources that are neither in a directory of
  some tool, nor leftovers of an editor, nor at an ignored
  path.
-/

namespace ThriftTypings

namespace Watch

-- Changes

/- What may happen to a file. -/
inductive Action where
  | added
  | modified
  | deleted
  deriving DecidableEq, Repr

/- A change of a file, by its path as spelled. -/
structure Change where
  action : Action
  path : Text
  deriving DecidableEq, Repr

/- Is the path that of a source? -/
def isSource
    (path : Text) : Bool :=
  (Path.ofText path).suffix == Path.sourceExtension

-- Ignored Directories

/- The directories of tools. -/
def toolDirectories : List Text :=
  ["__pycache__", ".git", ".hg", ".svn", ".tox", ".venv",
   ".idea", "node_modules", ".mypy_cache", ".pytest_cache",
   ".hypothesis"].map String.toList

/- The parts of a path between slashes, after the first. -/
def parts
    (path : Text) : List Text :=
  Text.pieces '/' (path.dropWhile (· == '/'))

/- Is a directory of a tool on the path? -/
def ignoresDirectory
    (path : Text) : Bool :=
  (parts path).any toolDirectories.contains

-- Ignored Names

/- Do the characters fit the tests, one by one? -/
def fits : List (Char → Bool) → Text → Bool
  | [], [] => true
  | test :: tests, c :: rest => test c && fits tests rest
  | _, _ => false

/- The tests for exactly the characters of a text. -/
def exactly
    (text : Text) : List (Char → Bool) :=
  text.map fun c => (· == c)

/- The tests for any characters on one line. -/
def anything
    (count : Nat) : List (Char → Bool) :=
  List.replicate count (· != '\n')

/- Does the name end as the tests say? -/
def endsLike
    (tests : List (Char → Bool))
    (name : Text) : Bool :=
  fits tests (name.drop (name.length - tests.length))

/- The endings of names that editors and tools leave. -/
def leftoverEndings : List (List (Char → Bool)) :=
  [exactly ".pyc".toList,
   exactly ".pyo".toList,
   exactly ".pyd".toList,
   exactly ".___jb_".toList ++ anything 3 ++
     exactly "___".toList,
   exactly ".sw".toList ++ anything 1,
   exactly "~".toList]

/- Is the name one that an editor or a tool leaves? -/
def isLeftover
    (name : Text) : Bool :=
  leftoverEndings.any (fun tests => endsLike tests name) ||
    name == ".DS_Store".toList

/-
  Is the name ignored? A line end after a leftover name
  does not matter, and two beginnings are ignored whatever
  follows them.
-/
def ignoresName
    (name : Text) : Bool :=
  isLeftover name ||
    (Text.endsWith name ['\n'] && isLeftover name.dropLast) ||
    Text.startsWith name ".#".toList ||
    Text.startsWith name "flycheck_".toList

/- Is the name at the end of the path ignored? -/
def ignoresLast
    (path : Text) : Bool :=
  ignoresName ((parts path).getLast?.getD [])

-- The Filter

/-
  Does a change matter? Ignored paths are compared by their
  spelling: whatever begins like one is ignored.
-/
def Change.passes
    (ignored : List Text)
    (change : Change) : Bool :=
  isSource change.path &&
    !ignoresDirectory change.path &&
    !ignoresLast change.path &&
    !ignored.any (Text.startsWith change.path)

end Watch

end ThriftTypings
