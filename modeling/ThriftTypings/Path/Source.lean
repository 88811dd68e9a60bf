import ThriftTypings.Path.Basic
import ThriftTypings.Path.Extension

/-
  This file defines where sources are looked for, what
  their place below the source root is, and where their
  modules go.
-/

namespace ThriftTypings

namespace Path

-- Places of Sources

/-
  A path as it is meant in a directory, in normal form.
  Roots are resolved in the working directory, and entry
  files in the source root.
-/
def resolve
    (directory : Path)
    (path : Text) : Path :=
  (directory.join (ofText path)).normal

/- The directory that a spelled path lies in. -/
def directoryOf
    (path : Text) : Path :=
  ofText (Text.throughLast '/' path)

/- An included source, as meant in the including file. -/
def included
    (file : Path)
    (include_ : Text) : Path :=
  resolve file.parent include_

-- Places Below the Source Root

end Path

/- Why a file has no place below a source root. -/
inductive OutsideFault where
  | noPath
  | outside (file root : Text)
  deriving DecidableEq, Repr

/- The wording of the fault. -/
def OutsideFault.message : OutsideFault → Text
  | .noPath => "no path specified".toList
  | .outside file root =>
      file ++ " is outside the source root ".toList ++ root

namespace Path

/- The place of a file below a root, as a relative path. -/
def relativeTo
    (root file : Path) : Except OutsideFault Text :=
  match below? root file with
  | some segments => .ok (Text.joined ['/'] segments)
  | none => .error (.outside file.text root.text)

/- How many segments two lists have in common in front. -/
def shared : List Text → List Text → Nat
  | a :: as, b :: bs => if a = b then shared as bs + 1 else 0
  | _, _ => 0

/-
  The way from one path to another: up to where the two
  part, and down from there.
-/
def way
    (start goal : Path) : Path :=
  let common := shared start.segments goal.segments
  { slashes := 0
    segments :=
      List.replicate (start.segments.length - common) above ++
        goal.segments.drop common }

/- Does a way, by its spelling, lead nowhere or up? -/
def leadsAway
    (relative : Text) : Bool :=
  relative == here || relative == above ||
    Text.startsWith relative (above ++ ['/'])

/-
  The place of a file below a root, both spelled and meant
  in the working directory. The way to the file says whether
  it is below the root. A fault repeats the paths as spelled.
-/
def relativeSource
    (directory : Path)
    (root file : Text) : Except OutsideFault Text :=
  if file.isEmpty then
    .error .noPath
  else
    let relative :=
      (way (resolve directory root)
        (resolve directory file)).text
    if leadsAway relative then
      .error (.outside file root)
    else
      .ok (relative.dropWhile (· == '/'))

-- Places of Modules

/- Where the module of a source goes below an output root. -/
def output
    (root : Path)
    (relative : Text) : Path :=
  root.join (ofText (replaceExtension (ofText relative).text))

end Path

end ThriftTypings
