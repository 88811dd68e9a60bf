import ThriftTypings.FileTree.Basic

/-
  This file defines how a path is followed through a file
  tree, over links, and what may go wrong on the way.
-/

namespace ThriftTypings

-- Faults

/- Why the file system refuses something. -/
inductive FileCause where
  | notFound
  | alreadyThere
  | notDirectory
  | isDirectory
  | nameTooLong
  | tooManyLinks
  | removesLink
  deriving DecidableEq, Repr

/-
  A refusal, with the path that was asked for, and with the
  link to be made there, if there was one.
-/
structure FileError where
  cause : FileCause
  path : Text
  link : Option Text := none
  deriving DecidableEq, Repr

/- The number and the wording of a cause, if it has them. -/
def FileCause.coded? : FileCause → Option (Nat × Text)
  | .notFound => some (2, "No such file or directory".toList)
  | .alreadyThere => some (17, "File exists".toList)
  | .notDirectory => some (20, "Not a directory".toList)
  | .isDirectory => some (21, "Is a directory".toList)
  | .nameTooLong => some (36, "File name too long".toList)
  | .tooManyLinks =>
      some (40, "Too many levels of symbolic links".toList)
  | .removesLink => none

/- The wording of a cause alone. -/
def FileCause.message
    (cause : FileCause) : Text :=
  match cause.coded? with
  | some (number, wording) =>
      "[Errno ".toList ++ Text.ofNat number ++ "] ".toList ++
        wording
  | none => "Cannot call rmtree on a symbolic link".toList

/- What was asked for, as a refusal words it. -/
def FileError.subject
    (error : FileError) : Text :=
  match error.link with
  | none => Text.shown error.path
  | some target =>
      Text.shown target ++ " -> ".toList ++
        Text.shown error.path

/-
  The wording of a refusal. What was asked for is named only
  if the cause has a number.
-/
def FileError.message
    (error : FileError) : Text :=
  match error.cause.coded? with
  | some _ =>
      error.cause.message ++ ": ".toList ++ error.subject
  | none => error.cause.message

/-
  What goes wrong with a path: it is refused, or it holds a
  null byte and cannot be asked for at all.
-/
inductive FileFault where
  | refused (error : FileError)
  | nullByte
  deriving DecidableEq, Repr

/- Is it only that something on the way is missing? -/
def FileFault.isNotFound : FileFault → Bool
  | .refused error => error.cause == .notFound
  | .nullByte => false

-- Following Paths

/-
  Where a path leads: to an entry, or to a name that is
  missing from an existing directory.
-/
inductive Located where
  | present (place : Place)
  | missing (place : Place)
  deriving DecidableEq, Repr

/- The greatest length of a name, in bytes. -/
def nameLimit : Nat := 255

/- The greatest length of a path, in bytes. -/
def pathLimit : Nat := 4095

/- The greatest number of links that are followed. -/
def linkLimit : Nat := 40

namespace FileTree

/-
  Follows names from a place. A link on the way is followed
  to its target; one at the end only if asked for. `links`
  says how many more may be followed. An empty name and a
  dot stay where they are, but only a directory has them.
-/
def follow
    (tree : FileTree)
    (last : Bool)
    (links : Nat)
    (place : Place) :
    List Text → Except FileCause Located
  | [] => .ok (.present place)
  | name :: more =>
      if tree.get? place ≠ some .directory then
        .error .notDirectory
      else if name = [] ∨ name = Path.here then
        follow tree last links place more
      else if name = Path.above then
        follow tree last links place.dropLast more
      else if nameLimit < (Utf8.encode name).length then
        .error .nameTooLong
      else
        match tree.get? (place ++ [name]) with
        | none =>
            if more = [] then
              .ok (.missing (place ++ [name]))
            else
              .error .notFound
        | some .directory =>
            follow tree last links (place ++ [name]) more
        | some (.file _) =>
            if more = [] then
              .ok (.present (place ++ [name]))
            else
              .error .notDirectory
        | some (.link target) =>
            if more = [] ∧ !last then
              .ok (.present (place ++ [name]))
            else
              match links with
              | 0 => .error .tooManyLinks
              | fewer + 1 =>
                  follow tree last fewer
                    (if Text.startsWith target ['/'] then []
                      else place)
                    (Text.pieces '/' target ++ more)
termination_by names => (links, names.length)

/- Is the entry at the place a directory? -/
def isDirectoryAt
    (tree : FileTree)
    (place : Place) : Bool :=
  tree.get? place == some .directory

/-
  Where an absolute path leads. A link at its end is
  followed only if asked for.
-/
def find
    (tree : FileTree)
    (last : Bool)
    (path : Path) : Except FileFault Located :=
  let spelled := path.text
  if '\x00' ∈ spelled then
    .error .nullByte
  else if pathLimit < (Utf8.encode spelled).length then
    .error
      (.refused { cause := .nameTooLong, path := spelled })
  else
    match follow tree last linkLimit [] path.segments with
    | .error cause =>
        .error (.refused { cause := cause, path := spelled })
    | .ok located => .ok located

end FileTree

end ThriftTypings
