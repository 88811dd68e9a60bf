import ThriftTypings.FileTree.Lookup

/-
  This file defines what programs do to a file tree: read
  and write files, make directories, and remove whole
  trees. An operation gives its outcome and the tree after
  it, since one that fails may have changed the tree.
-/

namespace ThriftTypings

namespace FileTree

-- Reading

/- The refusal of a path. -/
def refusal
    (cause : FileCause)
    (path : Path) : FileFault :=
  .refused { cause := cause, path := path.text }

/- The content of the file at a path. -/
def read
    (tree : FileTree)
    (path : Path) : Except FileFault (List UInt8) :=
  match tree.find true path with
  | .error fault => .error fault
  | .ok (.missing _) => .error (refusal .notFound path)
  | .ok (.present place) =>
      match tree.get? place with
      | some (.file content) => .ok content
      | _ => .error (refusal .isDirectory path)

/- Is there a directory at the path, over links or not? -/
def isDirectory
    (tree : FileTree)
    (path : Path) : Bool :=
  match tree.find true path with
  | .ok (.present place) => tree.isDirectoryAt place
  | _ => false

/- Is there anything at the path, be it a broken link? -/
def isThere
    (tree : FileTree)
    (path : Path) : Bool :=
  match tree.find false path with
  | .ok (.present _) => true
  | _ => false

-- Writing

/- Writes a file, over links, in place of what it held. -/
def write
    (tree : FileTree)
    (path : Path)
    (content : List UInt8) :
    Except FileFault FileTree :=
  match tree.find true path with
  | .error fault => .error fault
  | .ok (.missing place) => .ok (tree.put place (.file content))
  | .ok (.present place) =>
      if tree.isDirectoryAt place then
        .error (refusal .isDirectory path)
      else
        .ok (tree.put place (.file content))

/- Makes one directory, where nothing may be yet. -/
def makeDirectory
    (tree : FileTree)
    (path : Path) : Except FileFault FileTree :=
  match tree.find false path with
  | .error fault => .error fault
  | .ok (.missing place) => .ok (tree.put place .directory)
  | .ok (.present _) => .error (refusal .alreadyThere path)

/-
  Makes a directory and those above it that are missing. It
  is no fault if the directory is there already.
-/
def makeDirectories
    (tree : FileTree)
    (path : Path) : Except FileFault Unit × FileTree :=
  match tree.makeDirectory path with
  | .ok made => (.ok (), made)
  | .error fault =>
      if fault.isNotFound then
        if _h : path.segments = [] then
          (.error fault, tree)
        else
          match makeDirectories tree path.parent with
          | (.error above, partly) => (.error above, partly)
          | (.ok (), partly) =>
              match partly.makeDirectory path with
              | .ok made => (.ok (), made)
              | .error again =>
                  if !again.isNotFound &&
                      partly.isDirectory path then
                    (.ok (), partly)
                  else
                    (.error again, partly)
      else if tree.isDirectory path then
        (.ok (), tree)
      else
        (.error fault, tree)
termination_by path.segments.length
decreasing_by
  have := List.length_pos_iff.mpr _h
  simp only [Path.parent, List.length_dropLast]
  omega

-- Linking

/- The fault of a link, given that of its path. -/
def linkFault
    (target : Text) : FileFault → FileFault
  | .refused error =>
      .refused { error with link := some target }
  | .nullByte => .nullByte

/- Makes a link, where nothing may be yet. -/
def makeLink
    (tree : FileTree)
    (path : Path)
    (target : Text) : Except FileFault FileTree :=
  match tree.find false path with
  | .error fault => .error (linkFault target fault)
  | .ok (.present _) =>
      .error (linkFault target (refusal .alreadyThere path))
  | .ok (.missing place) =>
      if target.contains '\x00' then .error .nullByte
      else if target.isEmpty then
        .error (linkFault target (refusal .notFound path))
      else
        .ok (tree.put place (.link target))

-- Removing

/- Removes a file, a link, or a directory with its content. -/
def remove
    (tree : FileTree)
    (path : Path) : Except FileFault FileTree :=
  match tree.find false path with
  | .error fault => .error fault
  | .ok (.missing _) => .error (refusal .notFound path)
  | .ok (.present place) => .ok (tree.erase place)

/-
  Removes a directory with all that is in it. A link is not
  followed: one that leads somewhere is refused, and one
  that leads nowhere is not found.
-/
def removeTree
    (tree : FileTree)
    (path : Path) : Except FileFault FileTree :=
  match tree.find false path with
  | .error fault => .error fault
  | .ok (.missing _) => .error (refusal .notFound path)
  | .ok (.present place) =>
      match tree.get? place with
      | some .directory => .ok (tree.erase place)
      | some (.link _) =>
          match tree.find true path with
          | .error fault => .error fault
          | .ok (.missing _) =>
              .error (refusal .notFound path)
          | .ok (.present _) =>
              .error (refusal .removesLink path)
      | _ => .error (refusal .notDirectory path)

end FileTree

end ThriftTypings
