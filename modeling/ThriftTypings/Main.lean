import ThriftTypings.Command.Run

/-
  This file holds the command line.

  A build runs on a picture of the file system, which starts
  with little more than the output root. The sources that
  the build asked for are added to the picture, and the
  build runs again, until it asks for nothing new. Only then
  is what it did carried out.
-/

namespace ThriftTypings

namespace Command

-- Looking

/- The spelling of a path for the file system. -/
def spelled
    (path : Path) : String :=
  String.ofList path.text

/- The text of an argument or a setting. -/
def read?
    (value : Option String) : Option Text :=
  value.map String.toList

/- What stands at a path, as far as reading it tells. -/
def look
    (path : Path) : IO (Option Entry) := do
  try
    let content ← IO.FS.readBinFile (spelled path)
    return some (.file content.toList)
  catch error =>
    match error with
    | .inappropriateType .. => return some .directory
    | _ => return none

/- Adds what stands along the way from a place. -/
def lookAlong
    (tree : FileTree)
    (place : Place) : List Text → IO FileTree
  | [] => return tree
  | name :: more => do
      let next := place ++ [name]
      match ← look ⟨1, next⟩ with
      | none => return tree
      | some (.directory) =>
          lookAlong (tree.put next .directory) next more
      | some entry => return tree.put next entry

/- Adds a link, if the path is one that leads somewhere. -/
def lookForLink
    (tree : FileTree)
    (path : Path) : IO FileTree := do
  try
    let above ← IO.FS.realPath (spelled path.parent)
    let real ← IO.FS.realPath (spelled path)
    let plain :=
      (Path.ofText above.toString.toList).join
        ⟨0, [path.name]⟩
    let target := Path.ofText real.toString.toList
    if target = plain then return tree
    else
      lookAlong
        (tree.put path.segments (.link target.text)) []
        target.segments
  catch _ => return tree

-- Building on a Picture

/- A picture of the file system, and what was looked at. -/
structure Picture where
  tree : FileTree
  known : List Path

/- The picture of the output root alone. -/
def Picture.ofOutput
    (output : Path) : IO Picture := do
  let tree ← lookAlong .empty [] output.segments
  return ⟨← lookForLink tree output, []⟩

/- The picture with some more files. -/
def Picture.extend
    (picture : Picture)
    (files : List Path) : IO Picture := do
  let tree ←
    files.foldlM
      (fun tree file => lookAlong tree [] file.segments)
      picture.tree
  return ⟨tree, picture.known ++ files⟩

/- Builds on ever larger pictures until one is enough. -/
partial def settle
    (options : Options)
    (workspace : Workspace)
    (picture : Picture) : IO (Option Built × Picture) := do
  match
    buildOnce options { workspace with tree := picture.tree }
  with
  | none => return (none, picture)
  | some built =>
      let unknown :=
        built.asked.filter fun file =>
          !picture.known.contains file
      if unknown.isEmpty then return (some built, picture)
      else
        settle options workspace (← picture.extend unknown)

-- Carrying Out

/- Removes the old output and writes the new one. -/
def carryOut
    (output : Path)
    (before after : FileTree) : IO Unit := do
  if before.isThere output then
    IO.FS.removeDirAll (spelled output)
  for (names, entry) in after.below output.segments do
    let path := output.join ⟨0, names⟩
    match entry with
    | .file content =>
        IO.FS.createDirAll (spelled path.parent)
        IO.FS.writeBinFile (spelled path)
          (ByteArray.mk content.toArray)
    | _ => pure ()

/- Prints what a command has to say. -/
def say
    (printed : Printed) : IO Unit := do
  IO.print (String.ofList printed.output)
  IO.eprint (String.ofList printed.errors)
  (← IO.getStdout).flush

/- The workspace that the program runs in, with no files. -/
def lookAround : IO Workspace := do
  let setting ←
    IO.getEnv (String.ofList workersSetting)
  let directory ←
    try
      let found ← IO.currentDir
      pure (some (Path.ofText found.toString.toList).segments)
    catch _ => pure none
  return {
    tree := .empty
    directory := directory
    setting := read? setting
    processors := none }

/- One build: its exit code, and the picture it took. -/
def perform
    (options : Options) : IO (Nat × Picture) := do
  let workspace ← lookAround
  match workspace.directory with
  | none => return (1, ⟨.empty, []⟩)
  | some place =>
      let output := (options.request.roots ⟨1, place⟩).output
      let (built?, picture) ←
        settle options workspace (← Picture.ofOutput output)
      match built? with
      | none => return (1, picture)
      | some built =>
          unless built.asked.isEmpty do
            carryOut output picture.tree built.workspace.tree
          say built.printed
          return (built.exit, picture)

-- Watching

/- The files of a picture that do not look the same now. -/
def changes
    (picture : Picture) : IO (List Watch.Change) :=
  picture.known.filterMapM fun file => do
    let now ← look file
    if now = picture.tree.get? file.segments then
      return none
    else
      return some ⟨.modified, file.text⟩

/- Builds again and again after changes that matter. -/
partial def keepWatching
    (options : Options)
    (watcher : Watch.Watcher)
    (picture : Picture) : IO Unit := do
  IO.sleep watcher.debounce.toNat.toUInt32
  let found ← changes picture
  if (Watch.relevant watcher.ignored found).isEmpty then
    keepWatching options watcher picture
  else
    let (_, next) ← perform options
    keepWatching options watcher next

-- The Command Line

/- How the commands are used. -/
def usage : String :=
  "Usage: thrift-typings (compile | watch) [options] inputs...\n" ++
  "\n" ++
  "  -s, --src PATH     source root (default: .)\n" ++
  "  -o, --out PATH     output root (default: gen)\n" ++
  "  -j, --workers N    number of workers\n" ++
  "  -v, --verbose      (no effect)\n" ++
  "  -h, --help         show this message\n"

/- Runs what the arguments come to. -/
def invoke : Invocation → IO UInt32
  | .help => do
      IO.print usage
      return 0
  | .misuse => do
      IO.eprint usage
      return 2
  | .run .compile options => do
      let (exit, _) ← perform options
      return exit.toUInt32
  | .run .watch options => do
      let (_, picture) ← perform options
      match (← lookAround).directory with
      | none => return 1
      | some place =>
          keepWatching options (options.watcher ⟨1, place⟩)
            picture
          return 0

end Command

end ThriftTypings

open ThriftTypings in
def main
    (arguments : List String) : IO UInt32 :=
  Command.invoke
    (.ofArguments (arguments.map String.toList))
