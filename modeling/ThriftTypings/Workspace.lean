import ThriftTypings.Build.Run

/-
  This file defines workspaces: a file tree, the directory
  in it where commands run, and what builds find set.

  A directory that was removed is gone for good: one that is
  made later at the same place is another one. Nothing can
  be resolved in a workspace whose directory is gone.
-/

namespace ThriftTypings

-- Workspaces

/-
  A file tree, the place of the directory in use, unless it
  is gone, and what builds find set.
-/
structure Workspace where
  tree : FileTree
  directory : Option Place
  setting : Option Text
  processors : Option Int
  deriving DecidableEq, Repr

namespace Workspace

/- What builds find around them at a place. -/
def surroundingsAt
    (workspace : Workspace)
    (place : Place) : Surroundings where
  directory := ⟨1, place⟩
  setting := workspace.setting
  processors := workspace.processors

/- The workspace once its tree has become another one. -/
def onTree
    (workspace : Workspace)
    (tree : FileTree) : Workspace where
  tree := tree
  directory := workspace.directory.filter tree.isDirectoryAt
  setting := workspace.setting
  processors := workspace.processors

/- The workspace after a change that may have failed. -/
def changed
    (workspace : Workspace) :
    Except FileFault FileTree →
      Except FileFault Unit × Workspace
  | .error fault => (.error fault, workspace)
  | .ok tree => (.ok (), workspace.onTree tree)

-- Changes

/- Makes a directory, with those above it. -/
def makeDirectory
    (path : Path)
    (workspace : Workspace) :
    Except FileFault Unit × Workspace :=
  let (outcome, tree) := workspace.tree.makeDirectories path
  (outcome, workspace.onTree tree)

/- Writes a file, and makes the directories above it. -/
def write
    (path : Path)
    (content : List UInt8)
    (workspace : Workspace) :
    Except FileFault Unit × Workspace :=
  match workspace.makeDirectory path.parent with
  | (.error fault, after) => (.error fault, after)
  | (.ok (), after) =>
      after.changed (after.tree.write path content)

/- Makes a link. -/
def link
    (path : Path)
    (target : Text)
    (workspace : Workspace) :
    Except FileFault Unit × Workspace :=
  workspace.changed (workspace.tree.makeLink path target)

/- Removes whatever stands at a path. -/
def remove
    (path : Path)
    (workspace : Workspace) :
    Except FileFault Unit × Workspace :=
  workspace.changed (workspace.tree.remove path)

/- Goes to another directory. -/
def enter
    (path : Path)
    (workspace : Workspace) :
    Except FileFault Unit × Workspace :=
  match workspace.tree.find true path with
  | .error fault => (.error fault, workspace)
  | .ok (.missing _) =>
      (.error (FileTree.refusal .notFound path), workspace)
  | .ok (.present place) =>
      if workspace.tree.isDirectoryAt place then
        (.ok (), { workspace with directory := some place })
      else
        (.error (FileTree.refusal .notDirectory path),
          workspace)

-- Builds

/-
  A build in the workspace, given how to build. There is
  none if the directory is gone, and the build itself may
  remove the directory.
-/
def compileBy
    (build : Surroundings → BuildRequest → FileTree → Build)
    (request : BuildRequest)
    (workspace : Workspace) : Option Build × Workspace :=
  match workspace.directory with
  | none => (none, workspace)
  | some place =>
      let built :=
        build (workspace.surroundingsAt place) request
          workspace.tree
      (some built,
        (workspace.onTree built.cleared).onTree built.tree)

def compile
    (request : BuildRequest)
    (workspace : Workspace) : Option Build × Workspace :=
  workspace.compileBy ThriftTypings.compile request

end Workspace

end ThriftTypings
