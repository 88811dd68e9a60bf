import ThriftTypings.Build.Fault
import ThriftTypings.FileTree.Change
import ThriftTypings.Idl.Parser
import ThriftTypings.Idl.Walk
import ThriftTypings.Text.Lines
import ThriftTypings.TypeScript.Generate

/-
  This file defines what becomes of a single source: the
  text of its module, the place of that module, and the
  sources that it includes.
-/

namespace ThriftTypings

-- Renderings

/- The text of a module, and the includes of its source. -/
structure Rendering where
  text : Text
  includes : List Text
  deriving DecidableEq, Repr

namespace Rendering

/- The rendering of a document. -/
def ofDocument
    (source : Text)
    (document : Idl.Document) :
    Except BuildFault Rendering :=
  match TypeScript.generate document with
  | .error fault => .error (.ungeneratable source fault)
  | .ok text =>
      .ok { text := text, includes := document.includes }

/- The rendering of a text, with line ends of any kind. -/
def ofText
    (source text : Text) : Except BuildFault Rendering :=
  match
    Idl.Document.parse (Text.uniformNewlines text)
      (some source)
  with
  | .error error => .error (.malformed source error)
  | .ok document => ofDocument source document

/- The rendering of the content of a file. -/
def ofContent
    (source : Text)
    (content : List UInt8) :
    Except BuildFault Rendering :=
  match Utf8.decode content with
  | .error fault => .error (.undecodable source fault)
  | .ok text => ofText source text

end Rendering

-- Roots

/- The two roots of a build, resolved. -/
structure Roots where
  source : Path
  output : Path
  deriving DecidableEq, Repr

/- Where a module goes, and what it says. -/
structure Prepared where
  relative : Text
  target : Path
  rendering : Rendering
  deriving DecidableEq, Repr

namespace Roots

/- The fault of a file that could not be read. -/
def readFault
    (source : Text) : FileFault → BuildFault
  | .refused error => .unreadable source error
  | .nullByte => .nullByte source

/- The fault of a file that could not be written. -/
def writeFault
    (source : Text) : FileFault → BuildFault
  | .refused error => .unwritable source error
  | .nullByte => .nullByte source

/- Prepares a module from what was read for its source. -/
def prepareWith
    (roots : Roots)
    (file : Path)
    (read : Except FileFault (List UInt8)) :
    Except BuildFault Prepared :=
  match Path.relativeTo roots.source file with
  | .error fault => .error (.outside file.text fault)
  | .ok relative =>
      match read with
      | .error fault => .error (readFault relative fault)
      | .ok content =>
          match Rendering.ofContent relative content with
          | .error fault => .error fault
          | .ok rendering =>
              .ok
                { relative := relative
                  target := roots.output.output relative
                  rendering := rendering }

/- Prepares the module of a source in a tree. -/
def prepare
    (roots : Roots)
    (tree : FileTree)
    (file : Path) : Except BuildFault Prepared :=
  roots.prepareWith file (tree.read file)

end Roots

end ThriftTypings
