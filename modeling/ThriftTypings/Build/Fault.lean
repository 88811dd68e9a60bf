import ThriftTypings.FileTree.Lookup
import ThriftTypings.Idl.Failure
import ThriftTypings.Path.Source
import ThriftTypings.Text.Integer

/-
  This file defines why builds fail, and the wording of
  each cause.
-/

namespace ThriftTypings

-- Causes

/-
  Why a build fails. The causes that concern a source name
  it by its place below the source root, if it has one.
-/
inductive BuildFault where
  | workersSetting (value : Text)
  | workersArgument (count : Int)
  | holdsSource (output source : Text)
  | unremovable (output : Text) (fault : FileFault)
  | outside (file : Text) (fault : OutsideFault)
  | unreadable (source : Text) (error : FileError)
  | undecodable (source : Text) (fault : Utf8.Fault)
  | malformed (source : Text) (error : Idl.ParseError)
  | ungeneratable (source : Text) (fault : IntegerFault)
  | unwritable (source : Text) (error : FileError)
  | nullByte (source : Text)
  deriving DecidableEq, Repr

-- Wording

/- The setting that gives the default number of workers. -/
def workersSetting : Text := "THRIFT_TS_WORKERS".toList

/- The wording about a path with a null byte. -/
def nullByteMessage : Text := "embedded null byte".toList

/- The wording of a fault of the file system. -/
def FileFault.message : FileFault → Text
  | .refused error => error.message
  | .nullByte => nullByteMessage

namespace BuildFault

/- The wording about something that was not foreseen. -/
def unforeseen
    (message : Text) : Text :=
  "Internal error: ValueError(".toList ++
    Text.shown message ++ ")".toList

/- The wording about a source. -/
def about
    (source message : Text) : Text :=
  "Compiler failed: ".toList ++ source ++ ". ".toList ++
    message

/- The wording of a cause. -/
def message : BuildFault → Text
  | .workersSetting value =>
      ThriftTypings.workersSetting ++
        " must be a positive integer, got ".toList ++
        Text.shown value
  | .workersArgument count =>
      "workers must be a positive integer, got ".toList ++
        Text.ofInt count
  | .holdsSource output source =>
      "Refusing to remove output root ".toList ++ output ++
        ": it contains the source root ".toList ++ source
  | .unremovable output fault =>
      about ("cannot remove output root ".toList ++ output)
        fault.message
  | .outside file fault => about file fault.message
  | .unreadable source error => about source error.message
  | .undecodable source fault => about source fault.message
  | .malformed source error => about source error.text
  | .ungeneratable source fault =>
      about source (unforeseen fault.message)
  | .unwritable source error => about source error.message
  | .nullByte source =>
      about source (unforeseen nullByteMessage)

end BuildFault

end ThriftTypings
