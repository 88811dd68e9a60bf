import ThriftTypings.Command.Arguments
import ThriftTypings.Console.Brackets
import ThriftTypings.Console.Lines
import ThriftTypings.Watch.Watcher
import ThriftTypings.Workspace

/-
  This file defines what the commands do and print. To
  compile is one build. To watch is a build at the start and
  another one after each batch of changes that matter.
-/

namespace ThriftTypings

namespace Command

-- Printing

/- What was printed to the two streams. -/
structure Printed where
  output : Text
  errors : Text
  deriving DecidableEq, Repr

namespace Printed

/- Nothing. -/
def nothing : Printed where
  output := []
  errors := []

/- One after the other. -/
def andThen
    (first second : Printed) : Printed where
  output := first.output ++ second.output
  errors := first.errors ++ second.errors

/- The line about a build that succeeded. -/
def compiled
    (count : Nat)
    (output : Text) : Printed where
  output :=
    Console.wrappedLine
      ("Compiled ".toList ++ Text.ofNat count ++
        " file(s) into ".toList ++
        Console.asItStands (Path.ofText output).text)
  errors := []

/- The line about a build that failed. -/
def failed
    (fault : BuildFault) : Printed where
  output := []
  errors :=
    Console.openLine (Console.withEmoji fault.message)

/- The line about a watch that was interrupted. -/
def stopped : Printed where
  output := Console.wrappedLine "Stopped watching.".toList
  errors := []

/- What is printed about the outcome of a build. -/
def ofOutcome
    (output : Text) :
    Except BuildFault (List Path) → Printed
  | .ok written => compiled written.length output
  | .error fault => failed fault

end Printed

-- One Build

/- The build that options ask for. -/
def Options.request
    (options : Options) : BuildRequest where
  inputs := options.inputs
  source := options.source
  output := options.output
  workers := options.workers

/- The exit code after a single build. -/
def exitCode : Except BuildFault (List Path) → Nat
  | .ok _ => 0
  | .error _ => 1

/- What a command did: its exit code and prints. -/
structure Built where
  exit : Nat
  printed : Printed
  workspace : Workspace
  asked : List Path
  deriving DecidableEq, Repr

/-
  One build, if it comes to an end. Where the directory is
  gone, it fails without a word.
-/
def buildOnce
    (options : Options)
    (workspace : Workspace) : Option Built :=
  match workspace.compile options.request with
  | (none, after) =>
      some
        { exit := 1
          printed := .nothing
          workspace := after
          asked := [] }
  | (some built, after) =>
      built.outcome.map fun outcome =>
        { exit := exitCode outcome
          printed := .ofOutcome options.output outcome
          workspace := after
          asked := built.asked }

-- Watching

/- The watcher that options ask for. -/
def Options.watcher
    (options : Options)
    (directory : Path) : Watch.Watcher :=
  Watch.Watcher.new
    (Path.resolve directory options.source).text
    [(Path.resolve directory options.output).text]

/- A watch: its watcher and what it printed. -/
structure Watching where
  watcher : Watch.Watcher
  printed : Printed
  workspace : Workspace
  deriving DecidableEq, Repr

/-
  How a watch begins. It breaks off if the directory is gone
  after the first build.
-/
inductive Beginning where
  | watching (watching : Watching)
  | brokenOff (printed : Printed) (workspace : Workspace)
  deriving DecidableEq, Repr

namespace Watching

/- A watch begins with a build. -/
def start
    (options : Options)
    (workspace : Workspace) : Option Beginning :=
  (buildOnce options workspace).map fun built =>
    match built.workspace.directory with
    | none => .brokenOff built.printed built.workspace
    | some place =>
        .watching
          { watcher := options.watcher ⟨1, place⟩
            printed := built.printed
            workspace := built.workspace }

/- The watch with one more build. -/
def rebuild
    (options : Options)
    (watching : Watching) : Option Watching :=
  (buildOnce options watching.workspace).map fun built =>
    { watching with
      printed := watching.printed.andThen built.printed
      workspace := built.workspace }

/- A batch of changes, with a build if some of it matters. -/
def deliver
    (options : Options)
    (batch : List Watch.Change)
    (watching : Watching) : Option Watching :=
  match
    Watch.relevant watching.watcher.ignored batch
  with
  | [] => some watching
  | _ :: _ => rebuild options watching

/- An interrupt ends a watch. -/
def interrupt
    (watching : Watching) : Watching :=
  { watching with
    printed := watching.printed.andThen .stopped }

end Watching

end Command

end ThriftTypings
