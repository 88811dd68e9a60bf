import ThriftTypings.Path.Basic
import ThriftTypings.Text.Count

/-
  This file defines how the arguments of the command line
  are read: a command, options before, between and after
  the inputs, and two dashes after which everything is an
  input.
-/

namespace ThriftTypings

namespace Command

-- Options

/- What the options say, as far as they were given. -/
structure Given where
  help : Bool := false
  verbose : Bool := false
  source : Option Text := none
  output : Option Text := none
  workers : Option Text := none
  inputs : List Text := []
  deriving DecidableEq, Repr

/-
  An option: a flag, or one that takes a value. The last
  value of several counts.
-/
inductive Choice where
  | flag (set : Given → Given)
  | valued (set : Text → Given → Given)

/- The option for help. -/
def helpChoice : Choice :=
  .flag fun given => { given with help := true }

/- The options of a command by their long names. -/
def longChoice?
    (name : Text) : Option Choice :=
  if name = "--help".toList then some helpChoice
  else if name = "--verbose".toList then
    some (.flag fun given => { given with verbose := true })
  else if name = "--src".toList then
    some (.valued fun value given =>
      { given with source := some value })
  else if name = "--out".toList then
    some (.valued fun value given =>
      { given with output := some value })
  else if name = "--workers".toList then
    some (.valued fun value given =>
      { given with workers := some value })
  else
    none

/- The options of a command by their letters. -/
def shortChoice?
    (letter : Char) : Option Choice :=
  if letter = 'h' then longChoice? "--help".toList
  else if letter = 'v' then longChoice? "--verbose".toList
  else if letter = 's' then longChoice? "--src".toList
  else if letter = 'o' then longChoice? "--out".toList
  else if letter = 'j' then longChoice? "--workers".toList
  else none

-- Reading Options

/- Is the argument an option? A single dash is none. -/
def isOption : Text → Bool
  | '-' :: _ :: _ => true
  | _ => false

/- Does the argument have a long name? -/
def isLong : Text → Bool
  | '-' :: '-' :: _ => true
  | _ => false

/- Gives an option the next argument as its value. -/
def takeValue
    (set : Text → Given → Given)
    (given : Given) :
    List Text → Option (Given × List Text)
  | [] => none
  | value :: rest => some (set value given, rest)

/-
  Reads a long option, with its value after an equals sign
  or in the next argument.
-/
def readLong
    (argument : Text)
    (given : Given)
    (rest : List Text) : Option (Given × List Text) :=
  let name := argument.takeWhile (· != '=')
  let attached := argument.dropWhile (· != '=')
  match longChoice? name, attached with
  | none, _ => none
  | some (.flag set), [] => some (set given, rest)
  | some (.flag _), _ :: _ => none
  | some (.valued set), [] => takeValue set given rest
  | some (.valued set), _ :: value =>
      some (set value given, rest)

/-
  Reads letters of short options. One that takes a value
  takes the letters after it, or the next argument.
-/
def readShort
    (rest : List Text) :
    Text → Given → Option (Given × List Text)
  | [], given => some (given, rest)
  | letter :: more, given =>
      match shortChoice? letter with
      | none => none
      | some (.flag set) => readShort rest more (set given)
      | some (.valued set) =>
          if more.isEmpty then takeValue set given rest
          else some (set more given, rest)

/- Reads an option. -/
def readOption
    (argument : Text)
    (given : Given)
    (rest : List Text) : Option (Given × List Text) :=
  if isLong argument then readLong argument given rest
  else readShort rest (argument.drop 1) given

theorem length_takeValue
    {set : Text → Given → Given}
    {given after : Given}
    {rest left : List Text}
    (h : takeValue set given rest = some (after, left)) :
    left.length ≤ rest.length := by
  cases rest with
  | nil => simp [takeValue] at h
  | cons value rest =>
      simp only [takeValue, Option.some.injEq,
        Prod.mk.injEq] at h
      simp [← h.2]

theorem length_readShort
    {letters : Text}
    {given after : Given}
    {rest left : List Text}
    (h : readShort rest letters given = some (after, left)) :
    left.length ≤ rest.length := by
  induction letters generalizing given with
  | nil =>
      simp only [readShort, Option.some.injEq,
        Prod.mk.injEq] at h
      simp [← h.2]
  | cons letter more ih =>
      simp only [readShort] at h
      split at h
      · cases h
      · exact ih h
      · split at h
        · exact length_takeValue h
        · simp only [Option.some.injEq,
            Prod.mk.injEq] at h
          simp [← h.2]

theorem length_readOption
    {argument : Text}
    {given after : Given}
    {rest left : List Text}
    (h : readOption argument given rest =
      some (after, left)) :
    left.length ≤ rest.length := by
  simp only [readOption] at h
  split at h
  · simp only [readLong] at h
    split at h
    · cases h
    · simp only [Option.some.injEq, Prod.mk.injEq] at h
      simp [← h.2]
    · cases h
    · exact length_takeValue h
    · simp only [Option.some.injEq, Prod.mk.injEq] at h
      simp [← h.2]
  · exact length_readShort h

/- Reads the arguments of a command. -/
def readAll
    (given : Given) : List Text → Option Given
  | [] => some given
  | argument :: rest =>
      if argument = "--".toList then
        some { given with inputs := given.inputs ++ rest }
      else if isOption argument then
        match _h : readOption argument given rest with
        | none => none
        | some (after, left) => readAll after left
      else
        readAll
          { given with inputs := given.inputs ++ [argument] }
          rest
termination_by arguments => arguments.length
decreasing_by
  · have := length_readOption _h
    simp only [List.length_cons]
    omega
  · simp only [List.length_cons]
    omega

-- Invocations

/- The commands. -/
inductive Name where
  | compile
  | watch
  deriving DecidableEq, Repr

/- The command with a given name. -/
def Name.ofText?
    (text : Text) : Option Name :=
  if text = "compile".toList then some .compile
  else if text = "watch".toList then some .watch
  else none

/- What a command is asked to do. -/
structure Options where
  inputs : List Text
  source : Text
  output : Text
  workers : Option Int
  deriving DecidableEq, Repr

/- What the arguments come to. -/
inductive Invocation where
  | help
  | misuse
  | run (command : Name) (options : Options)
  deriving DecidableEq, Repr

namespace Invocation

/- The number of workers, if one was given. -/
def workersOf : Option Text → Option (Option Int)
  | none => some none
  | some text => (Text.toCount text).map some

/- Can the text be the name of a file? -/
def isFileName
    (text : Text) : Bool :=
  !text.contains '\x00'

/-
  The options as they were given, with their defaults. At
  least one input is needed, and what names files has to be
  able to.
-/
def optionsOf
    (given : Given) : Option Options :=
  let options : Options :=
    { inputs := given.inputs
      source := given.source.getD ".".toList
      output := given.output.getD "gen".toList
      workers := none }
  let names :=
    options.source :: options.output :: options.inputs
  if options.inputs.isEmpty || !names.all isFileName then
    none
  else
    (workersOf given.workers).map fun workers =>
      { options with workers := workers }

/-
  A command with its arguments. Asking for help goes before
  everything but an option that cannot be read.
-/
def ofCommand
    (command : Name)
    (arguments : List Text) : Invocation :=
  match readAll {} arguments with
  | none => .misuse
  | some given =>
      if given.help then .help
      else
        match optionsOf given with
        | none => .misuse
        | some options => .run command options

/- Is the argument an option for help alone? -/
def asksHelp
    (argument : Text) : Bool :=
  argument = "--help".toList ||
    (!isLong argument &&
      (argument.drop 1).all (· == 'h'))

/- The arguments from the command on, and is help asked? -/
def toCommand
    (help : Bool) : List Text → Option (Bool × List Text)
  | [] => some (help, [])
  | argument :: rest =>
      if argument = "--".toList then some (help, rest)
      else if isOption argument then
        if asksHelp argument then toCommand true rest
        else none
      else some (help, argument :: rest)

/-
  Arguments that begin with no command. They may still ask
  for help, if two dashes hid that.
-/
def withoutCommand
    (arguments : List Text) : Invocation :=
  match toCommand false arguments with
  | some (true, _) => .help
  | _ => .misuse

/- What all the arguments come to. -/
def ofArguments
    (arguments : List Text) : Invocation :=
  match toCommand false arguments with
  | none => .misuse
  | some (true, _) => .help
  | some (false, []) => .misuse
  | some (false, name :: rest) =>
      match Name.ofText? name with
      | none => withoutCommand (name :: rest)
      | some command => ofCommand command rest

end Invocation

end Command

end ThriftTypings
