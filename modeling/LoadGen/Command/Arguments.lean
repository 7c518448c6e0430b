/-
The command line. Before the command stand flags for every command; after it come its file, its options and the same
flags again. An option's value is read when the next argument that is understood comes, so of several faults the first
in the order of the arguments is reported, save that an argument that is not known at all is reported before a value
that waits.
-/
import LoadGen.Command.Value

namespace LoadGen.Command

/-- how a run is reported -/
inductive OutputFormat where
  | humanReadable
  | json
  deriving DecidableEq, Repr

namespace OutputFormat

def name : OutputFormat → String
  | humanReadable => "human-readable"
  | json => "json"

def all : List OutputFormat := [humanReadable, json]

def ofName? (s : String) : Option OutputFormat :=
  all.find? fun f => f.name = s

end OutputFormat

/-- why some arguments are no invocation -/
inductive UsageError where
  /-- there are no arguments -/
  | nothing
  | missingCommand
  | unknownCommand (name : String)
  | unknownArgument (text : String)
  /-- a value for a flag that takes none -/
  | unwantedValue (flag : String)
  /-- an option or a file without its value -/
  | missingValue (slot : String)
  /-- a value that is none of those to choose from -/
  | noChoice (value : String)
  | badValue (fault : ValueFault)
  /-- an option that is given twice -/
  | repeated (option : String)
  | missingFile
  deriving DecidableEq, Repr

/-- why no command is carried out -/
inductive Halt where
  /-- help was asked for -/
  | help
  /-- the version was asked for -/
  | version
  | usage (e : UsageError)
  deriving DecidableEq, Repr

/-- what a run is told on the command line -/
structure RunOptions where
  duration : Option Duration := none
  url : Option String := none
  timeout : Option Duration := none
  output : OutputFormat := .humanReadable
  deriving DecidableEq

/-- what is asked for -/
inductive Task where
  | run (file : String) (options : RunOptions)
  | validate (file : String)
  deriving DecidableEq

/-- a task and how much is logged about it -/
structure Invocation where
  task : Task
  verbosity : Nat
  deriving DecidableEq

/-- the least severe messages that are logged -/
def Invocation.logLevel (i : Invocation) : String :=
  match i.verbosity with
  | 0 => "warn"
  | 1 => "info"
  | _ => "debug"

/-- how an argument is spelled -/
inductive Word where
  /-- what follows is no option -/
  | escape
  /-- `--name` or `--name=value` -/
  | long (name : String) (value : Option String)
  /-- `-abc`, one flag a letter -/
  | short (letters : List Char)
  | plain (text : String)

/-- an argument by its spelling; a lone `-` is a plain one -/
def Word.ofText (text : String) : Word :=
  match text.toList with
  | ['-', '-'] => .escape
  | '-' :: '-' :: rest =>
    let name := String.ofList (rest.takeWhile (· ≠ '='))
    match rest.dropWhile (· ≠ '=') with
    | [] => .long name none
    | _ :: value => .long name (some (String.ofList value))
  | '-' :: c :: rest => .short (c :: rest)
  | _ => .plain text

/-- what a command has places for -/
inductive Slot where
  | file
  | duration
  | url
  | timeout
  | output
  deriving DecidableEq

def Slot.name : Slot → String
  | file => "<SCENARIO>"
  | duration => "--duration"
  | url => "--url"
  | timeout => "--timeout"
  | output => "--output"

/-- the commands that do something -/
inductive Verb where
  | run
  | validate
  deriving DecidableEq

def Verb.ofName? (s : String) : Option Verb :=
  if s = "run" then some run else if s = "validate" then some validate else none

/-- a name of a command, help among them -/
def isCommandName (s : String) : Bool :=
  (Verb.ofName? s).isSome || s = "help"

/-- the options of a command -/
def Verb.option? (v : Verb) (name : String) : Option Slot :=
  match v with
  | validate => none
  | run => [Slot.duration, .url, .timeout, .output].find? fun s => s.name = "--" ++ name

/-- the most that `-v` counts to -/
def verbosityMax : Nat := 255

/-- a command whose arguments are being read -/
structure Draft where
  verb : Verb
  verbosity : Nat := 0
  file : Option String := none
  duration : Option Duration := none
  url : Option String := none
  timeout : Option Duration := none
  output : Option OutputFormat := none
  /-- the slot that is being filled, with its value if that has come -/
  pending : Option (Slot × Option String) := none
  /-- the file has come -/
  isPlaced : Bool := false

namespace Draft

/-- a slot that has a value -/
def isFilled (d : Draft) : Slot → Bool
  | .file => d.file.isSome
  | .duration => d.duration.isSome
  | .url => d.url.isSome
  | .timeout => d.timeout.isSome
  | .output => d.output.isSome

def badValue (f : ValueFault) : Halt := .usage (.badValue f)

/-- fill a slot -/
def fill (d : Draft) (slot : Slot) (value : String) : Except Halt Draft :=
  if d.isFilled slot then .error (.usage (.repeated slot.name))
  else match slot with
    | .file => if value.isEmpty then .error (.usage (.missingValue slot.name)) else .ok { d with file := some value }
    | .duration => do pure { d with duration := some (← (readDuration value).mapError badValue) }
    | .url => do pure { d with url := some (← (readUrl value).mapError badValue) }
    | .timeout => do pure { d with timeout := some (← (readDuration value).mapError badValue) }
    | .output => match OutputFormat.ofName? value with
      | some f => .ok { d with output := some f }
      | none => .error (.usage (.noChoice value))

/-- fill the slot that waits -/
def settle (d : Draft) : Except Halt Draft :=
  match d.pending with
  | none => .ok d
  | some (slot, none) => .error (.usage (.missingValue slot.name))
  | some (slot, some value) => { d with pending := none }.fill slot value

/-- one more `-v` -/
def bump (d : Draft) : Draft :=
  { d with verbosity := min verbosityMax (d.verbosity + 1) }

/-- one-letter flags -/
def letters (d : Draft) : List Char → Except Halt Draft
  | [] => .ok d
  | c :: rest =>
    if c = 'v' then do
      let d ← d.settle
      letters d.bump rest
    else if c = 'h' then do
      let _ ← d.settle
      .error .help
    else .error (.usage (.unknownArgument ("-" ++ String.singleton c)))

/-- a flag or option by its name -/
def long (d : Draft) (name : String) (value : Option String) : Except Halt Draft :=
  match d.verb.option? name, value with
  | some slot, some value => do (← d.settle).fill slot value
  | some slot, none => do pure { ← d.settle with pending := some (slot, none) }
  | none, some _ =>
    .error (.usage (if name = "verbose" ∨ name = "help" then .unwantedValue name else .unknownArgument ("--" ++ name)))
  | none, none =>
    if name = "verbose" then do pure (← d.settle).bump
    else if name = "help" then do
      let _ ← d.settle
      .error .help
    else .error (.usage (.unknownArgument ("--" ++ name)))

/-- an argument in the place of the file -/
def place (d : Draft) (text : String) : Except Halt Draft :=
  if d.isPlaced then .error (.usage (.unknownArgument text))
  else do pure { ← d.settle with pending := some (.file, some text), isPlaced := true }

/-- an argument that is no flag: the value of the option before it, or the file -/
def plain (d : Draft) (text : String) : Except Halt Draft :=
  match d.pending with
  | some (slot, none) => .ok { d with pending := some (slot, some text) }
  | _ => d.place text

/-- the arguments after a command; `onlyPlain` after an escape -/
def read (d : Draft) (onlyPlain : Bool) : List String → Except Halt Draft
  | [] => d.settle
  | text :: rest =>
    if onlyPlain then do read (← d.place text) true rest
    else match Word.ofText text with
      | .escape => read d true rest
      | .long name value => do read (← d.long name value) false rest
      | .short cs => do read (← d.letters cs) false rest
      | .plain text => do read (← d.plain text) false rest

/-- a draft that is complete; flags before the command count if it has none of its own -/
def finish (d : Draft) (before : Nat) : Except Halt Invocation :=
  match d.file with
  | none => .error (.usage .missingFile)
  | some file =>
    let task := match d.verb with
      | .run => Task.run file ⟨d.duration, d.url, d.timeout, d.output.getD .humanReadable⟩
      | .validate => .validate file
    .ok ⟨task, if d.verbosity = 0 then before else d.verbosity⟩

end Draft

/-- the one-letter flags before a command, after some `-v` -/
def leadingLetters (verbosity : Nat) : List Char → Except Halt Nat
  | [] => .ok verbosity
  | c :: rest =>
    if c = 'v' then leadingLetters (min verbosityMax (verbosity + 1)) rest
    else if c = 'h' then .error .help
    else if c = 'V' then .error .version
    else .error (.usage (.unknownArgument ("-" ++ String.singleton c)))

/-- a flag before a command by its name -/
def leadingFlag (verbosity : Nat) (name : String) (value : Option String) : Except Halt Nat :=
  if name = "verbose" ∨ name = "help" ∨ name = "version" then
    if value.isSome then .error (.usage (.unwantedValue name))
    else if name = "verbose" then .ok (min verbosityMax (verbosity + 1))
    else .error (if name = "help" then .help else .version)
  else .error (.usage (.unknownArgument ("--" ++ name)))

/-- help on a command; no command has commands below it -/
def readHelp : List String → Halt
  | [] => .help
  | [name] => if isCommandName name then .help else .usage (.unknownCommand name)
  | name :: next :: _ => .usage (.unknownCommand (if isCommandName name then next else name))

/-- the arguments from the flags before the command on -/
def readFrom (verbosity : Nat) : List String → Except Halt Invocation
  | [] => .error (.usage (if verbosity = 0 then .nothing else .missingCommand))
  | text :: rest =>
    match Word.ofText text with
    | .escape => match rest with
      | [] => .error (.usage (if verbosity = 0 then .nothing else .missingCommand))
      | name :: _ =>
        .error (.usage (if isCommandName name then .unknownArgument name else .unknownCommand name))
    | .long name value => do readFrom (← leadingFlag verbosity name value) rest
    | .short cs => do readFrom (← leadingLetters verbosity cs) rest
    | .plain name =>
      match Verb.ofName? name with
      | some verb => do (← ({ verb } : Draft).read false rest).finish verbosity
      | none => .error (if name = "help" then readHelp rest else .usage (.unknownCommand name))

/-- what some arguments ask for; the program's own name is not among them -/
def readArguments (args : List String) : Except Halt Invocation :=
  readFrom 0 args

end LoadGen.Command
