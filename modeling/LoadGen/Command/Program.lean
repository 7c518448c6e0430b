/-
The program: what it writes and how it ends, for given arguments and files. Nothing is read or written here, so a call
of the program is a value.
-/
import LoadGen.Command.Arguments
import LoadGen.Report.ExitCode
import LoadGen.Report.Human
import LoadGen.Report.Line
import LoadGen.Run.Perform
import LoadGen.Scenario.Load
import LoadGen.Scenario.Writer

namespace LoadGen.Command

/-- what a call of the program leaves behind -/
structure Transcript where
  out : String := ""
  err : String := ""
  code : ExitCode
  deriving DecidableEq, Repr

/-- lines, each with its end -/
def lines (ls : List String) : String :=
  String.join (ls.map (· ++ "\n"))

/-- what is said about an error -/
def complaint (text : String) : String :=
  "error: " ++ text

/-- the name and version of the program -/
def version : String := "volley 0.1.0"

/-- how the program is called -/
def usage : List String :=
  ["Scenario-driven HTTP load generator",
    "",
    "Usage: volley [-v]... run <SCENARIO> [--duration D] [--url URL] [--timeout D] [--output human-readable|json]",
    "       volley [-v]... validate <SCENARIO>",
    "       volley help [COMMAND]"]

def UsageError.message : UsageError → String
  | nothing | missingCommand => "a command is required"
  | unknownCommand name => "unrecognized command '" ++ name ++ "'"
  | unknownArgument text => "unexpected argument '" ++ text ++ "'"
  | unwantedValue flag => "unexpected value for '--" ++ flag ++ "'"
  | missingValue slot => "a value is required for '" ++ slot ++ "'"
  | noChoice value => "invalid value '" ++ value ++ "'"
  | badValue fault => fault.message
  | repeated option => "'" ++ option ++ "' cannot be used multiple times"
  | missingFile => "'" ++ Slot.name .file ++ "' is required"

/-- arguments that ask for no command -/
def halted : Halt → Transcript
  | .help => { out := lines usage, code := .success }
  | .version => { out := lines [version], code := .success }
  | .usage .nothing => { err := lines usage, code := .invalidInput }
  | .usage e => { err := lines [complaint e.message], code := .invalidInput }

/-- a file that holds no scenario -/
def refused : LoadError → Transcript
  | .unrepresentable => { err := lines [LoadError.unrepresentable.detail], code := .crashed }
  | e => { err := lines [complaint e.detail], code := .invalidInput }

/-- a run without a report -/
def aborted (e : RunError) : Transcript :=
  let code := match e with
    | .scenario _ => ExitCode.invalidInput
    | _ => .runtimeError
  { err := lines [complaint e.message], code }

/-- the scenario in a file with all its defaults -/
def validate (file : String) (bytes : Option (List Nat)) : Transcript :=
  match Scenario.load file bytes {} with
  | .error e => refused e
  | .ok s => { out := s.write, code := .success }

/-- a report in a form of its own -/
def reported (file : String) (s : Scenario) (updates : List Update) (r : Report) : OutputFormat → Transcript
  | .humanReadable =>
    { out := lines (Human.header file s ++ Human.summary r), err := lines (Human.failures r), code := .ofReport r }
  | .json =>
    { out := lines ((updates.map fun u => (Line.progress u).render) ++ [(Line.summary r).render]), code := .ofReport r }

/-- the overrides of a run -/
def RunOptions.overrides (o : RunOptions) : Overrides :=
  ⟨o.duration, o.url, o.timeout⟩

/-- the scenario in a file is run -/
def run (file : String) (bytes : Option (List Nat)) (o : RunOptions) (peer : Peer) : Transcript :=
  match Scenario.load file bytes o.overrides with
  | .error e => refused e
  | .ok s =>
    let life := Lifecycle.ofScenario s
    let updates := match o.output, life.timeline s peer [] with
      | .json, .ok t => t.updates Run.patience
      | _, _ => []
    match (life.perform s peer []).1 with
    | .error e => aborted e
    | .ok r => reported file s updates r o.output

/-- the file that a call of the program needs -/
def fileOf? (args : List String) : Option String :=
  match readArguments args with
  | .ok ⟨.run file _, _⟩ | .ok ⟨.validate file, _⟩ => some file
  | .error _ => none

/-- a call of the program; `bytes` are those of the file that it needs, if there is one -/
def call (args : List String) (bytes : Option (List Nat)) (peer : Peer) : Transcript :=
  match readArguments args with
  | .error h => halted h
  | .ok ⟨.validate file, _⟩ => validate file bytes
  | .ok ⟨.run file o, _⟩ => run file bytes o peer

end LoadGen.Command
