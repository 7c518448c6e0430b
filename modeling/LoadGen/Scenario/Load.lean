/-
Loading a scenario from a file: the ending of the file's name decides between JSON and YAML, and the rest of the name is
the scenario's, unless the document has one of its own.
-/
import LoadGen.Document.Json
import LoadGen.Document.Yaml.Read
import LoadGen.Scenario.Reader

namespace LoadGen

open Document

/-- why a scenario cannot be loaded -/
inductive LoadError where
  /-- there is no such file -/
  | unreadable (file : String)
  | malformed (format : Format) (file : String)
  | document (e : DocumentError)
  | scenario (e : ScenarioError)
  /-- a number of seconds is beyond the longest span of time -/
  | unrepresentable

def Document.Format.name : Format → String
  | .json => "JSON"
  | .yaml => "YAML"

def DocumentError.message : DocumentError → String
  | severalSources => "set only one of `url`, `request` or `requests`"
  | noExpressions metric => "invalid thresholds for `" ++ metric ++ "`: empty list"
  | threshold r => r.message

def LoadError.message : LoadError → String
  | unreadable file => "failed to read scenario: " ++ file
  | malformed format file => "failed to parse " ++ format.name ++ ": " ++ file
  | document e => e.message
  | scenario e => e.message
  | unrepresentable => "a number of seconds is beyond the longest span of time"

/-- the message with the cause below it, where the cause is outside the library -/
def LoadError.detail : LoadError → String
  | unreadable file => (unreadable file).message ++ ": No such file or directory (os error 2)"
  | e => e.message

namespace FileName

/-- stem and extension of a file name: the extension follows the last point, unless that is the first character -/
def divide (name : String) : String × Option String :=
  let afterPoint := name.toList.reverse.takeWhile (· ≠ '.')
  let rest := name.toList.reverse.dropWhile (· ≠ '.')
  if rest.length ≤ 1 then (name, none)
  else (String.ofList (rest.drop 1).reverse, some (String.ofList afterPoint.reverse))

/-- the name without its directories -/
def base (path : String) : String :=
  String.ofList (path.toList.reverse.takeWhile (· ≠ '/')).reverse

def stem (path : String) : String :=
  (divide (base path)).1

/-- the form of the documents in files of this name -/
def format (path : String) : Format :=
  match (divide (base path)).2 with
  | some ending => if Text.sameIgnoringCase ending.toList "json".toList then .json else .yaml
  | none => .yaml

end FileName

/-- the tree of a document, and whether nothing follows it -/
def Document.Format.read (format : Format) (bytes : List Nat) : Node × Bool :=
  match format with
  | .json =>
    let (s, clean) := Text.decodeUtf8 bytes
    let (n, isOver) := Json.read s
    (n, clean && isOver)
  | .yaml => Yaml.read bytes

/-- a scenario document from the bytes of its file -/
def ScenarioDocument.read (format : Format) (bytes : List Nat) : Outcome ScenarioDocument := do
  let (n, isOver) := format.read bytes
  let d ← ScenarioDocument.ofNode format n
  if isOver then pure d else .error .malformed

/-- the options in a file, nothing for a file that is not there -/
def ScenarioOptions.load (file : String) (bytes : Option (List Nat)) : Except LoadError ScenarioOptions :=
  match bytes with
  | none => .error (.unreadable file)
  | some bytes =>
    let format := FileName.format file
    match ScenarioDocument.read format bytes with
    | .error .malformed => .error (.malformed format file)
    | .error .unrepresentable => .error .unrepresentable
    | .ok d => (d.toOptions (some (FileName.stem file))).mapError .document

/-- the scenario in a file, with overrides -/
def Scenario.load (file : String) (bytes : Option (List Nat)) (v : Overrides) : Except LoadError Scenario := do
  let o ← ScenarioOptions.load file bytes
  (Scenario.ofOptions o v).mapError .scenario

end LoadGen
