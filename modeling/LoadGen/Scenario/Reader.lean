/-
Reading a scenario document from the tree of its text. Spans of time may be phrases or numbers of seconds; an unknown
field is a fault, and so is one that comes twice.
-/
import LoadGen.Document.Field
import LoadGen.Scenario.Document
import LoadGen.Time.Phrase
import LoadGen.Time.Duration

namespace LoadGen

open Document

/-- a span of time: whole or broken seconds, or a phrase with blanks around it -/
def Document.Datum.readSpan : Datum → Outcome Duration
  | .number (.nat n) => .ok (.ofSecs n)
  | .number (.real x) =>
    if !x.isFinite || x < 0.0 then .error .malformed
    else match Duration.ofSeconds? x with
      | some d => .ok d
      | none => .error .unrepresentable
  | .text s => expect (Phrase.read? (String.ofList (Text.trim s.toList)))
  | _ => .error .malformed

def Document.Node.readSpan (n : Node) : Outcome Duration := do
  (← expect n.meaning?).readSpan

/-- the ends of a range of pauses as far as they are read -/
structure PauseRange where
  min : Option Duration := none
  max : Option Duration := none

/-- one more entry of a range; its ends may be called by number, and other names are passed over -/
def PauseRange.take (r : PauseRange) (entry : Datum × Datum) : Outcome PauseRange := do
  let isMin ← match entry.1 with
    | .text s => pure (if s = "min" then some true else if s = "max" then some false else none)
    | .number (.nat n) => pure (if n = 0 then some true else if n = 1 then some false else none)
    | _ => .error .malformed
  match isMin with
  | some true => if r.min.isSome then .error .malformed else return { r with min := some (← entry.2.readSpan) }
  | some false => if r.max.isSome then .error .malformed else return { r with max := some (← entry.2.readSpan) }
  | none => pure r

/-- think time: one span, or the ends of a range -/
def Document.Datum.readThinkTime (d : Datum) : Outcome ThinkTime :=
  match d with
  | .map entries => do
    match ← entries.foldlM PauseRange.take {} with
    | ⟨some least, some most⟩ => pure (.uniform least most)
    | _ => .error .malformed
  | d => d.readSpan.map .fixed

def Document.Node.readThinkTime (n : Node) : Outcome ThinkTime := do
  (← expect n.meaning?).readThinkTime

def Document.Datum.readText : Datum → Outcome String
  | .text s => .ok s
  | _ => .error .malformed

/-- the expressions for a metric: one, or a list of them -/
def Document.Datum.readExpressions : Datum → Outcome (List String)
  | .text s => .ok [s]
  | .seq items => items.mapM Datum.readText
  | _ => .error .malformed

/-- thresholds by metric or by line -/
def Document.Datum.readThresholds : Datum → Outcome ThresholdList
  | .map entries => do
    let pairs ← entries.mapM fun e => do return (← e.1.readText, ← e.2.readExpressions)
    pure (.byMetric (.ofPairs pairs))
  | .seq items => (items.mapM Datum.readText).map .lines
  | _ => .error .malformed

def Document.Node.readThresholds (n : Node) : Outcome ThresholdList := do
  (← expect n.meaning?).readThresholds

/-- the text of a header's value: a scalar as it is written anew; nothing for a null -/
def headerText : Datum → Outcome (Option String)
  | .null => .ok none
  | .bool b => .ok (some (if b then "true" else "false"))
  | .number (.nat n) => .ok (some (toString n))
  | .number (.negative n) => .ok (some ("-" ++ toString n))
  | .number (.real x) => .ok (some (Decimal.Layout.document.text x))
  | .text s => .ok (some s)
  | _ => .error .malformed

/-- headers, of two with one name the later; a null leaves its header out -/
def Document.Node.readHeaders (n : Node) : Outcome (Ordered String) := do
  let entry := fun e : Node × Node => do return (← e.1.readText, ← headerText (← expect e.2.meaning?))
  let headers : Ordered (Option String) := .ofPairs (← n.readEntries entry)
  pure (headers.filterMap fun h => h.2.map fun v => (h.1, v))

/-- the fields of a stage -/
inductive StageField where
  | target
  | duration
  deriving DecidableEq, Repr

def StageField.shape : Shape StageField Stage where
  fields := [.target, .duration]
  least := 1
  named?
    | "target" => some .target
    | "duration" => some .duration
    | _ => none
  set s
    | .target, n => do return { s with target := ← n.readWord }
    | .duration, n => do return { s with duration := ← n.readSpan }

/-- a stage, which has a target -/
def Document.Node.readStage (format : Format) (n : Node) : Outcome Stage := do
  let (stage, seen) ← StageField.shape.read format ⟨.zero, 0⟩ n
  if StageField.target ∈ seen then pure stage else .error .malformed

/-- the fields of a request -/
inductive RequestField where
  | method
  | url
  | headers
  | body
  | expectStatus
  deriving DecidableEq, Repr

def RequestField.shape : Shape RequestField RequestOptions where
  fields := [.method, .url, .headers, .body, .expectStatus]
  least := 4
  named?
    | "method" => some .method
    | "url" => some .url
    | "headers" => some .headers
    | "body" => some .body
    | "expectStatus" => some .expectStatus
    | _ => none
  set r
    | .method, n => do return { r with method := ← n.optional Node.readText }
    | .url, n => do return { r with url := ← n.readText }
    | .headers, n => do return { r with headers := ← n.readHeaders }
    | .body, n => do return { r with body := ← n.optional Node.readText }
    | .expectStatus, n => do return { r with expectStatus := ← n.readList Node.readSmallWord }

/-- a request, which has a URL -/
def Document.Node.readRequest (format : Format) (n : Node) : Outcome RequestOptions := do
  let (r, seen) ← RequestField.shape.read format { url := "" } n
  if RequestField.url ∈ seen then pure r else .error .malformed

/-- the fields of a scenario -/
inductive ScenarioField where
  | name
  | executor
  | rate
  | startRate
  | timeUnit
  | preAllocated
  | maxVus
  | vus
  | startVus
  | duration
  | stages
  | gracefulStop
  | thinkTime
  | timeout
  | seed
  | failFast
  | url
  | request
  | requests
  | thresholds
  deriving DecidableEq, Repr

namespace ScenarioField

/-- every field, in the order of documents -/
def all : List ScenarioField :=
  [name, executor, rate, startRate, timeUnit, preAllocated, maxVus, vus, startVus, duration, stages, gracefulStop,
    thinkTime, timeout, seed, failFast, url, request, requests, thresholds]

/-- the name of a field in documents -/
def text : ScenarioField → String
  | name => "name"
  | executor => "executor"
  | rate => "rate"
  | startRate => "startRate"
  | timeUnit => "timeUnit"
  | preAllocated => "preAllocatedVUs"
  | maxVus => "maxVUs"
  | vus => "vus"
  | startVus => "startVUs"
  | duration => "duration"
  | stages => "stages"
  | gracefulStop => "gracefulStop"
  | thinkTime => "thinkTime"
  | timeout => "timeout"
  | seed => "seed"
  | failFast => "abortOnConsecutiveFailures"
  | url => "url"
  | request => "request"
  | requests => "requests"
  | thresholds => "thresholds"

/-- the field of a name; the executor has a second one -/
def named? (s : String) : Option ScenarioField :=
  if s = "model" then some executor else all.find? fun f => f.text = s

/-- take in the value of a field -/
def set (format : Format) (d : ScenarioDocument) (f : ScenarioField) (n : Node) : Outcome ScenarioDocument := do
  match f with
  | name => return { d with name := ← n.optional Node.readText }
  | executor => return { d with executor := ← n.optional Node.readText }
  | rate => return { d with rate := ← n.optional Node.readWord }
  | startRate => return { d with startRate := ← n.optional Node.readWord }
  | timeUnit => return { d with timeUnit := ← n.optional Node.readSpan }
  | preAllocated => return { d with preAllocated := ← n.optional Node.readWord }
  | maxVus => return { d with maxVus := ← n.optional Node.readWord }
  | vus => return { d with vus := ← n.optional Node.readWord }
  | startVus => return { d with startVus := ← n.optional Node.readWord }
  | duration => return { d with duration := ← n.optional Node.readSpan }
  | stages => return { d with stages := ← n.readList (Node.readStage format) }
  | gracefulStop => return { d with gracefulStop := ← n.optional Node.readSpan }
  | thinkTime => return { d with thinkTime := ← n.optional Node.readThinkTime }
  | timeout => return { d with timeout := ← n.optional Node.readSpan }
  | seed => return { d with seed := ← n.optional Node.readWord }
  | failFast => return { d with failFast := ← n.optional Node.readWord }
  | url => return { d with url := ← n.optional Node.readText }
  | request => return { d with request := ← n.optional (Node.readRequest format) }
  | requests => return { d with requests := ← n.readList (Node.readRequest format) }
  | thresholds => return { d with thresholds := ← n.optional Node.readThresholds }

def shape (format : Format) : Shape ScenarioField ScenarioDocument where
  fields := all
  least := 20
  named?
  set := set format

end ScenarioField

/-- a scenario document from the tree of its text -/
def ScenarioDocument.ofNode (format : Format) (n : Node) : Outcome ScenarioDocument := do
  return (← (ScenarioField.shape format).read format {} n).1

end LoadGen
