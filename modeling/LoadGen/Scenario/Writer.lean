/-
Writing a scenario document as a tree: the fields that are there, in the order of documents, spans of time as phrases.
-/
import LoadGen.Document.Yaml.Write
import LoadGen.Scenario.Reader

namespace LoadGen

open Document

namespace Document.Node

def word (n : Nat) : Node :=
  .number ⟨false, Decimal.ofNat n, none, none⟩

def span (d : Duration) : Node :=
  .text (Phrase.write d)

/-- a mapping of the fields that are there -/
def fields (entries : List (String × Option Node)) : Node :=
  .map none (entries.filterMap fun e => e.2.map fun n => (.text e.1, n))

/-- a list, left out if it is empty -/
def list? {α : Type} (write : α → Node) (items : List α) : Option Node :=
  if items.isEmpty then none else some (.seq none (items.map write))

/-- one item alone, more as a list -/
def oneOrMany (items : List String) : Node :=
  match items with
  | [s] => .text s
  | items => .seq none (items.map .text)

end Document.Node

open Node

def Stage.toNode (s : Stage) : Node :=
  fields [("target", some (word s.target)), ("duration", some (span s.duration))]

def RequestOptions.toNode (r : RequestOptions) : Node :=
  fields
    [("method", r.method.map .text),
      ("url", some (.text r.url)),
      ("headers", if r.headers.isEmpty then none else some (fields (r.headers.map fun h => (h.1, some (.text h.2))))),
      ("body", r.body.map .text),
      ("expectStatus", list? word r.expectStatus)]

def ThinkTime.toNode? : ThinkTime → Option Node
  | none => Option.none
  | fixed pause => some (span pause)
  | uniform least most => some (fields [("min", some (span least)), ("max", some (span most))])

def ThresholdList.toNode : ThresholdList → Node
  | byMetric expressions => fields (expressions.map fun e => (e.1, some (oneOrMany e.2)))
  | lines texts => .seq Option.none (texts.map .text)

namespace ScenarioDocument

/-- the value of a field, if it is there -/
def value? (d : ScenarioDocument) : ScenarioField → Option Node
  | .name => d.name.map .text
  | .executor => d.executor.map .text
  | .rate => d.rate.map word
  | .startRate => d.startRate.map word
  | .timeUnit => d.timeUnit.map span
  | .preAllocated => d.preAllocated.map word
  | .maxVus => d.maxVus.map word
  | .vus => d.vus.map word
  | .startVus => d.startVus.map word
  | .duration => d.duration.map span
  | .stages => list? Stage.toNode d.stages
  | .gracefulStop => d.gracefulStop.map span
  | .thinkTime => d.thinkTime.bind ThinkTime.toNode?
  | .timeout => d.timeout.map span
  | .seed => d.seed.map word
  | .failFast => d.failFast.map word
  | .url => d.url.map .text
  | .request => d.request.map RequestOptions.toNode
  | .requests => list? RequestOptions.toNode d.requests
  | .thresholds => d.thresholds.map ThresholdList.toNode

/-- a scenario document as a tree -/
def toNode (d : ScenarioDocument) : Node :=
  fields (ScenarioField.all.map fun f => (f.text, d.value? f))

end ScenarioDocument

/-- a scenario as the text of a document, every default explicit -/
def Scenario.write (s : Scenario) : String :=
  Yaml.write (ScenarioDocument.ofScenario s).toNode

end LoadGen
