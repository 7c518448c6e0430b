/-
Scenario documents: what a document may say about a scenario, field by field. A document becomes options; and a scenario
can be written down as a document with every default made explicit.
-/
import LoadGen.Scenario.Basic
import LoadGen.Scenario.Options

namespace LoadGen

/-- the thresholds of a document -/
inductive ThresholdList where
  /-- expressions by metric -/
  | byMetric (expressions : Ordered (List String))
  /-- one threshold a line -/
  | lines (lines : List String)
  deriving DecidableEq

/-- a scenario document -/
structure ScenarioDocument where
  name : Option String := none
  executor : Option String := none
  rate : Option Nat := none
  startRate : Option Nat := none
  timeUnit : Option Duration := none
  preAllocated : Option Nat := none
  maxVus : Option Nat := none
  vus : Option Nat := none
  startVus : Option Nat := none
  duration : Option Duration := none
  stages : List Stage := []
  gracefulStop : Option Duration := none
  thinkTime : Option ThinkTime := none
  timeout : Option Duration := none
  seed : Option Nat := none
  failFast : Option Nat := none
  /-- short for a single request -/
  url : Option String := none
  request : Option RequestOptions := none
  requests : List RequestOptions := []
  thresholds : Option ThresholdList := none
  deriving DecidableEq

/-- what can be wrong with a document that is well formed -/
inductive DocumentError where
  /-- the requests are given in more than one way -/
  | severalSources
  | noExpressions (metric : String)
  | threshold (r : Threshold.Refusal)

namespace ScenarioDocument

/-- the ways in which the requests are given -/
def sources (d : ScenarioDocument) : Nat :=
  (if d.url.isSome then 1 else 0) + (if d.request.isSome then 1 else 0) + (if d.requests.isEmpty then 0 else 1)

/-- the requests, however they are given -/
def requestOptions (d : ScenarioDocument) : List RequestOptions :=
  match d.url, d.request with
  | some url, _ => [{ url }]
  | none, some r => [r]
  | none, none => d.requests

/-- the expressions for one metric -/
def metricOptions (entry : String × List String) : Except DocumentError ThresholdOptions :=
  if entry.2.isEmpty then .error (.noExpressions entry.1) else .ok ⟨entry.1, entry.2⟩

/-- the threshold on a line -/
def lineOptions (line : String) : Except DocumentError ThresholdOptions :=
  match Threshold.readLine line with
  | .ok t => .ok ⟨t.metric, [t.expression]⟩
  | .error r => .error (.threshold r)

/-- the thresholds, however they are given -/
def thresholdOptions (d : ScenarioDocument) : Except DocumentError (List ThresholdOptions) :=
  match d.thresholds with
  | none => .ok []
  | some (.byMetric expressions) => expressions.mapM metricOptions
  | some (.lines lines) => lines.mapM lineOptions

/-- the options that a document states; a name for a document without one -/
def toOptions (d : ScenarioDocument) (defaultName : Option String) : Except DocumentError ScenarioOptions :=
  if 1 < d.sources then .error .severalSources
  else do
    let thresholds ← d.thresholdOptions
    pure
      { name := d.name.or defaultName
        executor := d.executor
        rate := d.rate
        timeUnit := d.timeUnit
        duration := d.duration
        vus := d.vus
        stages := d.stages
        startVus := d.startVus
        startRate := d.startRate
        preAllocated := d.preAllocated
        maxVus := d.maxVus
        gracefulStop := d.gracefulStop
        thinkTime := d.thinkTime
        timeout := d.timeout
        seed := d.seed
        failFast := d.failFast
        requests := d.requestOptions
        thresholds }

/-- the fields of an arrival model -/
def ofModel (d : ScenarioDocument) : ArrivalModel → ScenarioDocument
  | .constantArrivalRate rate timeUnit duration preAllocated maxVus =>
    { d with
      rate := some rate, timeUnit := some timeUnit, duration := some duration
      preAllocated := some preAllocated, maxVus := some maxVus }
  | .rampingArrivalRate startRate timeUnit stages preAllocated maxVus =>
    { d with
      startRate := some startRate, timeUnit := some timeUnit, stages
      preAllocated := some preAllocated, maxVus := some maxVus }
  | .constantVus vus duration => { d with vus := some vus, duration := some duration }
  | .rampingVus startVus stages => { d with startVus := some startVus, stages }

/-- a request with every default explicit -/
def ofRequest (r : Web.RequestSpec) : RequestOptions :=
  { method := some r.method.name
    url := r.url
    headers := .ofPairs r.headers
    body := if r.body.isEmpty then none else some r.body
    expectStatus := r.expectStatus }

/-- one more expression for a metric, after those it has -/
def group (groups : Ordered (List String)) (t : Threshold) : Ordered (List String) :=
  groups.put t.metric ((groups.get? t.metric).getD [] ++ [t.expression])

/-- think time, unless there is none -/
def ofThinkTime : ThinkTime → Option ThinkTime
  | .none => none
  | t => some t

/-- a scenario as a document -/
def ofScenario (s : Scenario) : ScenarioDocument :=
  ofModel
    { name := some s.name
      executor := some s.model.kind.name
      gracefulStop := some s.gracefulStop
      thinkTime := ofThinkTime s.thinkTime
      timeout := some s.timeout
      seed := some s.seed
      failFast := s.failFast
      requests := s.requests.map ofRequest
      thresholds := if s.thresholds.isEmpty then none else some (.byMetric (s.thresholds.foldl group [])) }
    s.model

end ScenarioDocument

end LoadGen
