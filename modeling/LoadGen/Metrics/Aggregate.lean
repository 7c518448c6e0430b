/-
The aggregate of a run: counters, histogram and series, updated one event at a time, and the snapshot that reports and
thresholds are read from. Its size does not grow with the number of outcomes.
-/
import LoadGen.Metrics.Latency
import LoadGen.Metrics.Outcome
import LoadGen.Metrics.Rate
import LoadGen.Time.Duration
import LoadGen.Decimal.Numeral

namespace LoadGen.Metrics

/-- how many outcomes fell into each class -/
structure ClassCounts where
  successStatus : Nat := 0
  clientErrorStatus : Nat := 0
  serverErrorStatus : Nat := 0
  networkError : Nat := 0
  timeout : Nat := 0
  deriving DecidableEq, Repr

namespace ClassCounts

def get (c : ClassCounts) : OutcomeClass → Nat
  | .successStatus => c.successStatus
  | .clientErrorStatus => c.clientErrorStatus
  | .serverErrorStatus => c.serverErrorStatus
  | .networkError => c.networkError
  | .timeout => c.timeout

/-- one more outcome of a class -/
def bump (c : ClassCounts) : OutcomeClass → ClassCounts
  | .successStatus => { c with successStatus := c.successStatus + 1 }
  | .clientErrorStatus => { c with clientErrorStatus := c.clientErrorStatus + 1 }
  | .serverErrorStatus => { c with serverErrorStatus := c.serverErrorStatus + 1 }
  | .networkError => { c with networkError := c.networkError + 1 }
  | .timeout => { c with timeout := c.timeout + 1 }

def total (c : ClassCounts) : Nat :=
  c.successStatus + c.clientErrorStatus + c.serverErrorStatus + c.networkError + c.timeout

def failed (c : ClassCounts) : Nat :=
  c.total - c.successStatus

@[simp] theorem total_bump (c : ClassCounts) (k : OutcomeClass) : (c.bump k).total = c.total + 1 := by
  cases k <;> simp only [bump, total] <;> omega

end ClassCounts

/-- everything counted so far -/
structure Aggregate where
  classes : ClassCounts := {}
  statusCodes : Tally := []
  checksPassed : Nat := 0
  checksFailed : Nat := 0
  dropped : Nat := 0
  interrupted : Nat := 0
  /-- bytes received, at most a word -/
  bytes : Nat := 0
  latency : Histogram := []
  series : RateSeries := .hour
  /-- the span of time covered -/
  horizon : Duration := .zero

instance : Inhabited Aggregate := ⟨{}⟩

namespace Aggregate

/-- one more outcome -/
def ingest (a : Aggregate) (o : Outcome) : Aggregate :=
  { a with
    classes := a.classes.bump o.kind
    statusCodes := match o.status with
      | some code => Tally.bump code a.statusCodes
      | none => a.statusCodes
    checksPassed := if o.check = some true then a.checksPassed + 1 else a.checksPassed
    checksFailed := if o.check = some false then a.checksFailed + 1 else a.checksFailed
    bytes := min Decimal.wordMax (a.bytes + o.bytes)
    latency := a.latency.record o.latency
    series := a.series.record o.completedAt
    horizon := a.horizon.greatest o.completedAt }

/-- `n` more arrivals that found no free slot -/
def recordDropped (a : Aggregate) (n : Nat) : Aggregate :=
  { a with dropped := a.dropped + n }

/-- `n` more iterations that were cut short -/
def recordInterrupted (a : Aggregate) (n : Nat) : Aggregate :=
  { a with interrupted := a.interrupted + n }

/-- the span of time covered reaches at least to `elapsed` -/
def extendHorizon (a : Aggregate) (elapsed : Duration) : Aggregate :=
  { a with horizon := a.horizon.greatest elapsed }

/-- what an aggregate is told -/
inductive Event where
  | outcome (o : Outcome)
  | dropped (n : Nat)
  | interrupted (n : Nat)
  | horizon (elapsed : Duration)

def step (a : Aggregate) : Event → Aggregate
  | .outcome o => a.ingest o
  | .dropped n => a.recordDropped n
  | .interrupted n => a.recordInterrupted n
  | .horizon elapsed => a.extendHorizon elapsed

/-- an aggregate after a list of events -/
def run (a : Aggregate) (events : List Event) : Aggregate :=
  events.foldl step a

end Aggregate

/-- `n` per second over a span of time, zero over no time -/
def perSecond (n : Nat) (span : Duration) : Float :=
  if span.isZero then 0.0 else Float.ofNat n / span.toSeconds

/-- `hits` out of `total`, if there are any -/
def ratio? (hits total : Nat) : Option Float :=
  if 0 < total then some (Float.ofNat hits / Float.ofNat total) else none

/-- an aggregate at one instant, with its figures -/
structure Snapshot where
  elapsed : Duration
  iterations : Nat
  dropped : Nat
  interrupted : Nat
  classes : ClassCounts
  statusCodes : Tally
  checksPassed : Nat
  checksFailed : Nat
  bytes : Nat
  latency : LatencySummary
  /-- iterations per second over the whole span -/
  rate : Float
  rateSummary : RateSummary
  rateSeries : List (Nat × Nat)
  histogram : Histogram

def Aggregate.snapshot (a : Aggregate) : Snapshot :=
  { elapsed := a.horizon
    iterations := a.classes.total
    dropped := a.dropped
    interrupted := a.interrupted
    classes := a.classes
    statusCodes := a.statusCodes
    checksPassed := a.checksPassed
    checksFailed := a.checksFailed
    bytes := a.bytes
    latency := a.latency.summary
    rate := perSecond a.classes.total a.horizon
    rateSummary := a.series.summary
    rateSeries := a.series.points
    histogram := a.latency }

namespace Snapshot

/-- latency at a percentile, in milliseconds -/
def percentile? (s : Snapshot) (p : Float) : Option Float :=
  s.histogram.percentile? p

/-- the share of outcomes that are failures -/
def failedRate? (s : Snapshot) : Option Float :=
  ratio? s.classes.failed s.iterations

/-- the share of checks that passed -/
def checksRate? (s : Snapshot) : Option Float :=
  ratio? s.checksPassed (s.checksPassed + s.checksFailed)

/-- outcomes with one of some status codes -/
def matching (s : Snapshot) (codes : List Nat) : Nat :=
  Tally.total (s.statusCodes.filter fun c => codes.contains c.1)

/-- the share of outcomes with one of some status codes -/
def statusFraction? (s : Snapshot) (codes : List Nat) : Option Float :=
  ratio? (s.matching codes) s.iterations

/-- dropped iterations per second over the whole span -/
def droppedRate (s : Snapshot) : Float :=
  perSecond s.dropped s.elapsed

end Snapshot

end LoadGen.Metrics
