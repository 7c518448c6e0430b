/-
Thresholds: a metric, and what its value must be at the end of a run. Each metric admits some aggregations; a metric
with a default aggregation may be compared bare.
-/
namespace LoadGen

namespace Threshold

inductive Comparison where
  | lt | le | gt | ge | eq | ne
  deriving DecidableEq, Repr

/-- whether the comparison holds; with a number that is none only `ne` does -/
def Comparison.holds (l r : Float) : Comparison → Bool
  | .lt => l < r
  | .le => l ≤ r
  | .gt => r < l
  | .ge => r ≤ l
  | .eq => l == r
  | .ne => l != r

/-- how many values become one -/
inductive Aggregation where
  | avg | min | max | med | count | rate
  | percentile (p : Float)

/-- what a threshold reads -/
inductive Metric where
  /-- latency of requests in milliseconds -/
  | latency
  | iterations
  | failed
  | checks
  | dropped
  | status
  deriving DecidableEq, Repr

/-- the aggregation of a bare comparison -/
def Metric.default? : Metric → Option Aggregation
  | .iterations | .dropped => some .count
  | .failed | .checks => some .rate
  | .latency | .status => none

/-- whether the metric has values of an aggregation -/
def Metric.accepts : Metric → Aggregation → Bool
  | .latency, .avg | .latency, .min | .latency, .max | .latency, .med | .latency, .percentile _ => true
  | .iterations, .count | .iterations, .rate | .dropped, .count | .dropped, .rate => true
  | .failed, .rate | .checks, .rate => true
  | _, _ => false

/-- what must hold of the value -/
inductive Check where
  | compare (aggregation : Aggregation) (op : Comparison) (value : Float)
  /-- every status code is one of these -/
  | statusIn (codes : List Nat)

/-- what is wrong with the text of a threshold -/
inductive Fault where
  | unknownMetric (name : String)
  | emptyExpression
  | missingOperator
  | missingValue
  | missingAggregation
  /-- the metric's name has an aggregation already -/
  | secondAggregation (text : String)
  | unknownAggregation (text : String)
  | percentileRange (p : Float)
  | wrongAggregation (text : String)
  | invalidValue (text : String)
  | missingIn
  | missingBraces
  | invalidStatus (text : String)
  | emptyStatusSet

/-- a threshold that was refused, with its fault -/
structure Refusal where
  metric : String
  expression : String
  fault : Fault

end Threshold

/-- a pass or fail predicate on the figures of a run -/
structure Threshold where
  metric : String
  expression : String
  target : Threshold.Metric
  check : Threshold.Check

/-- the threshold on one line -/
def Threshold.text (t : Threshold) : String :=
  t.metric ++ ": " ++ t.expression

end LoadGen
