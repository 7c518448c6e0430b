/-
Verdicts: the value that a threshold reads from a snapshot, and whether it passes. A threshold without data fails.
-/
import LoadGen.Threshold.Basic
import LoadGen.Metrics.Aggregate

namespace LoadGen.Threshold

open Metrics

/-- the aggregated value of a metric, if there is one -/
def observeAggregation (target : Metric) (aggregation : Aggregation) (s : Snapshot) : Option Float :=
  match target, aggregation with
  | .latency, .avg => s.latency.mean
  | .latency, .min => s.latency.min
  | .latency, .max => s.latency.max
  | .latency, .med => s.percentile? 50.0
  | .latency, .percentile p => s.percentile? p
  | .iterations, .count => some (Float.ofNat s.iterations)
  | .iterations, .rate => some s.rate
  | .failed, .rate => s.failedRate?
  | .checks, .rate => s.checksRate?
  | .dropped, .count => some (Float.ofNat s.dropped)
  | .dropped, .rate => some s.droppedRate
  | _, _ => none

/-- the value that a threshold reads -/
def observe (t : Threshold) (s : Snapshot) : Option Float :=
  match t.check with
  | .statusIn codes => s.statusFraction? codes
  | .compare aggregation _ _ => observeAggregation t.target aggregation s

/-- whether a value passes; for a status set the share must be the whole -/
def Check.passes (x : Float) : Check → Bool
  | .statusIn _ => 1.0 ≤ x
  | .compare _ op value => op.holds x value

/-- a threshold at the end of a run -/
structure Verdict where
  threshold : Threshold
  passed : Bool
  observed : Option Float

/-- the verdict on a threshold -/
def judge (s : Snapshot) (t : Threshold) : Verdict :=
  let observed := t.observe s
  ⟨t, observed.any fun x => t.check.passes x, observed⟩

/-- the verdicts on a list of thresholds -/
def evaluate (ts : List Threshold) (s : Snapshot) : List Verdict :=
  ts.map (judge s)

/-- no threshold failed -/
def allPassed (vs : List Verdict) : Bool :=
  vs.all fun v => v.passed

end LoadGen.Threshold
