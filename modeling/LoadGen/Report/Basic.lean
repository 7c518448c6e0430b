/-
Reports: what is known of a run when it is over, and of a run in progress from one update to the next.
-/
import LoadGen.Arrival.Model
import LoadGen.Run.Dispatcher
import LoadGen.Run.Lifecycle
import LoadGen.Threshold.Verdict

namespace LoadGen

/-- a run that is over -/
structure Report where
  scenario : String
  model : ModelKind
  phase : Phase
  cancelReason : Option String
  duration : Duration
  snapshot : Metrics.Snapshot
  pool : Pool.Occupancy
  arrived : Arrived
  verdicts : List Threshold.Verdict

/-- whether the run ended before its time -/
def Report.isCancelled (r : Report) : Bool :=
  r.phase = .cancelled

/-- whether every threshold passed -/
def Report.passed (r : Report) : Bool :=
  Threshold.allPassed r.verdicts

/-- a run in progress -/
structure Update where
  tick : Nat
  elapsed : Duration
  /-- how long iterations are dispatched -/
  total : Duration
  phase : Phase
  pool : Pool.Occupancy
  snapshot : Metrics.Snapshot
  /-- thresholds that would fail now -/
  failing : Nat

end LoadGen
