/-
Performing a scenario: it is checked, its run is started, and when the run is over there is a report. A life starts one
run only. While it goes on, what is known of it at every whole second is an update.
-/
import LoadGen.Run.Timeline

namespace LoadGen

/-- why there is no report -/
inductive RunError where
  | scenario (e : ScenarioError)
  | alreadyStarted (e : AlreadyStarted)
  /-- an arrival was no span of time -/
  | unrepresentable
  /-- the run is still going on -/
  | unfinished

def RunError.message : RunError → String
  | scenario e => e.message
  | alreadyStarted e => e.message
  | unrepresentable => "scheduler task failed"
  | unfinished => "run not finished"

namespace Lifecycle

/-- the life of a scenario's run -/
def ofScenario (s : Scenario) : Lifecycle :=
  { seed := s.seed, failFast := s.failFast }

/-- a scenario on virtual time, with a caller's calls in their order; what is refused leaves no trace -/
def timeline (l : Lifecycle) (s : Scenario) (peer : Peer) (calls : List Call) : Except RunError Timeline := do
  s.check.mapError .scenario
  let life ← l.start.mapError .alreadyStarted
  pure { run := .init s peer life, calls }

/-- perform a scenario -/
def perform (l : Lifecycle) (s : Scenario) (peer : Peer) (calls : List Call) : Except RunError Report × Lifecycle :=
  match l.timeline s peer calls with
  | .error e => (.error e, l)
  | .ok t =>
    let run := (t.advance Run.patience).run
    let report := match run.loop, run.report? with
      | _, some report => .ok report
      | .failed, none => .error .unrepresentable
      | _, none => .error .unfinished
    (report, run.life)

end Lifecycle

/-! ## On the way -/

/-- what is known of a run at a whole second -/
def Run.update (r : Run) (second : Nat) : Update :=
  let elapsed := Duration.ofSecs second
  let snapshot := (r.life.metrics.extendHorizon elapsed).snapshot
  { tick := second
    elapsed
    total := r.scenario.model.totalDuration
    phase := r.life.phase
    pool := r.occupancy
    snapshot
    failing := (Threshold.evaluate r.scenario.thresholds snapshot).countP fun v => !v.passed }

/-- the updates while time passes -/
def Run.updates (r : Run) (span : Duration) : List Update :=
  (List.range ((r.now + span).secs - r.now.secs)).map fun k => r.update (r.now.secs + 1 + k)

/-- the updates in at most `fuel` steps -/
def Timeline.updates : Nat → Timeline → List Update
  | 0, _ => []
  | fuel + 1, t => match t.nextOp? with
    | none => []
    | some op =>
      let now := match op with
        | .pass span => t.run.updates span
        | _ => []
      now ++ updates fuel (t.step op)

end LoadGen
