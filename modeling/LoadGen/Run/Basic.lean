/-
A run and its parts: the clock, the life, the scheduler, the run loop and the workers. The far side of every exchange
is a function, so a run is a value and nothing in it depends on a network.
-/
import LoadGen.Report.Basic
import LoadGen.Run.Scheduler
import LoadGen.Scenario.Basic
import LoadGen.Web.Exchange

namespace LoadGen

/-- the far side of every exchange: how long an iteration's request takes, and what it comes to -/
abbrev Peer := Nat → Web.BuiltRequest → Duration × Web.Exchange

/-- an exchange: a request that cannot be built fails at once, and nothing is waited for longer than the timeout -/
def Scenario.exchange (s : Scenario) (peer : Peer) (seq : Nat) (r : Web.RequestSpec) : Duration × Web.Exchange :=
  match r.build with
  | .error e => (.zero, .error e)
  | .ok b =>
    let (latency, exchange) := peer seq b
    if s.timeout < latency then (s.timeout, .error (.timeout s.timeout)) else (latency, exchange)

/-- what a worker is at -/
inductive Activity where
  | fresh
  /-- the request is out, and its exchange ends at `deadline` -/
  | requesting (request : Web.RequestSpec) (startedAt deadline : Duration) (exchange : Web.Exchange)
  /-- the pause after the request -/
  | thinking (deadline : Duration)

/-- an iteration under way -/
structure Worker where
  dispatch : Dispatch
  activity : Activity := .fresh

/-- what the run loop is at -/
inductive RunLoop where
  /-- hands iterations to workers -/
  | dispatching
  /-- waits for the workers, until `deadline` at most -/
  | draining (deadline : Duration)
  /-- waits for the scheduler -/
  | closing
  /-- the run took `duration` -/
  | finished (duration : Duration) (snapshot : Metrics.Snapshot)
  /-- the scheduler broke -/
  | failed

/-- the run is over -/
def RunLoop.isOver : RunLoop → Bool
  | finished .. | failed => true
  | dispatching | draining _ | closing => false

/-- a scenario being run -/
structure Run where
  scenario : Scenario
  peer : Peer
  /-- from the start of the run -/
  now : Duration := .zero
  life : Lifecycle
  scheduler : Scheduler
  loop : RunLoop := .dispatching
  /-- in the order in which they were started -/
  workers : List Worker := []
  /-- queued iterations that a stop kept from starting -/
  discarded : Nat := 0
  /-- where pauses are drawn from -/
  random : Random.Stream

namespace Run

/-- a run at its start -/
def init (s : Scenario) (peer : Peer) (life : Lifecycle) : Run :=
  { scenario := s, peer, life, scheduler := .ofModel s.model, random := .ofSeed life.seed }

/-- how full the pool is -/
def occupancy (r : Run) : Pool.Occupancy :=
  r.scheduler.dispatcher.pool.occupancy

/-- the report of a run that is over -/
def report? (r : Run) : Option Report :=
  match r.loop with
  | .finished duration snapshot => some
    { scenario := r.scenario.name
      model := r.scenario.model.kind
      phase := r.life.phase
      cancelReason := r.life.reason
      duration
      snapshot
      pool := r.occupancy
      arrived := r.scheduler.dispatcher.arrived
      verdicts := Threshold.evaluate r.scenario.thresholds snapshot }
  | _ => none

end Run

end LoadGen
