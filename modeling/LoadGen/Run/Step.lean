/-
The steps of a run. The scheduler, the run loop and the workers go on in any order, time passes between their steps,
and a caller may ask for a stop or an abort at any moment. The run loop hands queued iterations to workers until the
scheduler is done or the run is aborted, then drains for the graceful stop at most, and interrupts what is still under
way.
-/
import LoadGen.Run.Basic

namespace LoadGen

namespace Scheduler

/-- a slot is given back -/
def release (s : Scheduler) (slot : Nat) : Scheduler :=
  { s with dispatcher := s.dispatcher.release slot }

/-- nobody listens any more -/
def close (s : Scheduler) : Scheduler :=
  { s with dispatcher := s.dispatcher.close }

end Scheduler

/-- what may happen in a run -/
inductive RunOp where
  /-- time passes -/
  | pass (span : Duration)
  /-- the scheduler goes on -/
  | schedule
  /-- the run loop goes on -/
  | proceed
  /-- a worker goes on -/
  | work (i : Nat)
  | cancel (reason : String)
  | abort (reason : String)

namespace Run

/-- count iterations that were cut short -/
def interrupted (r : Run) (n : Nat) : Run :=
  { r with life := { r.life with metrics := r.life.metrics.recordInterrupted n } }

/-- the scheduler goes on, and what it drops is counted -/
def schedule (r : Run) : Run :=
  let scheduler := r.scheduler.step r.now r.life.stopped
  let dropped := scheduler.dispatcher.arrived.dropped - r.scheduler.dispatcher.arrived.dropped
  { r with scheduler, life := { r.life with metrics := r.life.metrics.recordDropped dropped } }

/-- a worker is done, and its slot is free again -/
def leave (r : Run) (i : Nat) (w : Worker) : Run :=
  { r with workers := r.workers.eraseIdx i, scheduler := r.scheduler.release w.dispatch.slot }

/-- a worker turns to something else -/
def turn (r : Run) (i : Nat) (w : Worker) (activity : Activity) : Run :=
  { r with workers := r.workers.set i { w with activity } }

/-- a worker sends its request -/
def send (r : Run) (i : Nat) (w : Worker) : Run :=
  match r.scenario.requestFor? w.dispatch.seq with
  | none => r.leave i w
  | some request =>
    let (latency, exchange) := r.scenario.exchange r.peer w.dispatch.seq request
    r.turn i w (.requesting request r.now (r.now + latency) exchange)

/-- the outcome of an exchange that ends now -/
def outcome (r : Run) (w : Worker) (request : Web.RequestSpec) (startedAt : Duration) (x : Web.Exchange) :
    Metrics.Outcome :=
  Web.classify request ⟨w.dispatch.seq, w.dispatch.slot, startedAt, r.now - startedAt⟩ x

/-- an outcome is taken in, and its worker pauses -/
def settle (r : Run) (i : Nat) (w : Worker) (o : Metrics.Outcome) : Run :=
  let (pause, random) := r.scenario.thinkTime.sample r.random
  let r := { r with life := r.life.emit o, random }
  if pause.isZero then r.leave i w else r.turn i w (.thinking (r.now + pause))

/-- a worker goes on -/
def work (r : Run) (i : Nat) : Run :=
  match r.workers[i]? with
  | none => r
  | some w => match w.activity with
    | .fresh => r.send i w
    | .requesting request startedAt deadline x =>
      if deadline ≤ r.now then r.settle i w (r.outcome w request startedAt x) else r
    | .thinking deadline => if deadline ≤ r.now then r.leave i w else r

/-- a queued iteration starts, unless the run was stopped -/
def accept (r : Run) (e : Dispatch) (dispatcher : Dispatcher) : Run :=
  let r := { r with scheduler := { r.scheduler with dispatcher } }
  if r.life.stopped then { r with scheduler := r.scheduler.release e.slot, discarded := r.discarded + 1 }
  else { r with workers := r.workers ++ [⟨e, .fresh⟩] }

/-- nothing is started any more -/
def drain (r : Run) : Run :=
  let r := r.interrupted r.discarded
  { r with life := r.life.beginDrain.1, loop := .draining (r.now + r.scenario.gracefulStop) }

/-- every worker is cut short -/
def interrupt (r : Run) : Run :=
  let scheduler := r.workers.foldl (fun s w => s.release w.dispatch.slot) r.scheduler
  { r.interrupted r.workers.length with scheduler, workers := [], loop := .closing }

/-- the run is over -/
def finish (r : Run) : Run :=
  match r.scheduler.source with
  | .broken => { r with loop := .failed }
  | _ =>
    let metrics := (r.life.metrics.recordInterrupted r.scheduler.dispatcher.arrived.undelivered).extendHorizon r.now
    { r with life := { r.life with metrics }.finish, loop := .finished r.now metrics.snapshot }

/-- the run loop goes on -/
def proceed (r : Run) : Run :=
  match r.loop with
  | .dispatching =>
    if r.life.aborted then r.drain
    else match r.scheduler.dispatcher.receive? with
      | some (e, dispatcher) => r.accept e dispatcher
      | none => if r.scheduler.isOver then r.drain else r
  | .draining deadline =>
    if r.life.aborted then r.interrupt
    else if r.workers.isEmpty then { r with loop := .closing }
    else if deadline ≤ r.now then r.interrupt
    else r
  | .closing =>
    if !r.scheduler.dispatcher.isClosed then { r with scheduler := r.scheduler.close }
    else if r.scheduler.isOver then r.finish
    else r
  | .finished .. | .failed => r

/-- one step of one part -/
def step (r : Run) : RunOp → Run
  | .pass span => { r with now := r.now + span }
  | .schedule => r.schedule
  | .proceed => r.proceed
  | .work i => r.work i
  | .cancel reason => { r with life := (r.life.cancel reason).1 }
  | .abort reason => { r with life := (r.life.abort reason).1 }

/-- a run after some steps -/
def steps (r : Run) (ops : List RunOp) : Run :=
  ops.foldl step r

/-- more steps than any run takes -/
def patience : Nat := Nat.pow 2 256

end Run

end LoadGen
