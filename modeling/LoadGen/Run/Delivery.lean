/-
The scheduler and a listener at any pace. The listener receives iterations from the queue and gives their slots back in
any order, at some moment it may close the queue; a stop may come at any moment, and the clock may stand at any instant
when the scheduler goes on. A run is one such listener: its workers hold the slots.
-/
import LoadGen.Run.Step

namespace LoadGen

namespace Scheduler

/-- the iteration that waits for room in the queue -/
def waiting? (s : Scheduler) : Option Dispatch :=
  match s.source with
  | .closed _ (.hand e) => some e
  | _ => none

/-- the iterations that nobody has received: those in the queue, and the one that waits for room -/
def pending (s : Scheduler) : List Dispatch :=
  s.dispatcher.queue ++ s.waiting?.toList

end Scheduler

/-- a scheduler with its listener -/
structure Delivery where
  scheduler : Scheduler
  now : Duration := .zero
  /-- a stop was asked for -/
  stopped : Bool := false
  /-- iterations that were received and hold their slots -/
  held : List Dispatch := []

namespace Delivery

/-- what may happen -/
inductive Op where
  /-- time passes -/
  | pass (span : Duration)
  | stop
  /-- the scheduler goes on -/
  | schedule
  /-- an iteration is received -/
  | receive
  /-- an iteration that was received gives its slot back -/
  | release (i : Nat)
  /-- nobody listens any more -/
  | close

/-- the scheduler of a model, before anything happens -/
def start (m : ArrivalModel) : Delivery :=
  { scheduler := .ofModel m }

def step (d : Delivery) : Op → Delivery
  | .pass span => { d with now := d.now + span }
  | .stop => { d with stopped := true }
  | .schedule => { d with scheduler := d.scheduler.step d.now d.stopped }
  | .receive => match d.scheduler.dispatcher.receive? with
    | none => d
    | some (e, dispatcher) => { d with scheduler := { d.scheduler with dispatcher }, held := d.held ++ [e] }
  | .release i => match d.held[i]? with
    | none => d
    | some e => { d with scheduler := d.scheduler.release e.slot, held := d.held.eraseIdx i }
  | .close => { d with scheduler := d.scheduler.close }

/-- a delivery after some steps -/
def run (d : Delivery) (ops : List Op) : Delivery :=
  ops.foldl step d

/-- the iterations that hold a slot: nobody has received them, or they were not given back -/
def events (d : Delivery) : List Dispatch :=
  d.scheduler.pending ++ d.held

def pool (d : Delivery) : Pool :=
  d.scheduler.dispatcher.pool

/-- the iterations in the queue -/
def queue (d : Delivery) : List Dispatch :=
  d.scheduler.dispatcher.queue

/-- a run as a delivery: its workers hold the slots -/
def ofRun (r : Run) : Delivery :=
  { scheduler := r.scheduler, now := r.now, stopped := r.life.stopped, held := r.workers.map Worker.dispatch }

end Delivery

end LoadGen
