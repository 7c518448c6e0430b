/-
Runs on virtual time. The clock moves only when no part of the run can go on, and then to the next instant at which one
can, so a run depends on nothing but the instants in it. At one instant a caller comes first, then an abort, the
scheduler, the run loop and the workers in their order. A closed loop looks at its ramp at most once at any instant.
-/
import LoadGen.Run.Step

namespace LoadGen

/-- a stop or an abort that a caller asks for at an instant -/
structure Call where
  due : Duration
  isAbort : Bool
  reason : String

def Call.op (c : Call) : RunOp :=
  if c.isAbort then .abort c.reason else .cancel c.reason

/-- a worker can go on -/
def Worker.isReady (w : Worker) (now : Duration) : Bool :=
  match w.activity with
  | .fresh => true
  | .requesting _ _ deadline _ | .thinking deadline => deadline ≤ now

/-- when a worker can go on -/
def Worker.timer? (w : Worker) : Option Duration :=
  match w.activity with
  | .fresh => none
  | .requesting _ _ deadline _ | .thinking deadline => some deadline

/-- the scheduler is about to look at a ramp -/
def Scheduler.isLooking (s : Scheduler) : Bool :=
  match s.source with
  | .closed _ .look => true
  | _ => false

/-- the run loop can go on -/
def Run.isLoopReady (r : Run) : Bool :=
  match r.loop with
  | .dispatching => r.life.aborted || !r.scheduler.dispatcher.queue.isEmpty || r.scheduler.isOver
  | .draining deadline => r.life.aborted || r.workers.isEmpty || deadline ≤ r.now
  | .closing => !r.scheduler.dispatcher.isClosed || r.scheduler.isOver
  | .finished .. | .failed => false

/-- a run on virtual time -/
structure Timeline where
  run : Run
  /-- calls still to come, the next one first -/
  calls : List Call
  /-- when a closed loop last looked at its ramp -/
  looked : Duration := .zero

namespace Timeline

/-- the least step of the clock -/
def instant : Duration := ⟨1, by decide⟩

/-- the scheduler can go on -/
def isSchedulerReady (t : Timeline) : Bool :=
  t.run.scheduler.isReady t.run.now t.run.life.stopped &&
    (!t.run.scheduler.isLooking || t.run.life.stopped || t.looked < t.run.now)

/-- the instants at which a part of the run can go on, if none can now -/
def timers (t : Timeline) : List Duration :=
  (t.calls.head?.map Call.due).toList ++ t.run.scheduler.timer?.toList ++
    (if t.run.scheduler.isLooking then [t.run.now + instant] else []) ++
    (match t.run.loop with
      | .draining deadline => [deadline]
      | _ => []) ++
    t.run.workers.filterMap Worker.timer?

/-- the first of some instants -/
def earliest? : List Duration → Option Duration
  | [] => none
  | d :: ds => some (ds.foldl Duration.least d)

/-- time passes up to the next instant at which a part of the run can go on -/
def pass? (t : Timeline) : Option RunOp :=
  (earliest? t.timers).map fun at_ => .pass (at_ - t.run.now)

/-- the first part of the run that can go on, or else the passing of time -/
def internal? (t : Timeline) : Option RunOp :=
  if t.run.life.aborted && t.run.isLoopReady then some .proceed
  else if t.isSchedulerReady then some .schedule
  else if t.run.isLoopReady then some .proceed
  else match t.run.workers.findIdx? fun w => w.isReady t.run.now with
    | some i => some (.work i)
    | none => t.pass?

/-- what happens next, nothing once the run is over -/
def nextOp? (t : Timeline) : Option RunOp :=
  if t.run.loop.isOver then none
  else match t.calls with
    | c :: _ => if c.due ≤ t.run.now then some c.op else t.internal?
    | [] => t.internal?

/-- the timeline after something happened -/
def step (t : Timeline) (op : RunOp) : Timeline :=
  { run := t.run.step op
    calls := match op with
      | .cancel _ | .abort _ => t.calls.tail
      | _ => t.calls
    looked := match op with
      | .schedule => if t.run.scheduler.isLooking then t.run.now else t.looked
      | _ => t.looked }

/-- at most `fuel` steps -/
def advance : Nat → Timeline → Timeline
  | 0, t => t
  | fuel + 1, t => match t.nextOp? with
    | none => t
    | some op => advance fuel (t.step op)

end Timeline

end LoadGen
