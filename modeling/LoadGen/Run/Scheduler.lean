/-
The scheduler starts iterations by the arrival model. In an open loop each arrival takes a slot when it is due, or is
dropped; in a closed loop an iteration starts whenever fewer slots are active than the ramp says. A stop ends either
one.
-/
import LoadGen.Arrival.Offsets
import LoadGen.Arrival.Ramp
import LoadGen.Run.Dispatcher

namespace LoadGen

/-- where a closed loop is -/
inductive Turn where
  /-- about to look at the ramp -/
  | look
  /-- waits for a slot below a target, until it has to look again -/
  | claim (target : Nat) (deadline : Duration)
  /-- waits for room in the queue -/
  | hand (e : Dispatch)
  deriving DecidableEq

/-- what iterations come from -/
inductive Source where
  /-- an arrival with its number, and those after it -/
  | open (due : Duration) (rest : Arrivals) (seq : Nat)
  | closed (ramp : Ramp) (turn : Turn)
  /-- there are no more iterations -/
  | exhausted
  /-- the next arrival is no span of time -/
  | broken

/-- the scheduler with its dispatcher -/
structure Scheduler where
  source : Source
  dispatcher : Dispatcher

namespace Source

/-- the arrivals from number `seq` on -/
def ofNext (seq : Nat) : NextArrival Arrivals → Source
  | .due offset rest => .open offset rest seq
  | .finished _ => exhausted
  | .unrepresentable => broken

/-- the ramp of a closed-loop model -/
def ramp : ArrivalModel → Ramp
  | .rampingVus start stages => ⟨start, stages⟩
  | m => .constant m.poolBounds.1 m.totalDuration

/-- the iterations of an arrival model -/
def ofModel (m : ArrivalModel) : Source :=
  match Arrivals.ofModel? m with
  | some arrivals => ofNext 0 arrivals.pop
  | none => closed (ramp m) .look

/-- no iteration comes any more -/
def isOver : Source → Bool
  | exhausted | broken => true
  | .open .. | closed .. => false

end Source

namespace Scheduler

/-- the scheduler of an arrival model, with a fresh pool -/
def ofModel (m : ArrivalModel) : Scheduler :=
  ⟨.ofModel m, .init m.poolBounds.1 m.poolBounds.2⟩

def isOver (s : Scheduler) : Bool :=
  s.source.isOver

/-- the queue is empty and stays so -/
def isDrained (s : Scheduler) : Bool :=
  s.isOver && s.dispatcher.queue.isEmpty

/-- an arrival that is due -/
def arrive (s : Scheduler) (due : Duration) (rest : Arrivals) (seq : Nat) : Scheduler :=
  match s.dispatcher.offer seq due with
  | (dispatcher, .refused) => ⟨.exhausted, dispatcher⟩
  | (dispatcher, _) => ⟨.ofNext (seq + 1) rest.pop, dispatcher⟩

/-- an iteration with its slot goes into the queue as soon as there is room -/
def hand (s : Scheduler) (ramp : Ramp) (e : Dispatch) : Scheduler :=
  if s.dispatcher.isClosed then ⟨.exhausted, s.dispatcher.release e.slot⟩
  else if s.dispatcher.isFull then { s with source := .closed ramp (.hand e) }
  else ⟨.closed ramp .look, s.dispatcher.enqueue e⟩

/-- a slot below the target, or another look at the ramp once the wait is over -/
def claim (s : Scheduler) (ramp : Ramp) (target : Nat) (deadline now : Duration) : Scheduler :=
  match s.dispatcher.pool.acquireBelow? target with
  | some (slot, pool) =>
    let dispatcher := { s.dispatcher with pool }
    if ramp.isDone now then ⟨.exhausted, dispatcher.release slot⟩
    else hand { s with dispatcher } ramp ⟨dispatcher.arrived.dispatched, now, slot⟩
  | none => if deadline ≤ now then { s with source := .closed ramp .look } else s

/-- what the scheduler does at an instant; without anything to do it stays as it is -/
def step (s : Scheduler) (now : Duration) (stopped : Bool) : Scheduler :=
  match s.source with
  | .exhausted | .broken => s
  | .open due rest seq =>
    if stopped then { s with source := .exhausted }
    else if due ≤ now then s.arrive due rest seq
    else s
  | .closed ramp .look =>
    if stopped || ramp.isDone now then { s with source := .exhausted }
    else { s with source := .closed ramp (.claim (ramp.targetAt now) (now + ramp.recheckIn now)) }
  | .closed ramp (.claim target deadline) =>
    if stopped then { s with source := .exhausted } else s.claim ramp target deadline now
  | .closed ramp (.hand e) => s.hand ramp e

/-- whether there is anything to do -/
def isReady (s : Scheduler) (now : Duration) (stopped : Bool) : Bool :=
  match s.source with
  | .exhausted | .broken => false
  | .open due _ _ => stopped || due ≤ now
  | .closed _ .look => true
  | .closed _ (.claim target deadline) =>
    stopped || deadline ≤ now || (s.dispatcher.pool.acquireBelow? target).isSome
  | .closed _ (.hand _) => s.dispatcher.isClosed || !s.dispatcher.isFull

/-- there is something to do only while there are iterations -/
theorem isOver_of_isReady {s : Scheduler} {now : Duration} {stopped : Bool} (h : s.isReady now stopped = true) :
    s.isOver = false := by
  unfold isReady at h
  unfold isOver Source.isOver
  split at h <;> rename_i hs
  · cases h
  · cases h
  all_goals rw [hs]

/-- when there will be something to do, if nothing else happens before -/
def timer? (s : Scheduler) : Option Duration :=
  match s.source with
  | .open due _ _ => some due
  | .closed _ (.claim _ deadline) => some deadline
  | _ => none

/-- without iterations there will be nothing to do -/
theorem timer?_of_isOver {s : Scheduler} (h : s.isOver = true) : s.timer? = none := by
  unfold isOver Source.isOver at h
  unfold timer?
  split at h <;> rename_i hs
  · rw [hs]
  · rw [hs]
  · cases h
  · cases h

end Scheduler

end LoadGen
