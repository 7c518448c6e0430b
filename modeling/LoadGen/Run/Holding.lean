/-
Slots held for given times: the scheduler of an open loop with a reader that takes every iteration at once and gives its
slot back when a holding time from its due time has passed. The reader may stop after some iterations.
-/
import LoadGen.Run.Lifecycle
import LoadGen.Run.Step

namespace LoadGen

/-- a scheduler and its reader -/
structure Holding where
  /-- how long an iteration holds its slot, by its number -/
  holdOf : Nat → Duration
  /-- when the run is stopped -/
  cancelAt : Option Duration
  /-- iterations after which the reader stops -/
  limit : Option Nat
  now : Duration := .zero
  stopped : Bool := false
  scheduler : Scheduler
  /-- slots with the instants at which they are given back -/
  held : List (Duration × Nat) := []
  /-- what was read, the latest first -/
  taken : List Dispatch := []
  metrics : Metrics.Aggregate := {}

namespace Holding

/-- holding times that are used in turn; without any a slot is given back at once -/
def inTurn (holds : List Duration) (seq : Nat) : Duration :=
  (holds[seq % holds.length]?).getD .zero

/-- the scheduler of a model and its reader, before anything happens -/
def start (m : ArrivalModel) (holdOf : Nat → Duration) (cancelAt : Option Duration) (limit : Option Nat) : Holding :=
  { holdOf, cancelAt, limit, scheduler := .ofModel m }

/-- what may happen -/
inductive Op where
  | cancel
  | giveBack (i : Nat)
  | close
  | schedule
  | read
  | pass (instant : Duration)

/-- an iteration is read -/
def read (h : Holding) : Holding :=
  match h.scheduler.dispatcher.receive? with
  | none => h
  | some (e, dispatcher) =>
    { h with
      scheduler := { h.scheduler with dispatcher }
      held := h.held ++ [(e.due + h.holdOf e.seq, e.slot)]
      taken := e :: h.taken }

/-- the scheduler goes on, and what it drops is counted -/
def schedule (h : Holding) : Holding :=
  let scheduler := h.scheduler.step h.now h.stopped
  let dropped := scheduler.dispatcher.arrived.dropped - h.scheduler.dispatcher.arrived.dropped
  { h with scheduler, metrics := h.metrics.recordDropped dropped }

def step (h : Holding) : Op → Holding
  | .cancel => { h with stopped := true }
  | .giveBack i => match h.held[i]? with
    | none => h
    | some (_, slot) => { h with held := h.held.eraseIdx i, scheduler := h.scheduler.release slot }
  | .close => { h with scheduler := h.scheduler.close }
  | .schedule => h.schedule
  | .read => h.read
  | .pass instant => { h with now := instant }

/-- the reader has had enough -/
def isSated (h : Holding) : Bool :=
  match h.limit with
  | none => false
  | some n => n ≤ h.taken.length

/-- when the run is stopped, unless it was -/
def cancelTimer? (h : Holding) : Option Duration :=
  if h.stopped then none else h.cancelAt

/-- the next instant at which anything happens -/
def timer? (h : Holding) : Option Duration :=
  match h.scheduler.timer? with
  | none => none
  | some due => some ((h.cancelTimer?.toList ++ h.held.map Prod.fst).foldl Duration.least due)

/-- what happens next -/
def nextOp? (h : Holding) : Option Op :=
  if h.cancelTimer?.any (· ≤ h.now) then some .cancel
  else match h.held.findIdx? fun s => s.1 ≤ h.now with
    | some i => some (.giveBack i)
    | none =>
      if h.isSated && !h.scheduler.dispatcher.isClosed then some .close
      else if h.scheduler.isReady h.now h.stopped then some .schedule
      else if !h.scheduler.dispatcher.queue.isEmpty then some .read
      else h.timer?.map .pass

/-- at most `fuel` steps -/
def advance : Nat → Holding → Holding
  | 0, h => h
  | fuel + 1, h => match h.nextOp? with
    | none => h
    | some op => advance fuel (h.step op)

/-- the scheduler of a model and its reader, when nothing happens any more -/
def ofModel (m : ArrivalModel) (holds : List Duration) (cancelAt : Option Duration) (limit : Option Nat) : Holding :=
  advance Run.patience (start m (inTurn holds) cancelAt limit)

end Holding

end LoadGen
