/-
The dispatcher: worker slots, and the queue that carries iterations with their slots from the scheduler to the run loop.
Every iteration in the queue holds a slot of its own, so a pool within the queue's capacity never finds the queue full.
-/
import LoadGen.Pool.Basic
import LoadGen.Time.Duration

namespace LoadGen

/-- an iteration to start now; its slot is claimed -/
structure Dispatch where
  seq : Nat
  /-- when it is due, from the start of the run -/
  due : Duration
  slot : Nat
  deriving DecidableEq

/-- what became of the arrivals of a run -/
structure Arrived where
  /-- handed to a worker slot -/
  dispatched : Nat := 0
  /-- no slot was free -/
  dropped : Nat := 0
  /-- a slot was taken, but nobody listened any more -/
  undelivered : Nat := 0
  deriving DecidableEq, Repr

/-- slots and queue -/
structure Dispatcher where
  pool : Pool
  /-- iterations that the queue holds at most -/
  capacity : Nat
  /-- the oldest iteration first -/
  queue : List Dispatch := []
  /-- nobody listens any more -/
  isClosed : Bool := false
  arrived : Arrived := {}

namespace Dispatcher

/-- the longest queue -/
def queueMax : Nat := 4096

/-- the dispatcher of a fresh pool -/
def init (preAllocated maxVus : Nat) : Dispatcher :=
  { pool := .init preAllocated maxVus, capacity := max 1 (min maxVus queueMax) }

/-- a slot is given back -/
def release (d : Dispatcher) (slot : Nat) : Dispatcher :=
  { d with pool := d.pool.release slot }

/-- the queue has no room -/
def isFull (d : Dispatcher) : Bool :=
  d.capacity ≤ d.queue.length

/-- an iteration enters the queue -/
def enqueue (d : Dispatcher) (e : Dispatch) : Dispatcher :=
  { d with queue := d.queue ++ [e], arrived := { d.arrived with dispatched := d.arrived.dispatched + 1 } }

/-- one more dropped iteration -/
def drop (d : Dispatcher) : Dispatcher :=
  { d with arrived := { d.arrived with dropped := d.arrived.dropped + 1 } }

/-- what comes of an arrival that does not wait -/
inductive Admission where
  | queued
  | dropped
  | refused
  deriving DecidableEq, Repr

/-- an arrival that does not wait: without a slot or without room in the queue it is dropped, and without a listener it
is refused -/
def offer (d : Dispatcher) (seq : Nat) (due : Duration) : Dispatcher × Admission :=
  match d.pool.acquire? with
  | none => (d.drop, .dropped)
  | some (slot, pool) =>
    let d := { d with pool }
    if d.isClosed then (d.release slot, .refused)
    else if d.isFull then ((d.release slot).drop, .dropped)
    else (d.enqueue ⟨seq, due, slot⟩, .queued)

/-- the oldest iteration leaves the queue -/
def receive? (d : Dispatcher) : Option (Dispatch × Dispatcher) :=
  match d.queue with
  | [] => none
  | e :: queue => some (e, { d with queue })

/-- nobody listens any more: what is queued gives its slots back -/
def close (d : Dispatcher) : Dispatcher :=
  { d with
    pool := d.queue.foldl (fun p e => p.release e.slot) d.pool
    queue := []
    isClosed := true
    arrived := { d.arrived with undelivered := d.arrived.undelivered + d.queue.length } }

/-! ## What an offer comes to -/

/-- while all slots are taken an arrival is dropped -/
theorem offer_of_le {d : Dispatcher} (h : d.pool.maxVus ≤ d.pool.active) (seq : Nat) (due : Duration) :
    d.offer seq due = (d.drop, .dropped) := by
  cases hp : d.pool.acquire? with
  | none => simp only [offer, hp]
  | some r =>
    have hroom := (Pool.acquireBelow?_cases hp).1
    omega

/-- an arrival that finds a slot, a listener and room in the queue is queued -/
theorem offer_of_lt {d : Dispatcher} (hslot : d.pool.active < d.pool.maxVus) (hopen : d.isClosed = false)
    (hroom : d.queue.length < d.capacity) (seq : Nat) (due : Duration) :
    ∃ slot pool, d.offer seq due = ({ d with pool }.enqueue ⟨seq, due, slot⟩, .queued) ∧
      pool.active = d.pool.active + 1 ∧ pool.maxVus = d.pool.maxVus := by
  have hsome : d.pool.acquire?.isSome := (d.pool.acquireBelow?_isSome _).2 (by omega)
  obtain ⟨⟨slot, pool⟩, hp⟩ := Option.isSome_iff_exists.1 hsome
  obtain ⟨-, hmax, hactive, -⟩ := Pool.acquireBelow?_cases hp
  have hfull : isFull { d with pool } ≠ true := by
    simp only [isFull, ne_eq, decide_eq_true_eq]
    exact Nat.not_le.2 hroom
  refine ⟨slot, pool, ?_, hactive, hmax⟩
  simp only [offer, hp]
  rw [if_neg (by rw [hopen]; decide), if_neg hfull]

end Dispatcher

end LoadGen
