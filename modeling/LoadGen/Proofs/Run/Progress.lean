/-
The progress of a run on virtual time. Whatever a part of a run does takes something away from what is left to do, time
passes only if nothing can be done, and then something can. So a run ends, however long its requests and its pauses
are, if only its arrivals end.

- `ArrivalModel.EndsBy`: arrivals with a number from some number on do not come. A closed loop has none, at a constant
  rate they end with the duration, and at a ramping rate they end as well.
- `load`: what the scheduler is still to do, for the arrivals to come, or until its ramp is over.
- `chores`, `waits`: what is left to do altogether, and whether time is to pass before any of it.
- `chores_step`, `waits_pass`: every step but the passing of time does some of it, and time never passes twice in a row.
- `isOver_advance`: a run is over after as many steps as that takes.
-/
import LoadGen.Proofs.Arrival.Walking
import LoadGen.Proofs.Run.Deadlines

namespace LoadGen

/-! ## Arrivals that end -/

/-- from number `k` on no arrivals come -/
def ArrivalModel.EndsBy (m : ArrivalModel) (k : Nat) : Prop :=
  ∀ a, Arrivals.ofModel? m = some a → a.offset? k = none

variable {m : ArrivalModel} {k : Nat}

namespace ArrivalModel

theorem endsBy_of_closed (closed : Arrivals.ofModel? m = none) (k : Nat) : m.EndsBy k := by
  intro a ha
  rw [closed] at ha
  cases ha

/-- at a constant rate there is at most one arrival for each nanosecond and each of the rate, unless that is more than
words can tell apart -/
theorem endsBy_of_rate (sound : m.Sound) {rate : Nat} (hrate : m.rate? = some rate)
    (small : m.totalDuration.nanos * rate ≤ doubleWordMax) : m.EndsBy (m.totalDuration.nanos * rate) := by
  have hone : 1 ≤ rate := sound.rate rate hrate
  intro a ha
  cases m with
  | constantArrivalRate rate' timeUnit duration preAllocated most =>
    obtain rfl : rate' = rate := Option.some.inj hrate
    cases ha
    have hunit : 0 < timeUnit.nanos := Duration.pos_of_isZero (sound.timeUnit timeUnit rfl)
    show (Arrivals.constant ⟨rate', timeUnit, duration, 0⟩).offset? (duration.nanos * rate') = none
    cases h : (Arrivals.constant ⟨rate', timeUnit, duration, 0⟩).offset? (duration.nanos * rate') with
    | none => rfl
    | some d =>
      obtain ⟨rest, hnth⟩ := Arrivals.offset?_eq_some.1 h
      have hbefore := Arrivals.offsetNanos_lt _ hnth
      have hproduct : duration.nanos * rate' ≤ (0 + duration.nanos * rate') * timeUnit.nanos := by
        rw [Nat.zero_add]
        exact Nat.le_mul_of_pos_right _ hunit
      have hoffset : duration.nanos ≤ min ((0 + duration.nanos * rate') * timeUnit.nanos) doubleWordMax / rate' :=
        (Nat.le_div_iff_mul_le hone).2 (Nat.le_min.2 ⟨hproduct, small⟩)
      exact absurd hbefore (Nat.not_lt.2 hoffset)
  | rampingArrivalRate | constantVus | rampingVus => cases hrate

/-- arrivals end with the first number that does not come -/
theorem endsBy_of_offset? {a : Arrivals} (hm : Arrivals.ofModel? m = some a) (hk : a.offset? k = none) :
    m.EndsBy k := by
  intro a' ha'
  rw [hm] at ha'
  cases ha'
  exact hk

/-- four while the rate goes up for two seconds, and one while it goes down again; the next would come at the end -/
example : (rampingArrivalRate 0 (.ofSecs 1) [⟨.ofSecs 2, 4⟩, ⟨.ofSecs 1, 0⟩] 1 1).EndsBy 5 :=
  endsBy_of_offset? rfl (by decide +kernel)

/-- at a ramping rate arrivals end, however high it is and however long -/
theorem endsBy_of_ramp {startRate preAllocated most : Nat} {timeUnit : Duration} {stages : List Stage}
    (h : (Ramp.mk startRate stages).InWords) :
    (rampingArrivalRate startRate timeUnit stages preAllocated most).EndsBy (2 ^ 216) :=
  endsBy_of_offset? rfl (Arrivals.offset?_ramping_of_many h (Nat.le_refl _))

end ArrivalModel

/-- an arrival that comes has a number below the end -/
theorem Source.Serves.seq_lt {due : Duration} {rest : Arrivals} {seq : Nat} (h : (Source.open due rest seq).Serves m)
    (hend : m.EndsBy k) : seq < k := by
  obtain ⟨a, ha, hnth⟩ := h
  by_contra hle
  have hsome : (a.offset? seq).isSome := by rw [Arrivals.offset?_eq_some.2 ⟨rest, hnth⟩]; rfl
  have hlast := Arrivals.isSome_offset?_of_le (Nat.le_of_not_lt hle) hsome
  rw [hend a ha] at hlast
  cases hlast

/-! ## What is left to do -/

/-- what a closed loop may still do before it looks at its ramp again -/
def Turn.rank : Turn → Nat
  | look => 0
  | claim _ _ => 6
  | hand _ => 5

/-- what a worker is still to do -/
def Worker.rank (w : Worker) : Nat :=
  match w.activity with
  | .fresh => 3
  | .requesting .. => 2
  | .thinking _ => 1

/-- what some workers are still to do -/
def Worker.ranks : List Worker → Nat
  | [] => 0
  | w :: ws => w.rank + ranks ws

theorem Worker.ranks_append (ws more : List Worker) : ranks (ws ++ more) = ranks ws + ranks more := by
  induction ws with
  | nil => exact (Nat.zero_add _).symm
  | cons w ws ih => rw [List.cons_append, ranks, ranks, ih, Nat.add_assoc]

/-- what an iteration is to come to, in the queue: it is handed out, and its worker does three things -/
def Dispatch.rank : Nat := 4

/-- what is still to come of a source, with `k` arrivals at most and `left` instants of a ramp: each of these adds one
iteration at most, and takes a step or two itself -/
def Source.load (k left : Nat) : Source → Nat
  | .open _ _ seq => 5 * (k - seq) + 1
  | .closed _ turn => 7 * left + turn.rank
  | .exhausted | .broken => 0

/-- what is still to come of a source, and what has come of it -/
def Scheduler.load (k left : Nat) (s : Scheduler) : Nat :=
  s.source.load k left + Dispatch.rank * s.dispatcher.queue.length

namespace Run

/-- the phases that are still to end -/
def stage (r : Run) : Nat :=
  match r.loop with
  | .dispatching => 4
  | .draining _ => 3
  | .closing => if r.scheduler.dispatcher.isClosed then 1 else 2
  | .finished .. | .failed => 0

/-- what the parts of a run are still to do -/
def chores (k left : Nat) (r : Run) : Nat :=
  r.scheduler.load k left + Worker.ranks r.workers + r.stage

end Run

/-! ## The scheduler -/

namespace Scheduler

variable {s : Scheduler} {now : Duration} {left : Nat}

/-- what has no more iterations has only those in its queue -/
theorem load_exhausted (d : Dispatcher) : load k left ⟨.exhausted, d⟩ = Dispatch.rank * d.queue.length :=
  Nat.zero_add _

theorem load_closed (ramp : Ramp) (turn : Turn) (d : Dispatcher) :
    load k left ⟨.closed ramp turn, d⟩ = 7 * left + turn.rank + Dispatch.rank * d.queue.length := rfl

/-- an iteration is queued -/
theorem load_enqueue (source : Source) (d : Dispatcher) (e : Dispatch) :
    load k left ⟨source, d.enqueue e⟩ = source.load k left + Dispatch.rank * d.queue.length + Dispatch.rank := by
  rw [load, Dispatcher.enqueue, List.length_append, List.length_singleton, Nat.mul_succ]
  exact (Nat.add_assoc _ _ _).symm

/-- an arrival is over, and at most one iteration has come of it -/
theorem load_arrive {due : Duration} {rest : Arrivals} {seq : Nat} (source : s.source = .open due rest seq)
    (hseq : seq < k) : (s.arrive due rest seq).load k left < s.load k left := by
  have hload : s.load k left = 5 * (k - seq) + 1 + Dispatch.rank * s.dispatcher.queue.length := by
    rw [load, source, Source.load]
  have hnext (next : NextArrival Arrivals) : (Source.ofNext (seq + 1) next).load k left ≤ 5 * (k - (seq + 1)) + 1 := by
    cases next with
    | due => exact Nat.le_refl _
    | finished | unrepresentable => exact Nat.zero_le _
  have hrest := hnext rest.pop
  have hover : load k left ⟨.ofNext (seq + 1) rest.pop, s.dispatcher⟩ + Dispatch.rank < s.load k left := by
    show (Source.ofNext (seq + 1) rest.pop).load k left + Dispatch.rank * s.dispatcher.queue.length + 4 < _
    omega
  cases hacquire : s.dispatcher.pool.acquire? with
  | none =>
    have hdrop : s.arrive due rest seq = ⟨.ofNext (seq + 1) rest.pop, s.dispatcher.drop⟩ := by
      simp only [arrive, Dispatcher.offer, hacquire]
    rw [hdrop]
    exact Nat.lt_of_le_of_lt (Nat.le_add_right _ _) hover
  | some taken =>
    obtain ⟨slot, pool⟩ := taken
    cases hclosed : s.dispatcher.isClosed with
    | true =>
      rw [arrive, Dispatcher.offer_of_closed hacquire hclosed, hload]
      show load k left ⟨.exhausted, _⟩ < _
      rw [load_exhausted]
      show Dispatch.rank * s.dispatcher.queue.length < _
      omega
    | false =>
      cases hfull : s.dispatcher.isFull with
      | true =>
        rw [arrive, Dispatcher.offer_of_full hacquire hclosed hfull]
        exact Nat.lt_of_le_of_lt (Nat.le_add_right _ _) hover
      | false =>
        rw [arrive, Dispatcher.offer_of_room hacquire hclosed hfull]
        show load k left ⟨_, { s.dispatcher with pool }.enqueue _⟩ < _
        rw [load_enqueue]
        exact hover

/-- an iteration waits for room, or has found some -/
theorem load_hand_le (ramp : Ramp) (e : Dispatch) :
    (s.hand ramp e).load k left ≤ 7 * left + 5 + Dispatch.rank * s.dispatcher.queue.length := by
  unfold hand
  split
  · rw [load_exhausted]
    exact Nat.le_add_left _ _
  · split
    · exact Nat.le_refl _
    · rw [load_enqueue, Source.load, Turn.rank, Dispatch.rank]
      omega

/-- an iteration that waited has found room, or nobody listens -/
theorem load_hand {ramp : Ramp} {e : Dispatch} (source : s.source = .closed ramp (.hand e))
    (ready : (s.dispatcher.isClosed || !s.dispatcher.isFull) = true) :
    (s.hand ramp e).load k left < s.load k left := by
  have hload : s.load k left = 7 * left + 5 + Dispatch.rank * s.dispatcher.queue.length := by
    rw [load, source, Source.load, Turn.rank]
  rw [hload]
  unfold hand
  split
  · rw [load_exhausted]
    show Dispatch.rank * s.dispatcher.queue.length < _
    omega
  · rename_i hlistening
    rw [Bool.not_eq_true] at hlistening
    rw [hlistening, Bool.false_or, Bool.not_eq_true'] at ready
    rw [if_neg (by rw [ready]; decide), load_enqueue, Source.load, Turn.rank, Dispatch.rank]
    omega

/-- a slot is found, or the wait for it is over -/
theorem load_claim {ramp : Ramp} {target : Nat} {deadline : Duration}
    (source : s.source = .closed ramp (.claim target deadline))
    (ready : (decide (deadline ≤ now) || (s.dispatcher.pool.acquireBelow? target).isSome) = true) :
    (s.claim ramp target deadline now).load k left < s.load k left := by
  have hload : s.load k left = 7 * left + 6 + Dispatch.rank * s.dispatcher.queue.length := by
    rw [load, source, Source.load, Turn.rank]
  rw [hload]
  unfold claim
  cases hacquire : s.dispatcher.pool.acquireBelow? target with
  | some taken =>
    simp only
    split
    · rw [load_exhausted]
      show Dispatch.rank * s.dispatcher.queue.length < _
      omega
    · exact Nat.lt_of_le_of_lt (load_hand_le ramp _) (Nat.add_lt_add_right (Nat.lt_succ_self _) _)
  | none =>
    rw [hacquire, Option.isSome_none, Bool.or_false, decide_eq_true_eq] at ready
    simp only [if_pos ready]
    rw [load_closed, Turn.rank]
    omega

/-- any step of the scheduler but a look at a ramp -/
theorem load_step {stopped : Bool} (hserves : s.source.Serves m) (hend : m.EndsBy k)
    (ready : s.isReady now stopped = true) (hlook : s.isLooking = false) :
    (s.step now stopped).load k left < s.load k left := by
  unfold step
  cases source : s.source with
  | exhausted | broken =>
    rw [isReady, source] at ready
    cases ready
  | «open» due rest seq =>
    rw [isReady, source, Bool.or_eq_true, decide_eq_true_eq] at ready
    rw [source] at hserves
    simp only
    split
    · rw [load_exhausted, load, source, Source.load]
      omega
    · rename_i hrunning
      rw [if_pos (ready.resolve_left hrunning)]
      exact load_arrive source (hserves.seq_lt hend)
  | closed ramp turn =>
    cases turn with
    | look =>
      rw [isLooking, source] at hlook
      cases hlook
    | claim target deadline =>
      simp only [isReady, source] at ready
      simp only
      split
      · rw [load_exhausted, load, source, Source.load, Turn.rank]
        omega
      · rename_i hrunning
        rw [Bool.not_eq_true] at hrunning
        rw [hrunning, Bool.false_or] at ready
        exact load_claim source ready
    | hand e =>
      simp only [isReady, source] at ready
      exact load_hand source ready

end Scheduler

namespace Timeline

variable {t : Timeline} {op : RunOp}

/-- instants of a ramp that were not looked at -/
def left (t : Timeline) : Nat :=
  t.run.scenario.model.totalDuration.nanos - t.looked.nanos

/-- a closed loop looks at its ramp at a later instant than before -/
theorem Paced.load_look (h : t.Paced) {ramp : Ramp} (source : t.run.scheduler.source = .closed ramp .look)
    (ready : t.isSchedulerReady = true) :
    (t.step .schedule).run.scheduler.load k (t.step .schedule).left < t.run.scheduler.load k t.left := by
  obtain ⟨-, hbefore⟩ := h.looked ramp .look source
  have hload : t.run.scheduler.load k t.left =
      7 * t.left + Dispatch.rank * t.run.scheduler.dispatcher.queue.length := by
    rw [Scheduler.load, source, Source.load, Turn.rank, Nat.add_zero]
  have hleft : (t.step .schedule).left = t.run.scenario.model.totalDuration.nanos - t.run.now.nanos := by
    show t.run.scenario.model.totalDuration.nanos - (t.step .schedule).looked.nanos = _
    simp only [Timeline.step, Scheduler.isLooking, source, if_true]
  have hrun : (t.step .schedule).run.scheduler = t.run.scheduler.step t.run.now t.run.life.stopped := rfl
  have hsome : t.left = t.run.scenario.model.totalDuration.nanos - t.looked.nanos := rfl
  rw [hload, hrun, hleft]
  rw [Duration.lt_iff] at hbefore
  unfold Scheduler.step
  rw [source]
  simp only
  split
  · rw [Scheduler.load_exhausted]
    omega
  · rename_i hlive
    rw [Bool.or_eq_true, not_or, Bool.not_eq_true] at hlive
    -- it has not looked at this instant yet
    have hlater : t.looked < t.run.now := by
      simpa [isSchedulerReady, Scheduler.isReady, Scheduler.isLooking, source, hlive.1] using ready
    rw [Duration.lt_iff] at hlater
    rw [Scheduler.load_closed, Turn.rank]
    omega

/-- what is left of a ramp stays until it is looked at -/
theorem left_step (hop : op = .schedule → t.run.scheduler.isLooking = false) : (t.step op).left = t.left := by
  have hlooked : (t.step op).looked = t.looked := by
    cases op with
    | schedule => simp only [step, hop rfl, Bool.false_eq_true, if_false]
    | pass | proceed | work | cancel | abort => rfl
  rw [left, left, hlooked, t.scenario_step op]

/-- **The scheduler, when it goes on,** leaves less to come. -/
theorem Paced.load_schedule (h : t.Paced) (hend : t.run.scenario.model.EndsBy k) (ready : t.isSchedulerReady = true) :
    (t.step .schedule).run.scheduler.load k (t.step .schedule).left < t.run.scheduler.load k t.left := by
  cases hlook : t.run.scheduler.isLooking with
  | true =>
    unfold Scheduler.isLooking at hlook
    split at hlook
    · rename_i ramp source
      exact h.load_look source ready
    · cases hlook
  | false =>
    rw [left_step fun _ => hlook]
    exact Scheduler.load_step h.serves hend (Bool.and_eq_true_iff.1 ready).1 hlook

end Timeline

/-! ## The run loop and the workers -/

namespace Run

variable {r : Run} {left : Nat}

theorem stage_closing (closing : r.loop = .closing) : r.stage ≤ 2 := by
  simp only [stage, closing]
  split <;> omega

theorem chores_accept (running : r.loop = .dispatching) {e : Dispatch} {rest : List Dispatch}
    (queue : r.scheduler.dispatcher.queue = e :: rest) :
    (r.accept e { r.scheduler.dispatcher with queue := rest }).chores k left < r.chores k left := by
  have hqueue : r.scheduler.load k left = r.scheduler.source.load k left + (Dispatch.rank * rest.length + 4) := by
    rw [Scheduler.load, queue, List.length_cons, Nat.mul_succ, Dispatch.rank]
  have hchores : r.chores k left = r.scheduler.source.load k left + (Dispatch.rank * rest.length + 4) +
      Worker.ranks r.workers + r.stage := by
    rw [chores, hqueue]
  have hstage : r.stage = 4 := by simp only [stage, running]
  rw [hchores, hstage]
  unfold accept
  simp only
  split
  · show r.scheduler.source.load k left + Dispatch.rank * rest.length + Worker.ranks r.workers + stage _ < _
    simp only [stage, running]
    omega
  · show r.scheduler.source.load k left + Dispatch.rank * rest.length +
      Worker.ranks (r.workers ++ [⟨e, .fresh⟩]) + stage _ < _
    simp only [stage, running, Worker.ranks_append, Worker.ranks, Worker.rank]
    omega

/-- the workers that are cut short have nothing to do any more -/
theorem chores_interrupt {deadline : Duration} (draining : r.loop = .draining deadline) :
    r.interrupt.chores k left < r.chores k left := by
  obtain ⟨pool, hpool⟩ := Scheduler.foldl_release r.workers r.scheduler
  have hstage : r.stage = 3 := by simp only [stage, draining]
  have hload : r.interrupt.scheduler.load k left = r.scheduler.load k left := by
    simp only [interrupt, hpool, Scheduler.load]
  have hclosing := stage_closing (show r.interrupt.loop = .closing from rfl)
  rw [chores, chores, hload, hstage, show r.interrupt.workers = [] from rfl, Worker.ranks]
  omega

theorem chores_drain (dispatching : r.loop = .dispatching) : r.drain.chores k left < r.chores k left := by
  have hstage : r.stage = 4 := by simp only [stage, dispatching]
  rw [chores, chores, hstage]
  exact Nat.lt_succ_self _

theorem chores_drained {deadline : Duration} (draining : r.loop = .draining deadline) :
    chores k left { r with loop := .closing } < r.chores k left := by
  have hstage : r.stage = 3 := by simp only [stage, draining]
  have hclosing := stage_closing (show ({ r with loop := .closing } : Run).loop = .closing from rfl)
  show r.scheduler.load k left + Worker.ranks r.workers + stage { r with loop := .closing } < _
  rw [chores, hstage]
  omega

/-- nothing that is queued is started any more -/
theorem chores_close (closing : r.loop = .closing) (listening : r.scheduler.dispatcher.isClosed = false) :
    chores k left { r with scheduler := r.scheduler.close } < r.chores k left := by
  have hstage : r.stage = 2 := by simp only [stage, closing, listening, Bool.false_eq_true, if_false]
  have hstage' : stage { r with scheduler := r.scheduler.close } = 1 := by
    simp only [stage, closing, Scheduler.close, Dispatcher.close, if_true]
  have hload : r.scheduler.close.load k left ≤ r.scheduler.load k left := by
    show r.scheduler.source.load k left + Dispatch.rank * 0 ≤ _
    exact Nat.add_le_add_left (Nat.zero_le _) _
  rw [chores, chores, hstage, hstage']
  show r.scheduler.close.load k left + Worker.ranks r.workers + 1 < _
  omega

theorem chores_finish (closing : r.loop = .closing) (closed : r.scheduler.dispatcher.isClosed = true) :
    r.finish.chores k left < r.chores k left := by
  have hstage : r.stage = 1 := by simp only [stage, closing, closed, if_true]
  rw [chores, chores, hstage]
  unfold finish
  split <;> exact Nat.lt_succ_self _

/-- **The run loop, when it goes on,** leaves less to be done. -/
theorem chores_proceed (ready : r.isLoopReady = true) : r.proceed.chores k left < r.chores k left := by
  unfold isLoopReady at ready
  unfold proceed
  cases hl : r.loop with
  | dispatching =>
    simp only [hl] at ready ⊢
    split
    · exact chores_drain hl
    · rename_i haborted
      rw [Bool.not_eq_true] at haborted
      unfold Dispatcher.receive?
      cases hqueue : r.scheduler.dispatcher.queue with
      | cons e rest => exact chores_accept hl hqueue
      | nil =>
        simp only [haborted, hqueue, List.isEmpty_nil, Bool.not_true, Bool.false_or] at ready ⊢
        rw [if_pos ready]
        exact chores_drain hl
  | draining deadline =>
    simp only [hl] at ready ⊢
    split
    · exact chores_interrupt hl
    · split
      · exact chores_drained hl
      · rename_i haborted hworkers
        rw [Bool.not_eq_true] at haborted hworkers
        rw [haborted, hworkers, Bool.false_or, Bool.false_or, decide_eq_true_eq] at ready
        rw [if_pos ready]
        exact chores_interrupt hl
  | closing =>
    simp only [hl] at ready ⊢
    cases hclosed : r.scheduler.dispatcher.isClosed with
    | false =>
      simp only [Bool.not_false, if_true]
      rw [← hl]
      exact chores_close hl hclosed
    | true =>
      rw [hclosed, Bool.not_true, Bool.false_or] at ready
      simp only [Bool.not_true, Bool.false_eq_true, if_false, if_pos ready]
      exact chores_finish hl hclosed
  | finished | failed =>
    rw [hl] at ready
    cases ready

/-- a worker that goes on is one step further -/
theorem Moves.rank {w : Worker} {outcome : Option Metrics.Outcome} {rest : Option Worker} (h : r.Moves w outcome rest) :
    Worker.ranks rest.toList < w.rank := by
  cases h with
  | send fresh => simp [Worker.ranks, Worker.rank, fresh, sent]
  | lose fresh => simp [Worker.ranks, Worker.rank, fresh]
  | settle request startedAt deadline x activity late pause =>
    cases pause <;> simp [Worker.ranks, Worker.rank, activity]
  | leave deadline activity => simp [Worker.ranks, Worker.rank, activity]

/-- **A worker, when it goes on,** leaves less to be done. -/
theorem chores_work {before after : List Worker} {w : Worker} (split : r.workers = before ++ w :: after)
    (ready : w.isReady r.now = true) : (r.work before.length).chores k left < r.chores k left := by
  obtain ⟨rest, hmoves, hworkers⟩ := work_moves split ready
  obtain ⟨pool, workers, random, hframe⟩ := r.work_frame before.length
  have hrank := hmoves.rank
  have hload : (r.work before.length).scheduler.load k left = r.scheduler.load k left := by
    rw [hframe]
    rfl
  have hstage : (r.work before.length).stage = r.stage := by
    rw [hframe]
    rfl
  rw [chores, chores, hload, hstage, hworkers, split]
  simp only [Worker.ranks_append, Worker.ranks]
  omega

end Run

/-! ## The run -/

namespace Timeline

variable {t : Timeline} {op : RunOp}

/-- what is still to be done, with the calls -/
def chores (k : Nat) (t : Timeline) : Nat :=
  t.run.chores k t.left + t.calls.length

/-- time is to pass before anything is done -/
def waits (t : Timeline) : Bool :=
  match t.nextOp? with
  | some (.pass _) => true
  | _ => false

/-- what is left to do, and the time that passes before the first of it -/
def potential (k : Nat) (t : Timeline) : Nat :=
  2 * t.chores k + if t.waits then 1 else 0

theorem potential_le (k : Nat) (t : Timeline) : t.potential k ≤ 2 * t.chores k + 1 := by
  unfold potential
  split <;> omega

/-- the chores of a run and the calls make the chores of a timeline -/
theorem chores_lt {t' : Timeline} (hrun : t'.run.chores k t'.left < t.run.chores k t.left)
    (hcalls : t'.calls = t.calls) : t'.chores k < t.chores k := by
  rw [chores, chores, hcalls]
  exact Nat.add_lt_add_right hrun _

/-- **Whatever happens but the passing of time** leaves less to be done. -/
theorem Paced.chores_step (h : t.Paced) (hend : t.run.scenario.model.EndsBy k) (hop : t.nextOp? = some op)
    (busy : ∀ span, op ≠ .pass span) : (t.step op).chores k < t.chores k := by
  obtain ⟨-, hhappens⟩ := happens hop
  cases hhappens with
  | call c rest hcalls =>
    have hrun : (t.step c.op).run.chores k (t.step c.op).left = t.run.chores k t.left := by
      unfold Call.op
      cases c.isAbort <;> rfl
    rw [chores, chores, hrun, calls_call, hcalls, List.tail_cons, List.length_cons]
    omega
  | part _ _ internal =>
    have hcalls := calls_internal internal
    have hnext := t.next
    rw [internal] at hnext
    cases hnext with
    | proceed ready =>
      refine chores_lt ?_ rfl
      rw [left_step fun h => by cases h]
      exact Run.chores_proceed ready
    | work before after w split _ ready =>
      refine chores_lt ?_ rfl
      rw [left_step fun h => by cases h]
      exact Run.chores_work split ready
    | schedule ready =>
      refine chores_lt ?_ rfl
      have hload := h.load_schedule hend ready
      have hstage : (t.step .schedule).run.stage = t.run.stage := by
        unfold Run.stage
        rw [show (t.step .schedule).run.scheduler.dispatcher.isClosed = t.run.scheduler.dispatcher.isClosed from
          Run.isClosed_step (by exact fun h => by cases h)]
        rfl
      rw [Run.chores, Run.chores, hstage]
      show (t.step .schedule).run.scheduler.load k (t.step .schedule).left + Worker.ranks t.run.workers +
        t.run.stage < _
      omega
    | idle _ _ passes =>
      obtain ⟨span, -, rfl, -⟩ := pass?_eq_some passes
      exact absurd rfl (busy span)

/-- time is to pass only if no part can go on and nobody calls -/
theorem idle_of_pass {span : Duration} (h : t.nextOp? = some (.pass span)) :
    t.IsIdle ∧ (∀ c ∈ t.calls.head?, t.run.now < c.due) ∧ t.pass? = some (.pass span) := by
  obtain ⟨-, hhappens⟩ := happens h
  generalize hpass : RunOp.pass span = op at hhappens
  cases hhappens with
  | call c =>
    unfold Call.op at hpass
    split at hpass <;> cases hpass
  | part _ early internal =>
    subst hpass
    have hnext := t.next
    rw [internal] at hnext
    cases hnext with
    | idle _ idle passes => exact ⟨idle, early, passes⟩

/-- the scheduler goes on when it said it would -/
theorem isSchedulerReady_of_timer? {d : Duration} (h : t.run.scheduler.timer? = some d) (due : d ≤ t.run.now) :
    t.isSchedulerReady = true := by
  unfold Scheduler.timer? at h
  unfold isSchedulerReady Scheduler.isReady Scheduler.isLooking
  split at h <;> rename_i source
  · cases h
    simp only [source, decide_eq_true due, Bool.or_true, Bool.not_false, Bool.true_or, Bool.and_true]
  · cases h
    simp only [source, decide_eq_true due, Bool.or_true, Bool.not_false, Bool.true_or, Bool.and_true]
  · cases h

/-- what was waited for has come: a call, or something that a part can do -/
theorem Paced.not_isIdle (h : t.Paced) {span d : Duration} (hd : d ∈ t.timers) (due : d ≤ t.run.now + span)
    (early : ∀ c ∈ t.calls.head?, t.run.now + span < c.due) : ¬ (t.step (.pass span)).IsIdle := by
  intro hidle
  have hscheduler := hidle.scheduler
  simp only [timers, List.mem_append] at hd
  rcases hd with (((hd | hd) | hd) | hd) | hd
  · obtain ⟨c, hc, rfl⟩ := Option.map_eq_some_iff.1 (Option.mem_toList.1 hd)
    exact absurd due (Nat.not_le.2 (early c hc))
  · rw [isSchedulerReady_of_timer? (t := t.step (.pass span)) (Option.mem_toList.1 hd) due] at hscheduler
    cases hscheduler
  · split at hd
    · rename_i hlook
      unfold Scheduler.isLooking at hlook
      split at hlook
      · rename_i ramp source
        -- it looked before the end, so there is an instant after that
        obtain ⟨hpast, hbefore⟩ := h.looked ramp .look source
        have hlater : (t.step (.pass span)).looked < (t.step (.pass span)).run.now := by
          show t.looked < t.run.now + span
          rw [List.mem_singleton.1 hd] at due
          have hinstant : Timeline.instant.nanos = 1 := rfl
          have hmax := t.run.scenario.model.totalDuration.le_max
          rw [Duration.le_iff, Duration.nanos_add] at due
          rw [Duration.le_iff] at hpast
          rw [Duration.lt_iff] at hbefore ⊢
          omega
        have hsource : (t.step (.pass span)).run.scheduler.source = .closed ramp .look := source
        have hready : (t.step (.pass span)).isSchedulerReady = true := by
          simp only [isSchedulerReady, Scheduler.isReady, Scheduler.isLooking, hsource, decide_eq_true hlater,
            Bool.or_true, Bool.and_true]
        rw [hready] at hscheduler
        cases hscheduler
      · cases hlook
    · cases hd
  · split at hd
    · rename_i deadline hl
      rw [List.mem_singleton.1 hd] at due
      have hloop := hidle.loop
      simp only [Run.isLoopReady, Timeline.step, Run.step, hl, decide_eq_true due, Bool.or_true, Bool.true_eq_false]
        at hloop
    · cases hd
  · obtain ⟨w, hw, htimer⟩ := List.mem_filterMap.1 hd
    obtain ⟨deadline, hdeadline, hlate⟩ := Worker.timer?_of_isReady (hidle.workers w hw)
    rw [hdeadline] at htimer
    cases htimer
    exact absurd due (Nat.not_le.2 hlate)

/-- **Time never passes twice in a row**: it passes to an instant at which something can be done. -/
theorem Paced.waits_pass (h : t.Paced) {span : Duration} (hop : t.nextOp? = some (.pass span)) :
    (t.step (.pass span)).waits = false := by
  obtain ⟨-, -, hpass⟩ := idle_of_pass hop
  obtain ⟨span', first, heq, hfirst, -, hclock⟩ := pass?_eq_some hpass
  cases heq
  have hdue : first ≤ t.run.now + span := by
    rw [Duration.le_iff, hclock]
    exact Nat.le_max_right _ _
  unfold waits
  split
  · rename_i again hagain
    obtain ⟨hidle, hearly, -⟩ := idle_of_pass hagain
    exact absurd hidle (h.not_isIdle hfirst hdue hearly)
  · rfl

/-- **Every step lowers the potential.** -/
theorem Paced.potential_step (h : t.Paced) (hend : t.run.scenario.model.EndsBy k) (hop : t.nextOp? = some op) :
    (t.step op).potential k < t.potential k := by
  by_cases hpass : ∃ span, op = .pass span
  · obtain ⟨span, rfl⟩ := hpass
    have hwaits : t.waits = true := by
      unfold waits
      rw [hop]
    have hchores : (t.step (.pass span)).chores k = t.chores k := rfl
    rw [potential, potential, h.waits_pass hop, hwaits, hchores]
    exact Nat.lt_succ_self _
  · have hchores := h.chores_step hend hop fun span heq => hpass ⟨span, heq⟩
    have hle := (t.step op).potential_le k
    have hge : 2 * t.chores k ≤ t.potential k := Nat.le_add_right _ _
    omega

/-- a run that is not over goes on -/
theorem Paced.exists_nextOp? (h : t.Paced) (live : t.run.loop.isOver = false) : ∃ op, t.nextOp? = some op := by
  cases hop : t.nextOp? with
  | some op => exact ⟨op, rfl⟩
  | none =>
    have hinternal : t.internal? = none := by
      unfold nextOp? at hop
      rw [live, if_neg (by decide)] at hop
      split at hop
      · split at hop
        · cases hop
        · exact hop
      · exact hop
    have hnext := t.next
    rw [hinternal] at hnext
    cases hnext with
    | idle _ idle passes =>
      have hsome : ∃ d, d ∈ t.timers := by
        cases h.rests idle live with
        | dispatching _ running coming empty =>
          obtain ⟨d, hd, -⟩ := h.exists_timer_le_total idle running coming empty
          exact ⟨d, hd⟩
        | draining deadline loop => exact ⟨deadline, mem_timers_of_draining loop⟩
      obtain ⟨d, hd⟩ := hsome
      rw [timers_of_pass? passes] at hd
      cases hd

/-- the potential bounds the steps that a run takes -/
theorem Paced.potential_advance (h : t.Paced) (hend : t.run.scenario.model.EndsBy k) (n : Nat) :
    (t.advance n).run.loop.isOver = true ∨ (t.advance n).potential k + n ≤ t.potential k := by
  induction n generalizing t with
  | zero => exact .inr (Nat.le_refl _)
  | succ n ih =>
    cases hlive : t.run.loop.isOver with
    | true =>
      rw [advance_of_none (nextOp?_of_isOver hlive)]
      exact .inl hlive
    | false =>
      obtain ⟨op, hop⟩ := h.exists_nextOp? hlive
      have hpotential := h.potential_step hend hop
      have hend' : (t.step op).run.scenario.model.EndsBy k := by
        rw [t.scenario_step op]
        exact hend
      rw [advance_succ hop]
      refine (ih (h.step op) hend').imp id fun hle => ?_
      omega

/-- **A run is over after as many steps as there is potential.** -/
theorem Paced.isOver_advance (h : t.Paced) (hend : t.run.scenario.model.EndsBy k) {n : Nat} (hn : t.potential k < n) :
    (t.advance n).run.loop.isOver = true := by
  refine (h.potential_advance hend n).resolve_right fun hle => ?_
  omega

end Timeline

end LoadGen
