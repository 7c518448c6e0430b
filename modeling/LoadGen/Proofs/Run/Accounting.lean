/-
What becomes of the iterations of a run. Parts of a run go on in any order, a stop or an abort may come at any moment;
an iteration that was dispatched waits in the queue, is with a worker, or has come to one of its ends: an outcome, the
queue after a stop, a queue that nobody reads any more, or a worker that is cut short.

- `Accounted`: the balance of a run. What was counted and what is still pending make up what was dispatched, and besides
  them the workers that were cut short in their pause: these are counted a second time.
- `Continues`, `Proceeds`: what the scheduler, the workers and the callers may do, and what the run loop may do.
- `accounted_steps`: any steps in any order keep the balance.
-/
import Mathlib.Data.List.Perm.Basic
import LoadGen.Proofs.Run.Scheduling
import LoadGen.Run.Perform

namespace LoadGen

/-! ## The scheduler and the queue -/

namespace Scheduler

/-- a scheduler without iterations stays as it is -/
theorem step_of_isOver {s : Scheduler} (h : s.isOver = true) (now : Duration) (stopped : Bool) :
    s.step now stopped = s := by
  unfold isOver Source.isOver at h
  unfold step
  split at h
  · rename_i hs; rw [hs]
  · rename_i hs; rw [hs]
  · cases h
  · cases h

/-- slots that are given back change nothing but the pool -/
theorem foldl_release (ws : List Worker) (s : Scheduler) :
    ∃ pool, ws.foldl (fun s w => s.release w.dispatch.slot) s =
      { s with dispatcher := { s.dispatcher with pool } } := by
  induction ws generalizing s with
  | nil => exact ⟨s.dispatcher.pool, rfl⟩
  | cons w ws ih => exact ih (s.release w.dispatch.slot)

end Scheduler

/-! ## The balance of a run -/

/-- the worker's outcome has been taken in, and it pauses -/
def Worker.isThinking (w : Worker) : Bool :=
  match w.activity with
  | .thinking _ => true
  | .fresh | .requesting .. => false

namespace Run

/-- workers whose outcome is still to come -/
def owing (r : Run) : Nat :=
  r.workers.countP fun w => !w.isThinking

/-- iterations counted as done or as cut short -/
def counted (r : Run) : Nat :=
  r.life.metrics.classes.total + r.life.metrics.interrupted

/-- iterations that a stop kept from starting, until the run loop counts them: it does when it starts to drain -/
def uncountedDiscards (r : Run) : Nat :=
  match r.loop with
  | .dispatching => r.discarded
  | _ => 0

/-- iterations that nobody read, until they are counted: they are when the run is over -/
def uncountedUndelivered (r : Run) : Nat :=
  match r.loop with
  | .finished .. => 0
  | _ => r.scheduler.dispatcher.arrived.undelivered

/-- iterations dispatched and not counted -/
def pending (r : Run) : Nat :=
  r.scheduler.dispatcher.queue.length + r.owing + r.uncountedDiscards + r.uncountedUndelivered

/-- workers that a step cuts short in their pause -/
def recounted (r : Run) (op : RunOp) : Nat :=
  match r.loop, (r.step op).loop with
  | .draining _, .closing => r.workers.countP Worker.isThinking
  | _, _ => 0

/-- workers that some steps cut short in their pause -/
def recounts (r : Run) : List RunOp → Nat
  | [] => 0
  | op :: ops => r.recounted op + (r.step op).recounts ops

/-- workers are there only until the drain is over -/
def isCleared (r : Run) : Prop :=
  match r.loop with
  | .dispatching | .draining _ => True
  | .closing | .finished .. | .failed => r.workers = []

/-- what every step of a run keeps; `twice` iterations were counted as done and as cut short -/
structure Accounted (twice : Nat) (r : Run) : Prop where
  requests : r.scenario.requests ≠ []
  balance : r.counted + r.pending = r.scheduler.dispatcher.arrived.dispatched + twice
  dropped : r.life.metrics.dropped = r.scheduler.dispatcher.arrived.dropped
  cleared : r.isCleared
  closed : r.scheduler.dispatcher.isClosed = true → r.scheduler.dispatcher.queue = []
  finished : ∀ duration snapshot, r.loop = .finished duration snapshot →
    r.scheduler.isOver = true ∧ r.scheduler.dispatcher.isClosed = true ∧ snapshot = r.life.metrics.snapshot

/-! ## Steps of the scheduler, the workers and the caller -/

/-- `r'` comes after `r` by a step of a part other than the run loop -/
structure Continues (r r' : Run) : Prop where
  scenario : r'.scenario = r.scenario
  loop : r'.loop = r.loop
  discarded : r'.discarded = r.discarded
  dispatcher : r.scheduler.dispatcher.Follows r'.scheduler.dispatcher
  /-- an outcome is counted when its worker no longer owes it -/
  owing : r'.counted + r'.owing = r.counted + r.owing
  dropped : r'.life.metrics.dropped + r.scheduler.dispatcher.arrived.dropped =
    r.life.metrics.dropped + r'.scheduler.dispatcher.arrived.dropped
  workers : r.workers = [] → r'.workers = []
  /-- without iterations and workers nothing is counted any more -/
  settled : r.scheduler.isOver = true → r.workers = [] →
    r'.scheduler.isOver = true ∧ r'.life.metrics = r.life.metrics

variable {r r' : Run} {twice i : Nat} {w : Worker}

theorem Accounted.continues (h : r.Accounted twice) (hc : r.Continues r') : r'.Accounted twice := by
  have hcleared := h.cleared
  refine ⟨hc.scenario ▸ h.requests, ?_, ?_, ?_, fun hclosed => ?_, fun duration snapshot hl => ?_⟩
  · have hb := h.balance
    have ho := hc.owing
    have hd := hc.dispatcher.handed
    have hu := hc.dispatcher.undelivered
    simp only [pending, uncountedDiscards, uncountedUndelivered, hc.loop, hc.discarded, hu] at hb ⊢
    omega
  · have := h.dropped; have := hc.dropped; omega
  · simp only [isCleared, hc.loop] at hcleared ⊢
    cases hl : r.loop <;> simp only [hl] at hcleared ⊢
    all_goals exact hc.workers hcleared
  · have hclosed' : r.scheduler.dispatcher.isClosed = true := by rw [← hc.dispatcher.isClosed]; exact hclosed
    rw [hc.dispatcher.closed hclosed']
    exact h.closed hclosed'
  · rw [hc.loop] at hl
    obtain ⟨hover, hclosed, hsnap⟩ := h.finished _ _ hl
    simp only [isCleared, hl] at hcleared
    obtain ⟨hover', hmetrics⟩ := hc.settled hover hcleared
    exact ⟨hover', by rw [hc.dispatcher.isClosed]; exact hclosed, by rw [hmetrics]; exact hsnap⟩

/-- a change of the clock, or of a life whose figures stay -/
theorem continues_of_metrics (r : Run) (now : Duration) {life : Lifecycle} (h : life.metrics = r.life.metrics) :
    r.Continues { r with now, life } := by
  refine ⟨rfl, rfl, rfl, r.scheduler.dispatcher.follows_pool _, ?_, ?_, id, fun hover _ => ⟨hover, h⟩⟩
  · simp only [counted, owing, h]
  · simp only [h]

theorem continues_schedule (r : Run) : r.Continues r.schedule := by
  have hf := r.scheduler.follows_step r.now r.life.stopped
  refine ⟨rfl, rfl, rfl, hf, rfl, ?_, id, fun hover _ => ?_⟩
  · have := hf.dropped
    simp only [schedule, Metrics.Aggregate.recordDropped]
    omega
  · have hstep := Scheduler.step_of_isOver hover r.now r.life.stopped
    simp only [schedule, hstep, Nat.sub_self]
    exact ⟨hover, rfl⟩

/-- what leaving takes off: the worker, if it owes an outcome -/
theorem owing_leave (hi : r.workers[i]? = some w) :
    (r.leave i w).owing + (if w.isThinking then 0 else 1) = r.owing := by
  obtain ⟨hlt, hw⟩ := List.getElem?_eq_some_iff.1 hi
  have hp := (List.getElem_cons_eraseIdx_perm hlt).countP_eq fun w => !w.isThinking
  rw [List.countP_cons, hw] at hp
  simp only [owing, leave, ← hp]
  cases w.isThinking <;> rfl

theorem owing_turn (hi : r.workers[i]? = some w) (a : Activity) :
    (r.turn i w a).owing + (if w.isThinking then 0 else 1) =
      r.owing + (if Worker.isThinking { w with activity := a } then 0 else 1) := by
  obtain ⟨hlt, hw⟩ := List.getElem?_eq_some_iff.1 hi
  have hp := (List.getElem_cons_eraseIdx_perm hlt).countP_eq fun w => !w.isThinking
  have hset := List.set_perm_cons_eraseIdx hlt { w with activity := a }
  have hp' := hset.countP_eq fun w => !w.isThinking
  rw [List.countP_cons, hw] at hp
  rw [List.countP_cons] at hp'
  simp only [owing, turn, ← hp, hp']
  cases w.isThinking <;> cases Worker.isThinking { w with activity := a } <;> simp

theorem continues_leave (hi : r.workers[i]? = some w) (hw : w.isThinking = true) : r.Continues (r.leave i w) := by
  have hne : r.workers ≠ [] := fun h => by rw [h] at hi; cases hi
  refine ⟨rfl, rfl, rfl, r.scheduler.dispatcher.follows_pool _, ?_, rfl,
    fun h => absurd h hne, fun _ h => absurd h hne⟩
  have ho := owing_leave hi
  rw [if_pos hw] at ho
  exact congrArg (r.counted + ·) ho

theorem continues_turn (hi : r.workers[i]? = some w) {a : Activity}
    (ha : Worker.isThinking { w with activity := a } = w.isThinking) : r.Continues (r.turn i w a) := by
  have hne : r.workers ≠ [] := fun h => by rw [h] at hi; cases hi
  refine ⟨rfl, rfl, rfl, r.scheduler.dispatcher.follows_pool _, ?_, rfl, fun h => absurd h hne, fun _ h => absurd h hne⟩
  have ho := owing_turn hi a
  rw [ha] at ho
  exact congrArg (r.counted + ·) (Nat.add_right_cancel ho)

/-- the outcome that was owed is counted, whether its worker pauses or leaves -/
theorem continues_settle (hi : r.workers[i]? = some w) (hw : w.isThinking = false) (o : Metrics.Outcome) :
    r.Continues (r.settle i w o) := by
  have hne : r.workers ≠ [] := fun h => by rw [h] at hi; cases hi
  simp only [settle]
  set r₁ : Run := { r with life := r.life.emit o, random := (r.scenario.thinkTime.sample r.random).2 } with hr₁
  have hcount : r₁.counted = r.counted + 1 := by
    simp only [hr₁, counted, Lifecycle.metrics_emit, Metrics.Aggregate.ingest, Metrics.ClassCounts.total_bump]
    omega
  have hdrop : r₁.life.metrics.dropped = r.life.metrics.dropped := by
    simp only [hr₁, Lifecycle.metrics_emit, Metrics.Aggregate.ingest]
  split
  · have ho : (r₁.leave i w).owing + 1 = r.owing := by
      have := owing_leave (r := r₁) hi
      rwa [hw] at this
    refine ⟨rfl, rfl, rfl, r.scheduler.dispatcher.follows_pool _, ?_,
      congrArg (· + _) hdrop, fun h => absurd h hne, fun _ h => absurd h hne⟩
    have : (r₁.leave i w).counted = r₁.counted := rfl
    omega
  · have ho : (r₁.turn i w (.thinking (r.now + (r.scenario.thinkTime.sample r.random).1))).owing + 1 = r.owing := by
      have := owing_turn (r := r₁) hi (.thinking (r.now + (r.scenario.thinkTime.sample r.random).1))
      rwa [hw] at this
    refine ⟨rfl, rfl, rfl, r.scheduler.dispatcher.follows_pool _, ?_, congrArg (· + _) hdrop, fun h => absurd h hne,
      fun _ h => absurd h hne⟩
    have : (r₁.turn i w (.thinking (r.now + (r.scenario.thinkTime.sample r.random).1))).counted = r₁.counted := rfl
    omega

theorem continues_work (h : r.scenario.requests ≠ []) (i : Nat) : r.Continues (r.work i) := by
  unfold work
  split
  · exact continues_of_metrics r r.now rfl
  · rename_i w hi
    split
    · -- a fresh worker sends its request; it would leave only if there were none
      rename_i ha
      obtain ⟨request, hr⟩ := Option.isSome_iff_exists.1 (Scenario.requestFor?_isSome h w.dispatch.seq)
      simp only [send, hr]
      exact continues_turn hi (by simp only [Worker.isThinking, ha])
    · rename_i ha
      split
      · exact continues_settle hi (by simp only [Worker.isThinking, ha]) _
      · exact continues_of_metrics r r.now rfl
    · rename_i ha
      split
      · exact continues_leave hi (by simp only [Worker.isThinking, ha])
      · exact continues_of_metrics r r.now rfl

/-! ## Steps of the run loop -/

/-- the steps of the run loop -/
inductive Proceeds (r : Run) : Run → Prop where
  | stay : Proceeds r r
  | drain (loop : r.loop = .dispatching)
      (done : r.life.aborted = true ∨ r.scheduler.dispatcher.queue = [] ∧ r.scheduler.isOver = true) :
      Proceeds r r.drain
  | accept (loop : r.loop = .dispatching) (running : r.life.aborted = false) (e : Dispatch) (rest : List Dispatch)
      (queue : r.scheduler.dispatcher.queue = e :: rest) :
      Proceeds r (r.accept e { r.scheduler.dispatcher with queue := rest })
  | drained (deadline : Duration) (loop : r.loop = .draining deadline) (workers : r.workers = []) :
      Proceeds r { r with loop := .closing }
  | interrupt (deadline : Duration) (loop : r.loop = .draining deadline)
      (late : r.life.aborted = true ∨ deadline ≤ r.now) : Proceeds r r.interrupt
  | close (loop : r.loop = .closing) (listening : r.scheduler.dispatcher.isClosed = false) :
      Proceeds r { r with scheduler := r.scheduler.close }
  | finish (loop : r.loop = .closing) (closed : r.scheduler.dispatcher.isClosed = true)
      (ended : r.scheduler.isOver = true) : Proceeds r r.finish

theorem proceeds (r : Run) : r.Proceeds r.proceed := by
  unfold proceed
  split
  · rename_i hl
    split
    · rename_i ha; exact .drain hl (.inl ha)
    · rename_i ha
      unfold Dispatcher.receive?
      cases hq : r.scheduler.dispatcher.queue with
      | cons e rest => exact .accept hl (by simpa using ha) e rest hq
      | nil =>
        simp only
        split
        · rename_i ho; exact .drain hl (.inr ⟨hq, ho⟩)
        · exact .stay
  · rename_i deadline hl
    split
    · rename_i ha; exact .interrupt deadline hl (.inl ha)
    · split
      · rename_i hw; exact .drained deadline hl (List.isEmpty_iff.1 hw)
      · split
        · rename_i hd; exact .interrupt deadline hl (.inr hd)
        · exact .stay
  · rename_i hl
    split
    · rename_i hc; exact .close hl (by simpa using hc)
    · rename_i hc
      split
      · rename_i ho; exact .finish hl (by simpa using hc) ho
      · exact .stay
  · exact .stay
  · exact .stay

theorem accounted_drain (h : r.Accounted twice) (hl : r.loop = .dispatching) : r.drain.Accounted twice := by
  refine ⟨h.requests, ?_, ?_, trivial, h.closed, fun _ _ hf => by cases hf⟩
  · have hb := h.balance
    simp only [pending, uncountedDiscards, uncountedUndelivered, hl, counted, owing] at hb
    simp only [drain, interrupted, counted, pending, uncountedDiscards, uncountedUndelivered, owing,
      Lifecycle.metrics_beginDrain, Metrics.Aggregate.recordInterrupted]
    omega
  · simp only [drain, interrupted, Lifecycle.metrics_beginDrain, Metrics.Aggregate.recordInterrupted]
    exact h.dropped

/-- an iteration leaves the queue for a worker, or after a stop for the discarded ones -/
theorem accounted_accept (h : r.Accounted twice) (hl : r.loop = .dispatching) {e : Dispatch} {rest : List Dispatch}
    (hq : r.scheduler.dispatcher.queue = e :: rest) :
    (r.accept e { r.scheduler.dispatcher with queue := rest }).Accounted twice := by
  have hb := h.balance
  have hopen : r.scheduler.dispatcher.isClosed ≠ true := fun hc => by
    have := h.closed hc; rw [hq] at this; cases this
  simp only [pending, uncountedDiscards, uncountedUndelivered, hl, hq, List.length_cons, counted, owing] at hb
  simp only [accept]
  split
  · refine ⟨h.requests, ?_, h.dropped, by simp only [isCleared, hl], fun hc => absurd hc hopen, fun _ _ hf => ?_⟩
    · simp only [pending, uncountedDiscards, uncountedUndelivered, hl, counted, owing, Scheduler.release,
        Dispatcher.release]
      omega
    · simp only [hl] at hf; cases hf
  · refine ⟨h.requests, ?_, h.dropped, by simp only [isCleared, hl], fun hc => absurd hc hopen, fun _ _ hf => ?_⟩
    · have hfresh : [(⟨e, .fresh⟩ : Worker)].countP (fun w => !w.isThinking) = 1 := rfl
      simp only [pending, uncountedDiscards, uncountedUndelivered, hl, counted, owing, List.countP_append, hfresh]
      omega
    · simp only [hl] at hf; cases hf

/-- every worker is counted as cut short, also one whose outcome was counted before -/
theorem accounted_interrupt (h : r.Accounted twice) {deadline : Duration} (hl : r.loop = .draining deadline) :
    r.interrupt.Accounted (twice + r.workers.countP Worker.isThinking) := by
  obtain ⟨pool, hpool⟩ := Scheduler.foldl_release r.workers r.scheduler
  have hb := h.balance
  have hsplit : r.workers.length = r.workers.countP Worker.isThinking + r.owing := by
    rw [List.length_eq_countP_add_countP Worker.isThinking, owing]
    simp
  simp only [pending, uncountedDiscards, uncountedUndelivered, hl, counted] at hb
  simp only [interrupt, hpool]
  refine ⟨h.requests, ?_, h.dropped, rfl, h.closed, fun _ _ hf => by cases hf⟩
  simp only [interrupted, counted, pending, uncountedDiscards, uncountedUndelivered, owing,
    Metrics.Aggregate.recordInterrupted, List.countP_nil]
  omega

theorem accounted_close (h : r.Accounted twice) (hl : r.loop = .closing) :
    Accounted twice { r with scheduler := r.scheduler.close } := by
  have hb := h.balance
  have hcleared := h.cleared
  simp only [pending, uncountedDiscards, uncountedUndelivered, hl, counted, owing] at hb
  refine ⟨h.requests, ?_, h.dropped, hcleared, fun _ => rfl, fun _ _ hf => by rw [hl] at hf; cases hf⟩
  simp only [pending, uncountedDiscards, uncountedUndelivered, hl, counted, owing, Scheduler.close, Dispatcher.close,
    List.length_nil]
  omega

theorem accounted_finish (h : r.Accounted twice) (hl : r.loop = .closing)
    (hclosed : r.scheduler.dispatcher.isClosed = true) (hover : r.scheduler.isOver = true) :
    r.finish.Accounted twice := by
  have hb := h.balance
  have hcleared := h.cleared
  simp only [isCleared, hl] at hcleared
  simp only [pending, uncountedDiscards, uncountedUndelivered, hl, counted, owing] at hb
  unfold finish
  split
  · refine ⟨h.requests, ?_, h.dropped, hcleared, h.closed, fun _ _ hf => by cases hf⟩
    simp only [pending, uncountedDiscards, uncountedUndelivered, counted, owing]
    omega
  · refine ⟨h.requests, ?_, ?_, hcleared, h.closed, fun _ snapshot hf => ⟨hover, hclosed, ?_⟩⟩
    · simp only [pending, uncountedDiscards, uncountedUndelivered, counted, owing, Lifecycle.metrics_finish,
        Metrics.Aggregate.recordInterrupted, Metrics.Aggregate.extendHorizon]
      omega
    · simp only [Lifecycle.metrics_finish, Metrics.Aggregate.recordInterrupted, Metrics.Aggregate.extendHorizon]
      exact h.dropped
    · simp only [RunLoop.finished.injEq] at hf
      rw [← hf.2, Lifecycle.metrics_finish]

theorem accounted_proceed (h : r.Accounted twice) : r.proceed.Accounted (twice + r.recounted .proceed) := by
  have hp := r.proceeds
  have hdef : r.step .proceed = r.proceed := rfl
  simp only [recounted, hdef]
  generalize r.proceed = r' at hp ⊢
  cases hp with
  | stay => cases hl : r.loop <;> exact h
  | drain hl => simp only [hl]; exact accounted_drain h hl
  | accept hl _ e rest hq => simp only [hl]; exact accounted_accept h hl hq
  | drained deadline hl hw =>
    simp only [hl, hw, List.countP_nil]
    have hb := h.balance
    simp only [counted, pending, uncountedDiscards, uncountedUndelivered, hl, owing, hw] at hb
    exact ⟨h.requests, hb, h.dropped, rfl, h.closed, fun _ _ hf => by cases hf⟩
  | interrupt deadline hl => simp only [hl]; exact accounted_interrupt h hl
  | close hl =>
    have hclose := accounted_close h hl
    rw [hl] at hclose ⊢
    exact hclose
  | finish hl hclosed hover => simp only [hl]; exact accounted_finish h hl hclosed hover

/-! ## Any steps -/

/-- only the run loop cuts a worker short -/
theorem recounted_of_loop {op : RunOp} (h : (r.step op).loop = r.loop) : r.recounted op = 0 := by
  simp only [recounted, h]
  cases r.loop <;> rfl

theorem accounted_step (h : r.Accounted twice) (op : RunOp) :
    (r.step op).Accounted (twice + r.recounted op) := by
  have hother (hc : r.Continues (r.step op)) : (r.step op).Accounted (twice + r.recounted op) := by
    rw [recounted_of_loop hc.loop]
    exact h.continues hc
  cases op with
  | pass span => exact hother (continues_of_metrics r _ rfl)
  | schedule => exact hother r.continues_schedule
  | proceed => exact accounted_proceed h
  | work i => exact hother (continues_work h.requests i)
  | cancel reason => exact hother (continues_of_metrics r r.now (r.life.metrics_cancel reason))
  | abort reason => exact hother (continues_of_metrics r r.now (r.life.metrics_abort reason))

theorem accounted_steps (h : r.Accounted twice) (ops : List RunOp) :
    (r.steps ops).Accounted (twice + r.recounts ops) := by
  induction ops generalizing r twice with
  | nil => exact h
  | cons op ops ih =>
    have := ih (accounted_step h op)
    rwa [Nat.add_assoc] at this

end Run

end LoadGen
