/-
What becomes of the outcomes that a run owes, if it is stopped and if it goes on.

- `Settled`: no iteration waits and every worker has begun, as it is whenever time passes (`settled_of_isIdle`).
- `Halting`: a settled run that was stopped. It dispatches and drops nothing any more, and emits no more than it owes
  (`outcomes_halting`).
- `LastsTo`: a run that does not cut its workers short before an instant. What it owes before this instant it emits, or
  owes still (`awaited_outcomes`); when it is over it owes nothing (`awaited_of_isOver`).
- `exists_nextOp`: a run that is not over goes on.
-/
import LoadGen.Proofs.Run.Awaited

namespace LoadGen

open Metrics

/-! ## Arrivals -/

/-- no more was dispatched and no more was dropped -/
structure Arrived.AtMost (a b : Arrived) : Prop where
  dispatched : a.dispatched ≤ b.dispatched
  dropped : a.dropped ≤ b.dropped

theorem Arrived.AtMost.refl (a : Arrived) : a.AtMost a :=
  ⟨Nat.le_refl _, Nat.le_refl _⟩

theorem Arrived.AtMost.trans {a b c : Arrived} (h : a.AtMost b) (h' : b.AtMost c) : a.AtMost c :=
  ⟨Nat.le_trans h.dispatched h'.dispatched, Nat.le_trans h.dropped h'.dropped⟩

namespace Run

variable {r : Run}

/-- what became of the arrivals of a run -/
def arrived (r : Run) : Arrived :=
  r.scheduler.dispatcher.arrived

theorem isInTurn_step (r : Run) (op : RunOp) : (r.step op).IsInTurn ↔ r.IsInTurn := by
  obtain ⟨hscenario, hpeer⟩ := r.setting_step op
  unfold IsInTurn
  rw [hscenario, hpeer]

/-- only the scheduler dispatches and drops -/
theorem arrived_proceed (r : Run) : r.proceed.arrived.dispatched = r.arrived.dispatched ∧
    r.proceed.arrived.dropped = r.arrived.dropped := by
  obtain ⟨dispatcher, life, loop, workers, discarded, hframe, hdispatched, hdropped⟩ := r.proceed_frame
  rw [hframe]
  exact ⟨hdispatched, hdropped⟩

theorem arrived_work (r : Run) (i : Nat) : (r.work i).arrived = r.arrived := by
  obtain ⟨pool, workers, random, hframe⟩ := r.work_frame i
  rw [hframe]
  rfl

/-- what was dispatched and what was dropped stays so -/
theorem arrived_step (h : r.Regular) (op : RunOp) : r.arrived.AtMost (r.step op).arrived := by
  cases op with
  | pass | cancel | abort => exact .refl _
  | schedule =>
    obtain ⟨fed, hfed⟩ := Scheduler.feeds_step h.handsNext r.now r.life.stopped
    have hmore : r.schedule.arrived.dispatched = r.arrived.dispatched + fed.toList.length := hfed.dispatched
    exact ⟨Nat.le_trans (Nat.le_add_right _ _) (Nat.le_of_eq hmore.symm), hfed.dropped⟩
  | proceed =>
    obtain ⟨hdispatched, hdropped⟩ := r.arrived_proceed
    exact ⟨Nat.le_of_eq hdispatched.symm, Nat.le_of_eq hdropped.symm⟩
  | work i =>
    rw [show r.step (.work i) = r.work i from rfl, arrived_work]
    exact .refl _

/-! ## Settled runs -/

/-- no iteration waits, for a worker or for room, and every worker has begun -/
structure Settled (r : Run) : Prop where
  empty : r.scheduler.dispatcher.queue = []
  handless : ∀ ramp e, r.scheduler.source ≠ .closed ramp (.hand e)
  begun : ∀ w ∈ r.workers, w.isFresh = false

/-- when the run loop will have begun to drain now, its end comes no later than an instant -/
def EndsBy (instant : Duration) (r : Run) : Prop :=
  match r.loop with
  | .dispatching => r.now + r.scenario.gracefulStop ≤ instant
  | .draining deadline => deadline ≤ instant
  | .closing | .finished .. | .failed => True

/-- the workers are not cut short before an instant -/
def LastsTo (instant : Duration) (r : Run) : Prop :=
  match r.loop with
  | .dispatching => instant ≤ r.now + r.scenario.gracefulStop
  | .draining deadline => instant ≤ deadline
  | .closing | .finished .. | .failed => True

/-- a run that was stopped with nothing to start, and drains until an instant at most -/
structure Halting (instant : Duration) (r : Run) : Prop extends Settled r where
  stopped : r.life.stopped = true
  ends : r.EndsBy instant

end Run

namespace Scheduler

/-- a stop ends a scheduler that has nothing to hand over -/
theorem step_of_stopped {s : Scheduler} (h : ∀ ramp e, s.source ≠ .closed ramp (.hand e)) (now : Duration) :
    ∃ source, s.step now true = { s with source } ∧ ∀ ramp e, source ≠ .closed ramp (.hand e) := by
  have hend : ∃ source, ({ s with source := .exhausted } : Scheduler) = { s with source } ∧
      ∀ ramp e, source ≠ .closed ramp (.hand e) := ⟨.exhausted, rfl, fun _ _ h => by cases h⟩
  unfold step
  split
  · exact ⟨s.source, rfl, h⟩
  · exact ⟨s.source, rfl, h⟩
  · exact hend
  · exact hend
  · exact hend
  · rename_i ramp e hsource
    exact absurd hsource (h ramp e)

theorem isReady_of_stopped {s : Scheduler} (h : ∀ ramp e, s.source ≠ .closed ramp (.hand e)) (hover : s.isOver = false)
    (now : Duration) : s.isReady now true = true := by
  unfold isReady
  unfold isOver Source.isOver at hover
  split
  · rename_i hsource; rw [hsource] at hover; cases hover
  · rename_i hsource; rw [hsource] at hover; cases hover
  · rfl
  · rfl
  · rfl
  · rename_i ramp e hsource
    exact absurd hsource (h ramp e)

end Scheduler

namespace Timeline

variable {t : Timeline} {op : RunOp} {instant : Duration}

/-- whenever time passes a run is settled -/
theorem settled_of_isIdle (h : t.run.Regular) (hidle : t.IsIdle) : t.run.Settled := by
  have hempty : t.run.scheduler.dispatcher.queue = [] := by
    cases hl : t.run.loop with
    | dispatching =>
      have hloop := hidle.loop
      simp only [Run.isLoopReady, hl, Bool.or_eq_false_iff, Bool.not_eq_false', List.isEmpty_iff] at hloop
      exact hloop.1.2
    | draining | closing | finished | failed => exact (h.served (by rw [hl]; exact fun h => by cases h)).1
  refine ⟨hempty, fun ramp e hsource => ?_, fun w hw => ?_⟩
  · -- an empty queue has room for what waits
    have hfull : t.run.scheduler.dispatcher.isFull = false := by
      have := h.room
      simp only [Dispatcher.isFull, hempty, List.length_nil, decide_eq_false_iff_not]
      omega
    have hready := hidle.scheduler
    simp only [isSchedulerReady, Scheduler.isReady, Scheduler.isLooking, hsource, hfull, Bool.not_false, Bool.or_true,
      Bool.true_or, Bool.and_true, Bool.true_eq_false] at hready
  · by_contra hfresh
    rw [Bool.not_eq_false] at hfresh
    have hready := Worker.isReady_of_isFresh hfresh t.run.now
    rw [hidle.workers w hw] at hready
    cases hready

/-- there is an instant that a run waits for which is not over -/
theorem exists_timer (h : t.run.Regular) (hidle : t.IsIdle) (hlive : t.run.loop.isOver = false) :
    ∃ d, d ∈ t.timers := by
  have hloop := hidle.loop
  unfold Run.isLoopReady at hloop
  -- the scheduler knows when it goes on, as it does not wait for room
  have hscheduler (hover : t.run.scheduler.isOver = false) : ∃ d, d ∈ t.timers := by
    unfold Scheduler.isOver Source.isOver at hover
    unfold timers Scheduler.timer? Scheduler.isLooking
    cases hsource : t.run.scheduler.source with
    | «open» due rest seq => exact ⟨due, by simp⟩
    | exhausted | broken => rw [hsource] at hover; cases hover
    | closed ramp turn =>
      cases turn with
      | look => exact ⟨t.run.now + Timeline.instant, by simp⟩
      | claim target deadline => exact ⟨deadline, by simp⟩
      | hand e => exact absurd hsource ((settled_of_isIdle h hidle).handless ramp e)
  cases hl : t.run.loop with
  | dispatching =>
    rw [hl] at hloop
    exact hscheduler (Bool.or_eq_false_iff.1 hloop).2
  | draining deadline => exact ⟨deadline, by unfold timers; rw [hl]; simp⟩
  | closing =>
    rw [hl] at hloop
    exact hscheduler (Bool.or_eq_false_iff.1 hloop).2
  | finished | failed => rw [hl] at hlive; cases hlive

/-- **A run that is not over goes on.** -/
theorem exists_internal (h : t.run.Regular) (hlive : t.run.loop.isOver = false) : ∃ op, t.internal? = some op := by
  cases hop : t.internal? with
  | some op => exact ⟨op, rfl⟩
  | none =>
    have hnext := t.next
    rw [hop] at hnext
    cases hnext with
    | idle _ idle passes =>
      obtain ⟨d, hd⟩ := exists_timer h idle hlive
      rw [timers_of_pass? passes] at hd
      cases hd

/-! ## A run that was stopped -/

/-- a run that was stopped begins to drain before anything else happens -/
theorem loop_of_halting (hhalt : t.run.Halting instant) (hscheduler : t.isSchedulerReady = false)
    (hloop : t.run.isLoopReady = false) : t.run.loop ≠ .dispatching := by
  intro hl
  simp only [Run.isLoopReady, hl, Bool.or_eq_false_iff] at hloop
  have hready := Scheduler.isReady_of_stopped hhalt.handless hloop.2 t.run.now
  simp only [isSchedulerReady, hhalt.stopped, hready, Bool.or_true, Bool.true_or, Bool.and_true,
    Bool.true_eq_false] at hscheduler

/-- the drain is not over when a worker goes on -/
theorem now_lt_of_halting (h : t.run.Regular) (hhalt : t.run.Halting instant) {w : Worker} (hw : w ∈ t.run.workers)
    (hscheduler : t.isSchedulerReady = false) (hloop : t.run.isLoopReady = false) : t.run.now < instant := by
  have hends := hhalt.ends
  have hcleared := h.cleared
  unfold Run.EndsBy at hends
  unfold Run.isCleared at hcleared
  cases hl : t.run.loop with
  | dispatching => exact absurd hl (loop_of_halting hhalt hscheduler hloop)
  | draining deadline =>
    rw [hl] at hends
    simp only [Run.isLoopReady, hl, Bool.or_eq_false_iff, decide_eq_false_iff_not] at hloop
    exact Nat.lt_of_lt_of_le (Nat.lt_of_not_le hloop.2) hends
  | closing | finished | failed =>
    rw [hl] at hcleared
    rw [show t.run.workers = [] from hcleared] at hw
    cases hw

/-- the run loop of a run that was stopped adds nothing to what is awaited -/
theorem halting_proceed {r : Run} (hhalt : r.Halting instant) :
    r.proceed.Halting instant ∧ Within r.IsInTurn (r.proceed.awaited instant) (r.awaited instant) := by
  have hp := r.proceeds
  have hempty := hhalt.empty
  have hends := hhalt.ends
  generalize r.proceed = r' at hp ⊢
  cases hp with
  | stay => exact ⟨hhalt, .refl _ _⟩
  | drain hl =>
    unfold Run.EndsBy at hends
    rw [hl] at hends
    have hstopped (l : Lifecycle) : l.beginDrain.1.stopped = l.stopped := by
      unfold Lifecycle.beginDrain
      split <;> rfl
    exact ⟨{ hhalt with stopped := (hstopped _).trans hhalt.stopped, ends := hends }, .refl _ _⟩
  | accept _ _ e rest hq =>
    rw [hq] at hempty
    cases hempty
  | drained => exact ⟨{ hhalt with ends := trivial }, .refl _ _⟩
  | interrupt =>
    obtain ⟨pool, hpool⟩ := Scheduler.foldl_release r.workers r.scheduler
    unfold Run.interrupt
    simp only [hpool]
    exact ⟨{ hhalt with begun := fun w hw => (by cases hw), ends := trivial }, .nil _ _⟩
  | close hl =>
    exact ⟨{ hhalt with empty := rfl }, .refl _ _⟩
  | finish =>
    unfold Run.finish
    split
    · exact ⟨{ hhalt with ends := trivial }, .refl _ _⟩
    · have hstopped (l : Lifecycle) : l.finish.stopped = l.stopped := by
        unfold Lifecycle.finish
        split <;> rfl
      exact ⟨{ hhalt with stopped := (hstopped _).trans hhalt.stopped, ends := trivial }, .refl _ _⟩

/-- the workers of a run that was stopped emit what was awaited -/
theorem halting_work {r : Run} {w : Worker} {before after : List Worker} (h : r.Regular) (hhalt : r.Halting instant)
    (hsplit : r.workers = before ++ w :: after) (hwaiting : ∀ v ∈ before, v.isReady r.now = false)
    (hready : w.isReady r.now = true) (hnow : r.now < instant) :
    (r.work before.length).Halting instant ∧
      Within r.IsInTurn ((r.outcome? (.work before.length)).toList ++ (r.work before.length).awaited instant)
        (r.awaited instant) := by
  have hmem : w ∈ r.workers := by
    rw [hsplit]
    exact List.mem_append_right _ List.mem_cons_self
  refine ⟨?_, (Run.work_awaited h hsplit hwaiting hready instant).2 (hhalt.begun w hmem) hnow⟩
  obtain ⟨rest, hmoves, hworkers⟩ := Run.work_moves hsplit hready
  obtain ⟨pool, workers, random, hframe⟩ := r.work_frame before.length
  rw [hframe] at hworkers ⊢
  have hstopped (o : Outcome) : (r.life.emit o).stopped = true := by
    rw [show r.life.emit o = (r.life.step (.emit o)).1 from rfl, Lifecycle.stopped_step, hhalt.stopped, Bool.true_or]
  refine { empty := hhalt.empty, handless := hhalt.handless, begun := ?_, stopped := ?_, ends := hhalt.ends }
  · rw [hworkers]
    exact Run.forall_mem_replace (hsplit ▸ hhalt.begun) fun v hv => (hmoves.stays v hv).2.1
  · cases r.outcome? (.work before.length) with
    | none => exact hhalt.stopped
    | some o => exact hstopped o

/-- **A step of a run that was stopped.** It stays so, dispatches and drops nothing, and what it emits was awaited. -/
theorem halting_step (h : t.run.Regular) (hhalt : t.run.Halting instant) (hop : t.internal? = some op) :
    (t.step op).run.Halting instant ∧ (t.step op).run.arrived.AtMost t.run.arrived ∧
      Within t.run.IsInTurn ((t.run.outcome? op).toList ++ (t.step op).run.awaited instant)
        (t.run.awaited instant) := by
  have hnext := t.next
  rw [hop] at hnext
  cases hnext with
  | proceed =>
    obtain ⟨hstays, hwithin⟩ := halting_proceed hhalt
    obtain ⟨hdispatched, hdropped⟩ := t.run.arrived_proceed
    exact ⟨hstays, ⟨Nat.le_of_eq hdispatched, Nat.le_of_eq hdropped⟩, hwithin⟩
  | schedule =>
    obtain ⟨source, hstep, hhandless⟩ := Scheduler.step_of_stopped hhalt.handless t.run.now
    have hscheduler : (t.step .schedule).run.scheduler = { t.run.scheduler with source } := by
      rw [← hstep, ← hhalt.stopped]
      rfl
    refine ⟨{ hhalt with empty := ?_, handless := ?_ }, ?_, .refl _ _⟩
    · rw [hscheduler]; exact hhalt.empty
    · rw [hscheduler]; exact hhandless
    · rw [Run.arrived, hscheduler]; exact .refl _
  | work before after w split waiting ready scheduler loop =>
    have hmem : w ∈ t.run.workers := by
      rw [split]
      exact List.mem_append_right _ List.mem_cons_self
    have hnow := now_lt_of_halting h hhalt hmem scheduler loop
    obtain ⟨hstays, hwithin⟩ := halting_work h hhalt split waiting ready hnow
    exact ⟨hstays, (t.run.arrived_work before.length) ▸ .refl _, hwithin⟩
  | idle _ idle passes =>
    obtain ⟨span, -, rfl, -, -, -⟩ := pass?_eq_some passes
    have hl := loop_of_halting hhalt idle.scheduler idle.loop
    have hends := hhalt.ends
    refine ⟨{ hhalt with ends := ?_ }, .refl _, .refl _ _⟩
    unfold Run.EndsBy at hends ⊢
    have hloop : (t.step (.pass span)).run.loop = t.run.loop := rfl
    rw [hloop]
    cases hloop' : t.run.loop with
    | dispatching => exact absurd hloop' hl
    | draining deadline => rw [hloop'] at hends; exact hends
    | closing | finished | failed => trivial

/-- without calls only the parts of the run go on -/
theorem internal?_of_nextOp? (hcalls : t.calls = []) (hop : t.nextOp? = some op) :
    t.internal? = some op ∧ (t.step op).calls = [] := by
  unfold nextOp? at hop
  split at hop
  · cases hop
  · rw [hcalls] at hop
    refine ⟨hop, ?_⟩
    simp only [step, hcalls, List.tail_nil]
    cases op <;> rfl

/-- **A run that was stopped emits no more than it owes**, and dispatches and drops nothing. -/
theorem outcomes_halting (hcalls : t.calls = []) (h : t.run.Regular) (hhalt : t.run.Halting instant) (fuel : Nat) :
    Within t.run.IsInTurn (t.outcomes fuel) (t.run.awaited instant) ∧
      (t.advance fuel).run.arrived.AtMost t.run.arrived := by
  induction fuel generalizing t with
  | zero => exact ⟨.nil _ _, .refl _⟩
  | succ fuel ih =>
    cases hop : t.nextOp? with
    | none =>
      rw [outcomes_of_none hop, advance_of_none hop]
      exact ⟨.nil _ _, .refl _⟩
    | some op =>
      obtain ⟨hinternal, hcalls'⟩ := internal?_of_nextOp? hcalls hop
      obtain ⟨hhalt', harrived, hstep⟩ := halting_step h hhalt hinternal
      obtain ⟨hrest, harrived'⟩ := ih hcalls' (regular_step h hinternal) hhalt'
      rw [outcomes_succ hop, advance_succ hop]
      have hturn : (t.step op).run.IsInTurn ↔ t.run.IsInTurn := t.run.isInTurn_step op
      exact ⟨((hrest.congr hturn).append _).trans hstep, harrived'.trans harrived⟩

/-! ## A run that goes on -/

/-- the run loop cuts no worker short before the instant -/
theorem lasting_proceed {r : Run} (h : r.Regular) (hlast : r.LastsTo instant) :
    r.proceed.LastsTo instant ∧ Within r.IsInTurn (r.awaited instant) (r.proceed.awaited instant) := by
  have hp := r.proceeds
  generalize r.proceed = r' at hp ⊢
  cases hp with
  | stay => exact ⟨hlast, .refl _ _⟩
  | drain hl =>
    unfold Run.LastsTo at hlast
    rw [hl] at hlast
    exact ⟨hlast, .refl _ _⟩
  | accept hl _ e rest hq =>
    unfold Run.accept
    simp only
    split
    · exact ⟨hlast, .refl _ _⟩
    · -- a worker that has not begun owes nothing yet
      have hfresh : [(⟨e, .fresh⟩ : Worker)].filterMap (Worker.promise? instant) = [] := rfl
      refine ⟨hlast, ?_⟩
      rw [Run.awaited, Run.awaited, List.filterMap_append, hfresh, List.append_nil]
      exact .refl _ _
  | drained => exact ⟨trivial, .refl _ _⟩
  | interrupt deadline hl late =>
    unfold Run.LastsTo at hlast
    rw [hl] at hlast
    rcases late with haborted | late
    · rw [h.unaborted] at haborted; cases haborted
    · rw [Run.awaited_of_le h (Nat.le_trans hlast late)]
      exact ⟨trivial, .nil _ _⟩
  | close hl =>
    exact ⟨hlast, .refl _ _⟩
  | finish =>
    unfold Run.finish
    split <;> exact ⟨trivial, .refl _ _⟩

/-- **A step of a run that goes on.** What was awaited is emitted or awaited still. -/
theorem lasting_step (h : t.run.Regular) (hlast : t.run.LastsTo instant) (hop : t.internal? = some op) :
    (t.step op).run.LastsTo instant ∧
      Within t.run.IsInTurn (t.run.awaited instant)
        ((t.run.outcome? op).toList ++ (t.step op).run.awaited instant) := by
  have hnext := t.next
  rw [hop] at hnext
  cases hnext with
  | proceed => exact lasting_proceed h hlast
  | schedule => exact ⟨hlast, .refl _ _⟩
  | work before after w split waiting ready =>
    refine ⟨?_, (Run.work_awaited h split waiting ready instant).1⟩
    obtain ⟨pool, workers, random, hframe⟩ := t.run.work_frame before.length
    have hstep : (t.step (.work before.length)).run = _ := hframe
    rw [hstep]
    exact hlast
  | idle _ _ passes =>
    obtain ⟨span, -, rfl, -, -, -⟩ := pass?_eq_some passes
    refine ⟨?_, .refl _ _⟩
    unfold Run.LastsTo at hlast ⊢
    have hloop : (t.step (.pass span)).run.loop = t.run.loop := rfl
    rw [hloop]
    cases hl : t.run.loop with
    | dispatching =>
      rw [hl] at hlast
      exact Nat.le_trans hlast (Duration.add_le_add (t.run.now.le_add_right span) (Nat.le_refl _))
    | draining deadline => rw [hl] at hlast; exact hlast
    | closing | finished | failed => trivial

theorem awaited_of_isOver {r : Run} (h : r.Regular) (hover : r.loop.isOver = true) : r.awaited instant = [] := by
  have hcleared := h.cleared
  unfold Run.isCleared at hcleared
  unfold Run.awaited
  cases hl : r.loop with
  | dispatching | draining | closing => rw [hl] at hover; cases hover
  | finished | failed =>
    rw [hl] at hcleared
    rw [show r.workers = [] from hcleared]
    rfl

/-- **A run that goes on emits what it owes**, or owes it still. -/
theorem awaited_outcomes (hcalls : t.calls = []) (h : t.run.Regular) (hlast : t.run.LastsTo instant) (fuel : Nat) :
    Within t.run.IsInTurn (t.run.awaited instant) (t.outcomes fuel ++ (t.advance fuel).run.awaited instant) := by
  induction fuel generalizing t with
  | zero => exact .refl _ _
  | succ fuel ih =>
    cases hop : t.nextOp? with
    | none =>
      rw [outcomes_of_none hop, advance_of_none hop]
      exact .refl _ _
    | some op =>
      obtain ⟨hinternal, hcalls'⟩ := internal?_of_nextOp? hcalls hop
      obtain ⟨hlast', hstep⟩ := lasting_step h hlast hinternal
      have hrest := ih hcalls' (regular_step h hinternal) hlast'
      have hturn : (t.step op).run.IsInTurn ↔ t.run.IsInTurn := t.run.isInTurn_step op
      rw [outcomes_succ hop, advance_succ hop, List.append_assoc]
      exact hstep.trans ((hrest.congr hturn).append _)

/-- a run without calls stays regular, and what was dispatched and what was dropped stays so -/
theorem regular_advance (hcalls : t.calls = []) (h : t.run.Regular) (fuel : Nat) :
    (t.advance fuel).run.Regular ∧ t.run.arrived.AtMost (t.advance fuel).run.arrived := by
  induction fuel generalizing t with
  | zero => exact ⟨h, .refl _⟩
  | succ fuel ih =>
    cases hop : t.nextOp? with
    | none =>
      rw [advance_of_none hop]
      exact ⟨h, .refl _⟩
    | some op =>
      obtain ⟨hinternal, hcalls'⟩ := internal?_of_nextOp? hcalls hop
      obtain ⟨hregular, harrived⟩ := ih hcalls' (regular_step h hinternal)
      rw [advance_succ hop]
      exact ⟨hregular, (Run.arrived_step h op).trans harrived⟩

end Timeline

end LoadGen
