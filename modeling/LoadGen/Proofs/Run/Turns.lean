/-
The turns of a run on virtual time: whose turn comes next, and what each part does with it.

- `IsIdle`, `Next`: nothing is ready before time passes, and no worker before the one that goes on.
- `pass?_eq_some`: the instant to which time passes is the first of those that are waited for.
- `Moves`: what a worker turns into, with the outcome that it emits.
- `work_frame`, `proceed_frame`, `setting_step`: what a worker, the run loop, and any part leave as it is.
- `Feeds`: what the scheduler puts into the queue, numbered in order.
-/
import LoadGen.Proofs.Run.Calls
import LoadGen.Proofs.Run.Outcomes

namespace LoadGen

/-! ## Whose turn it is -/

namespace Timeline

variable {t : Timeline} {op : RunOp}

/-- no part of the run can go on -/
structure IsIdle (t : Timeline) : Prop where
  scheduler : t.isSchedulerReady = false
  loop : t.run.isLoopReady = false
  workers : ∀ w ∈ t.run.workers, w.isReady t.run.now = false

/-- what comes next, if nobody calls -/
inductive Next (t : Timeline) : Option RunOp → Prop where
  | proceed (ready : t.run.isLoopReady = true) : Next t (some .proceed)
  | schedule (ready : t.isSchedulerReady = true) : Next t (some .schedule)
  | work (before after : List Worker) (w : Worker) (split : t.run.workers = before ++ w :: after)
      (waiting : ∀ v ∈ before, v.isReady t.run.now = false) (ready : w.isReady t.run.now = true)
      (scheduler : t.isSchedulerReady = false) (loop : t.run.isLoopReady = false) :
      Next t (some (.work before.length))
  | idle (op : Option RunOp) (idle : t.IsIdle) (passes : t.pass? = op) : Next t op

theorem next (t : Timeline) : t.Next t.internal? := by
  unfold internal?
  split
  · rename_i h
    exact .proceed (Bool.and_eq_true_iff.1 h).2
  · split
    · rename_i h
      exact .schedule h
    · rename_i hs
      split
      · rename_i h
        exact .proceed h
      · rename_i hl
        rw [Bool.not_eq_true] at hs hl
        split
        · rename_i i hi
          obtain ⟨hlt, hready, hfirst⟩ := List.findIdx?_eq_some_iff_getElem.1 hi
          have hsplit : t.run.workers = t.run.workers.take i ++ t.run.workers[i] :: t.run.workers.drop (i + 1) := by
            rw [← List.drop_eq_getElem_cons hlt, List.take_append_drop]
          have hlen : (t.run.workers.take i).length = i := List.length_take_of_le (Nat.le_of_lt hlt)
          have hwaiting : ∀ v ∈ t.run.workers.take i, v.isReady t.run.now = false := by
            intro v hv
            obtain ⟨j, hj, rfl⟩ := List.mem_iff_getElem.1 hv
            rw [List.getElem_take]
            exact Bool.not_eq_true _ ▸ hfirst j (by omega)
          have hnext := Next.work _ _ _ hsplit hwaiting hready hs hl
          rwa [hlen] at hnext
        · rename_i hnone
          exact .idle _ ⟨hs, hl, List.findIdx?_eq_none_iff.1 hnone⟩ rfl

/-- an instant is the first of some -/
theorem earliest?_eq_some {ds : List Duration} {d : Duration} (h : earliest? ds = some d) :
    d ∈ ds ∧ ∀ e ∈ ds, d ≤ e := by
  cases ds with
  | nil => cases h
  | cons c ds =>
    cases h
    refine ⟨?_, List.forall_mem_cons.2 ⟨Duration.foldl_least_le c ds, fun e he => Duration.foldl_least_le_of_mem he c⟩⟩
    rcases Duration.foldl_least_eq_or_mem c ds with heq | hmem
    · rw [heq]; exact List.mem_cons_self
    · exact List.mem_cons_of_mem c hmem

/-- time passes up to the first of the instants that are waited for, unless that is over -/
theorem pass?_eq_some (h : t.pass? = some op) :
    ∃ span instant, op = .pass span ∧ instant ∈ t.timers ∧ (∀ d ∈ t.timers, instant ≤ d) ∧
      (t.run.now + span).nanos = max t.run.now.nanos instant.nanos := by
  obtain ⟨instant, hinstant, rfl⟩ := Option.map_eq_some_iff.1 h
  obtain ⟨hmem, hfirst⟩ := earliest?_eq_some hinstant
  refine ⟨_, instant, rfl, hmem, hfirst, ?_⟩
  have hnow := t.run.now.le_max
  have hmax := instant.le_max
  have hspan : (instant - t.run.now).nanos = instant.nanos - t.run.now.nanos := rfl
  rw [Duration.nanos_add, hspan]
  omega

/-- time does not pass only if nothing is waited for -/
theorem timers_of_pass? (h : t.pass? = none) : t.timers = [] := by
  have hnone := Option.map_eq_none_iff.1 h
  cases hds : t.timers with
  | nil => rfl
  | cons d ds =>
    rw [hds] at hnone
    cases hnone

theorem timer_mem_timers {w : Worker} {d : Duration} (hw : w ∈ t.run.workers) (hd : w.timer? = some d) :
    d ∈ t.timers :=
  List.mem_append_right _ (List.mem_filterMap.2 ⟨w, hw, hd⟩)

end Timeline

/-! ## What a worker does -/

namespace Worker

variable {w : Worker} {now : Duration}

/-- what waits is waited for -/
theorem timer?_of_isReady (h : w.isReady now = false) : ∃ d, w.timer? = some d ∧ now < d := by
  have hlater {deadline : Duration} (h : decide (deadline ≤ now) = false) : now < deadline :=
    Nat.lt_of_not_le (of_decide_eq_false h)
  unfold isReady at h
  unfold timer?
  cases ha : w.activity with
  | fresh => rw [ha] at h; cases h
  | requesting request startedAt deadline x => rw [ha] at h; exact ⟨deadline, rfl, hlater h⟩
  | thinking deadline => rw [ha] at h; exact ⟨deadline, rfl, hlater h⟩

end Worker

namespace Run

variable {r : Run} {w : Worker} {before after : List Worker}

/-- a worker's request is out -/
def sent (r : Run) (w : Worker) (request : Web.RequestSpec) : Activity :=
  .requesting request r.now (r.now + (r.scenario.exchange r.peer w.dispatch.seq request).1)
    (r.scenario.exchange r.peer w.dispatch.seq request).2

/-- what becomes of a worker that goes on, with the outcome that it emits -/
inductive Moves (r : Run) (w : Worker) : Option Metrics.Outcome → Option Worker → Prop where
  /-- the request is sent -/
  | send (fresh : w.activity = .fresh) (request : Web.RequestSpec)
      (found : r.scenario.requestFor? w.dispatch.seq = some request) :
      Moves r w none (some { w with activity := r.sent w request })
  /-- there is no request to send -/
  | lose (fresh : w.activity = .fresh) : Moves r w none none
  /-- an outcome is emitted, and a pause may follow -/
  | settle (request : Web.RequestSpec) (startedAt deadline : Duration) (x : Web.Exchange)
      (activity : w.activity = .requesting request startedAt deadline x) (late : deadline ≤ r.now)
      (pause : Option Duration) :
      Moves r w (some (r.outcome w request startedAt x))
        (pause.map fun d => { w with activity := .thinking (r.now + d) })
  /-- the pause is over -/
  | leave (deadline : Duration) (activity : w.activity = .thinking deadline) : Moves r w none none

theorem getElem?_split (h : r.workers = before ++ w :: after) : r.workers[before.length]? = some w := by
  rw [h, List.getElem?_append_right (Nat.le_refl _), Nat.sub_self, List.getElem?_cons_zero]

theorem workers_leave (h : r.workers = before ++ w :: after) :
    (r.leave before.length w).workers = before ++ [] ++ after := by
  simp only [leave, h, List.eraseIdx_append_of_length_le (Nat.le_refl _), Nat.sub_self, List.eraseIdx_cons_zero,
    List.append_nil]

theorem workers_turn (h : r.workers = before ++ w :: after) (activity : Activity) :
    (r.turn before.length w activity).workers = before ++ [{ w with activity }] ++ after := by
  simp only [turn, h, List.set_append_right _ _ (Nat.le_refl _), Nat.sub_self, List.set_cons_zero, List.append_assoc,
    List.singleton_append]

/-- a worker goes on, and all others stay as they are -/
theorem work_moves (h : r.workers = before ++ w :: after) (ready : w.isReady r.now = true) :
    ∃ rest, r.Moves w (r.outcome? (.work before.length)) rest ∧
      (r.work before.length).workers = before ++ rest.toList ++ after := by
  have hi := getElem?_split h
  unfold work outcome?
  simp only [hi, Option.bind_some, outcomeOf?]
  cases ha : w.activity with
  | fresh =>
    simp only [send]
    cases hrequest : r.scenario.requestFor? w.dispatch.seq with
    | none => exact ⟨none, .lose ha, workers_leave h⟩
    | some request => exact ⟨_, .send ha request hrequest, workers_turn h _⟩
  | thinking deadline =>
    have hlate : deadline ≤ r.now := by simpa [Worker.isReady, ha] using ready
    simp only [if_pos hlate]
    exact ⟨none, .leave deadline ha, workers_leave h⟩
  | requesting request startedAt deadline x =>
    have hlate : deadline ≤ r.now := by simpa [Worker.isReady, ha] using ready
    simp only [if_pos hlate, settle]
    split
    · exact ⟨none, .settle request startedAt deadline x ha hlate none, workers_leave h⟩
    · exact ⟨_, .settle request startedAt deadline x ha hlate (some _), workers_turn h _⟩

/-- what a worker leaves as it is -/
theorem work_frame (r : Run) (i : Nat) : ∃ pool workers random, r.work i =
    { r with
      scheduler := { r.scheduler with dispatcher := { r.scheduler.dispatcher with pool } }, workers, random
      life := (r.outcome? (.work i)).elim r.life r.life.emit } := by
  have hworks := r.works i
  generalize r.outcome? (.work i) = outcome at hworks ⊢
  generalize r.work i = r' at hworks ⊢
  cases hworks <;> exact ⟨_, _, _, rfl⟩

/-- what the run loop leaves as it is -/
theorem proceed_frame (r : Run) : ∃ dispatcher life loop workers discarded, r.proceed =
      { r with scheduler := { r.scheduler with dispatcher }, life, loop, workers, discarded } ∧
    dispatcher.arrived.dispatched = r.scheduler.dispatcher.arrived.dispatched ∧
    dispatcher.arrived.dropped = r.scheduler.dispatcher.arrived.dropped := by
  have hp := r.proceeds
  generalize r.proceed = r' at hp ⊢
  cases hp with
  | stay | drain | drained | close => exact ⟨_, _, _, _, _, rfl, rfl, rfl⟩
  | accept =>
    unfold accept
    simp only
    split <;> exact ⟨_, _, _, _, _, rfl, rfl, rfl⟩
  | interrupt =>
    obtain ⟨pool, hpool⟩ := Scheduler.foldl_release r.workers r.scheduler
    simp only [interrupt, hpool]
    exact ⟨_, _, _, _, _, rfl, rfl, rfl⟩
  | finish =>
    unfold finish
    split <;> exact ⟨_, _, _, _, _, rfl, rfl, rfl⟩

/-- what is not changed by any step -/
theorem setting_step (r : Run) (op : RunOp) : (r.step op).scenario = r.scenario ∧ (r.step op).peer = r.peer := by
  cases op with
  | pass | schedule | cancel | abort => exact ⟨rfl, rfl⟩
  | work i =>
    obtain ⟨pool, workers, random, hframe⟩ := r.work_frame i
    have hstep : r.step (.work i) = _ := hframe
    rw [hstep]
    exact ⟨rfl, rfl⟩
  | proceed =>
    obtain ⟨dispatcher, life, loop, workers, discarded, hframe, -, -⟩ := r.proceed_frame
    have hstep : r.step .proceed = _ := hframe
    rw [hstep]
    exact ⟨rfl, rfl⟩

theorem scenario_steps (r : Run) (ops : List RunOp) : (r.steps ops).scenario = r.scenario := by
  induction ops generalizing r with
  | nil => rfl
  | cons op ops ih => exact (ih (r.step op)).trans (r.setting_step op).1

/-- only the scheduler takes iterations from where they come from -/
theorem source_step (r : Run) {op : RunOp} (hop : op ≠ .schedule) :
    (r.step op).scheduler.source = r.scheduler.source := by
  cases op with
  | schedule => exact absurd rfl hop
  | pass | cancel | abort => rfl
  | work i =>
    obtain ⟨pool, workers, random, hframe⟩ := r.work_frame i
    have hstep : r.step (.work i) = _ := hframe
    rw [hstep]
  | proceed =>
    obtain ⟨dispatcher, life, loop, workers, discarded, hframe, -, -⟩ := r.proceed_frame
    have hstep : r.step .proceed = _ := hframe
    rw [hstep]

end Run

/-! ## What the scheduler does -/

namespace Scheduler

variable {s : Scheduler}

/-- the number of the next iteration -/
def number (s : Scheduler) : Nat :=
  match s.source with
  | .open _ _ seq => seq
  | .closed .. | .exhausted | .broken => s.dispatcher.arrived.dispatched

/-- an iteration that waits for room has the next number -/
def HandsNext (s : Scheduler) : Prop :=
  ∀ ramp e, s.source = .closed ramp (.hand e) → e.seq = s.dispatcher.arrived.dispatched

/-- `s'` comes after `s` by a step that puts `fed` into the queue -/
structure Feeds (s s' : Scheduler) (fed : Option Dispatch) : Prop where
  queue : s'.dispatcher.queue = s.dispatcher.queue ++ fed.toList
  dispatched : s'.dispatcher.arrived.dispatched = s.dispatcher.arrived.dispatched + fed.toList.length
  dropped : s.dispatcher.arrived.dropped ≤ s'.dispatcher.arrived.dropped
  capacity : s'.dispatcher.capacity = s.dispatcher.capacity
  numbered : ∀ e ∈ fed, e.seq = s.number
  next : s'.isOver = false → s.number + fed.toList.length ≤ s'.number
  handsNext : s'.HandsNext

/-- nothing comes into the queue where only the pool and the source change -/
theorem feeds_none (source : Source) (pool : Pool)
    (hnext : source.isOver = false → s.number ≤ number ⟨source, s.dispatcher⟩)
    (hhands : HandsNext ⟨source, s.dispatcher⟩) : s.Feeds ⟨source, { s.dispatcher with pool }⟩ none :=
  ⟨(List.append_nil _).symm, rfl, Nat.le_refl _, rfl, fun _ he => (by cases he), hnext, hhands⟩

theorem feeds_exhausted (s : Scheduler) (pool : Pool) : s.Feeds ⟨.exhausted, { s.dispatcher with pool }⟩ none :=
  feeds_none .exhausted pool (fun h => (by cases h)) fun _ _ h => (by cases h)

theorem feeds_rest (h : s.HandsNext) : s.Feeds s none :=
  feeds_none s.source s.dispatcher.pool (fun _ => Nat.le_refl _) h

/-- a closed loop that looks or waits for a slot numbers by what was dispatched -/
theorem feeds_closed {ramp : Ramp} {turn : Turn} (hnumber : s.number = s.dispatcher.arrived.dispatched)
    (hturn : ∀ e, turn ≠ .hand e) : s.Feeds { s with source := .closed ramp turn } none :=
  feeds_none _ s.dispatcher.pool (fun _ => Nat.le_of_eq hnumber) fun _ e h => by
    injection h with _ hhand
    exact absurd hhand (hturn e)

/-- an iteration of a closed loop is queued -/
theorem feeds_enqueue (ramp : Ramp) (pool : Pool) {e : Dispatch} (hnumber : s.number = s.dispatcher.arrived.dispatched)
    (he : e.seq = s.dispatcher.arrived.dispatched) :
    s.Feeds ⟨.closed ramp .look, { s.dispatcher with pool }.enqueue e⟩ (some e) := by
  refine ⟨rfl, rfl, Nat.le_refl _, rfl, fun f hf => ?_, fun _ => ?_, fun _ _ h => (by cases h)⟩
  · cases hf
    rw [he, hnumber]
  · rw [hnumber]
    exact Nat.le_refl _

/-- the arrivals after number `seq` are numbered from there on -/
theorem feeds_ofNext (d : Dispatcher) (seq : Nat) (next : NextArrival Arrivals) :
    (isOver ⟨.ofNext seq next, d⟩ = false → number ⟨.ofNext seq next, d⟩ = seq) ∧ HandsNext ⟨.ofNext seq next, d⟩ := by
  cases next with
  | due offset rest => exact ⟨fun _ => rfl, fun _ _ h => by cases h⟩
  | finished rest => exact ⟨fun h => (by cases h), fun _ _ h => by cases h⟩
  | unrepresentable => exact ⟨fun h => (by cases h), fun _ _ h => by cases h⟩

/-- an arrival is dropped, and the next one follows -/
theorem feeds_drop (rest : Arrivals) (pool : Pool) :
    s.Feeds ⟨.ofNext (s.number + 1) rest.pop, { s.dispatcher with pool }.drop⟩ none := by
  obtain ⟨hnext, hhands⟩ := feeds_ofNext { s.dispatcher with pool }.drop (s.number + 1) rest.pop
  refine ⟨(List.append_nil _).symm, rfl, Nat.le_succ _, rfl, fun _ he => (by cases he), fun h => ?_, hhands⟩
  rw [hnext h]
  exact Nat.le_succ _

/-- an arrival is queued, and the next one follows -/
theorem feeds_serve (due : Duration) (rest : Arrivals) (slot : Nat) (pool : Pool) :
    s.Feeds ⟨.ofNext (s.number + 1) rest.pop, { s.dispatcher with pool }.enqueue ⟨s.number, due, slot⟩⟩
      (some ⟨s.number, due, slot⟩) := by
  obtain ⟨hnext, hhands⟩ :=
    feeds_ofNext ({ s.dispatcher with pool }.enqueue ⟨s.number, due, slot⟩) (s.number + 1) rest.pop
  refine ⟨rfl, rfl, Nat.le_refl _, rfl, fun f hf => ?_, fun h => ?_, hhands⟩
  · cases hf
    rfl
  · rw [hnext h]
    exact Nat.le_refl _

/-- **A step of the scheduler** puts at most one iteration into the queue, with the next number. -/
theorem feeds_step (h : s.HandsNext) (now : Duration) (stopped : Bool) : ∃ fed, s.Feeds (s.step now stopped) fed := by
  have hacts := s.acts_step now stopped
  generalize s.step now stopped = s' at hacts ⊢
  cases hacts with
  | stay => exact ⟨none, feeds_rest h⟩
  | halt => exact ⟨none, s.feeds_exhausted s.dispatcher.pool⟩
  | look ramp source => exact ⟨none, feeds_closed (by rw [number, source]) fun _ h => by cases h⟩
  | again ramp target deadline source => exact ⟨none, feeds_closed (by rw [number, source]) fun _ h => by cases h⟩
  | lose due rest seq source =>
    have hnumber : s.number = seq := by rw [number, source]
    rw [← hnumber]
    exact ⟨none, feeds_drop rest s.dispatcher.pool⟩
  | overflow due rest seq source slot pool =>
    have hnumber : s.number = seq := by rw [number, source]
    rw [← hnumber]
    exact ⟨none, feeds_drop rest (pool.release slot)⟩
  | serve due rest seq source running slot pool =>
    have hnumber : s.number = seq := by rw [number, source]
    rw [← hnumber]
    exact ⟨_, feeds_serve due rest slot pool⟩
  | decline _ _ slot pool => exact ⟨none, s.feeds_exhausted (pool.release slot)⟩
  | claim ramp target deadline source running live slot pool =>
    exact ⟨_, feeds_enqueue ramp pool (by rw [number, source]) rfl⟩
  | hold ramp target deadline source running live slot pool =>
    have hnumber : s.number = s.dispatcher.arrived.dispatched := by rw [number, source]
    refine ⟨none, feeds_none _ pool (fun _ => Nat.le_of_eq hnumber) fun _ _ hhand => ?_⟩
    cases hhand
    rfl
  | hand ramp e source =>
    exact ⟨_, feeds_enqueue ramp s.dispatcher.pool (by rw [number, source]) (h ramp e source)⟩
  | withdraw ramp e => exact ⟨none, s.feeds_exhausted (s.dispatcher.pool.release e.slot)⟩

end Scheduler

end LoadGen
