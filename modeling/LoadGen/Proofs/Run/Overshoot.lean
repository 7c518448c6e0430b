/-
Nothing starts after a stop. When a stop comes, by a caller or by a streak of failures, iterations may be in the queue,
one may wait for room in it, and workers may be under way. From then on no slot is handed out and no worker is started:
what is pending gives its slot back and is counted as interrupted once it was in the queue, and only the workers that
owe an outcome can still emit one. Every worker holds a slot, so these are no more than the pool has.

- `Delivery.Leaves`: no slot is handed out; whoever held one still holds it, or has given it back.
- `forfeited`, `cuts`: the iterations that are counted as interrupted, and those of them that were cut short.
- `forfeits_steps`: what leaves the queue after a stop is forfeited.
- `outcomes_le_owing`: after a stop there are no more outcomes than workers that owe one.
- `stop_starts_nothing`: what holds of any steps after a stop.
-/
import LoadGen.Proofs.Run.Cancelled
import LoadGen.Proofs.Run.Stages

namespace LoadGen

/-! ## Slots after a stop -/

namespace Delivery

/-- `d'` comes after `d` without a slot being handed out -/
structure Leaves (d d' : Delivery) : Prop where
  idle : ∀ slot ∈ d.pool.idle, slot ∈ d'.pool.idle
  pending : d'.scheduler.pending.Sublist d.scheduler.pending
  events : ∀ e ∈ d.events, e ∈ d'.events ∨ e.slot ∈ d'.pool.idle

variable {d d' d'' : Delivery}

theorem Leaves.refl (d : Delivery) : d.Leaves d :=
  ⟨fun _ h => h, .refl _, fun _ h => .inl h⟩

theorem Leaves.trans (h : d.Leaves d') (h' : d'.Leaves d'') : d.Leaves d'' := by
  refine ⟨fun slot hs => h'.idle slot (h.idle slot hs), h'.pending.trans h.pending, fun e he => ?_⟩
  rcases h.events e he with he | hidle
  · exact h'.events e he
  · exact .inr (h'.idle _ hidle)

/-- a slot that is taken and given back at once is as idle as before -/
theorem idle_of_bounce {p q : Pool} {limit slot other : Nat} (acquired : p.acquireBelow? limit = some (slot, q))
    (h : other ∈ p.idle) : other ∈ (q.release slot).idle := by
  obtain ⟨-, -, -, -, ⟨hidle, -⟩ | ⟨hidle, -⟩⟩ := Pool.acquireBelow?_cases acquired
  · rw [hidle] at h
    exact h
  · rw [hidle] at h
    cases h

theorem idle_foldl_release (es : List Dispatch) (p : Pool) :
    (∀ slot ∈ p.idle, slot ∈ (es.foldl (fun p e => p.release e.slot) p).idle) ∧
      ∀ e ∈ es, e.slot ∈ (es.foldl (fun p e => p.release e.slot) p).idle := by
  induction es generalizing p with
  | nil => exact ⟨fun _ h => h, fun _ h => (by cases h)⟩
  | cons first es ih =>
    obtain ⟨hidle, hes⟩ := ih (p.release first.slot)
    refine ⟨fun slot h => hidle slot (List.mem_cons_of_mem _ h), fun e he => ?_⟩
    rcases List.mem_cons.1 he with rfl | he
    · exact hidle _ List.mem_cons_self
    · exact hes e he

/-- the scheduler hands out no slot after a stop -/
theorem leaves_schedule (stopped : d.stopped = true) : d.Leaves (d.step .schedule) := by
  have htransfers := (d.scheduler.acts_step d.now d.stopped).transfers
  have hevents : (d.step .schedule).events = (d.step .schedule).scheduler.pending ++ d.held := rfl
  have hsame (hpending : (d.step .schedule).scheduler.pending = d.scheduler.pending) :
      (d.step .schedule).scheduler.pending.Sublist d.scheduler.pending ∧
        ∀ e ∈ d.events, e ∈ (d.step .schedule).events ∨ e.slot ∈ (d.step .schedule).pool.idle := by
    rw [hevents, hpending]
    exact ⟨.refl _, fun e he => .inl he⟩
  cases htransfers with
  | keep pool pending =>
    have hpool : (d.step .schedule).pool = d.pool := pool
    exact ⟨fun slot h => hpool ▸ h, (hsame pending).1, (hsame pending).2⟩
  | take running =>
    rw [stopped] at running
    cases running
  | bounce limit slot pool acquired released pending =>
    have hpool : (d.step .schedule).pool = pool.release slot := released
    exact ⟨fun other h => hpool ▸ idle_of_bounce acquired h, (hsame pending).1, (hsame pending).2⟩
  | withdraw e released pending =>
    have hpool : (d.step .schedule).pool = d.pool.release e.slot := released
    have hpending : d.scheduler.pending = (d.step .schedule).scheduler.pending ++ [e] := pending
    refine ⟨fun slot h => ?_, ?_, fun f hf => ?_⟩
    · rw [hpool]
      exact List.mem_cons_of_mem _ h
    · rw [hpending]
      exact List.sublist_append_left _ _
    · rw [Delivery.events, hpending, List.append_assoc, List.mem_append, List.singleton_append, List.mem_cons] at hf
      rw [hevents, List.mem_append, hpool]
      rcases hf with hf | rfl | hf
      · exact .inl (.inl hf)
      · exact .inr List.mem_cons_self
      · exact .inl (.inr hf)

/-- **After a stop no slot is handed out**, and a slot that is given back stays idle. -/
theorem leaves_step (stopped : d.stopped = true) (op : Op) : d.Leaves (d.step op) := by
  cases op with
  | pass span => exact ⟨fun _ h => h, .refl _, fun _ h => .inl h⟩
  | stop => exact ⟨fun _ h => h, .refl _, fun _ h => .inl h⟩
  | schedule => exact leaves_schedule stopped
  | receive =>
    cases hq : d.scheduler.dispatcher.queue with
    | nil =>
      rw [step_receive_nil hq]
      exact .refl d
    | cons e rest =>
      have hpending : d.scheduler.pending = e :: (rest ++ d.scheduler.waiting?.toList) := by
        rw [Scheduler.pending, hq, List.cons_append]
      rw [step_receive_cons hq]
      refine ⟨fun _ h => h, ?_, fun f hf => .inl ?_⟩
      · rw [hpending]
        exact List.sublist_cons_self e _
      · rw [events, hpending, List.cons_append, List.mem_cons, List.mem_append] at hf
        show f ∈ rest ++ d.scheduler.waiting?.toList ++ (d.held ++ [e])
        rcases hf with rfl | hf | hf
        · exact List.mem_append_right _ (List.mem_append_right _ List.mem_cons_self)
        · exact List.mem_append_left _ hf
        · exact List.mem_append_right _ (List.mem_append_left _ hf)
  | release i =>
    cases hi : d.held[i]? with
    | none =>
      rw [step_release_none hi]
      exact .refl d
    | some e =>
      obtain ⟨hlt, he⟩ := List.getElem?_eq_some_iff.1 hi
      have hheld : (e :: d.held.eraseIdx i).Perm d.held := he ▸ List.getElem_cons_eraseIdx_perm hlt
      rw [step_release_some hi]
      refine ⟨fun slot h => List.mem_cons_of_mem _ h, .refl _, fun f hf => ?_⟩
      rcases List.mem_append.1 hf with hf | hf
      · exact .inl (List.mem_append_left _ hf)
      · rcases List.mem_cons.1 (hheld.mem_iff.2 hf) with rfl | hf
        · exact .inr List.mem_cons_self
        · exact .inl (List.mem_append_right _ hf)
  | close =>
    obtain ⟨hidle, hqueue⟩ := idle_foldl_release d.queue d.pool
    refine ⟨hidle, List.sublist_append_right _ _, fun f hf => ?_⟩
    rw [events, Scheduler.pending, List.append_assoc] at hf
    rcases List.mem_append.1 hf with hf | hf
    · exact .inr (hqueue f hf)
    · exact .inl hf

/-- a stop is never taken back -/
theorem stopped_step {op : Op} (stopped : d.stopped = true) : (d.step op).stopped = true := by
  cases op with
  | receive =>
    simp only [step]
    split <;> exact stopped
  | release i =>
    simp only [step]
    split <;> exact stopped
  | stop => rfl
  | pass | schedule | close => exact stopped

theorem leaves_run (stopped : d.stopped = true) (ops : List Op) : d.Leaves (d.run ops) := by
  induction ops generalizing d with
  | nil => exact .refl d
  | cons op ops ih => exact (leaves_step stopped op).trans (ih (stopped_step stopped))

end Delivery

/-! ## Workers after a stop -/

namespace Run

open Delivery

variable {r : Run} {op : RunOp}

/-- a worker that goes on keeps its slot or leaves -/
theorem held_work (r : Run) (i : Nat) :
    ((r.work i).workers.map Worker.dispatch).Sublist (r.workers.map Worker.dispatch) := by
  have hworks := r.works i
  generalize r.outcome? (.work i) = outcome at hworks
  generalize r.work i = r' at hworks ⊢
  cases hworks with
  | rest => exact .refl _
  | leave | settle => exact (List.eraseIdx_sublist _ _).map _
  | send w found owes activity => rw [held_turn found]
  | pause w found owes o random deadline => rw [held_turn (r := { r with life := r.life.emit o, random }) found]

/-- after a stop the run loop starts no worker -/
theorem workers_proceed (stopped : r.life.stopped = true) :
    r.proceed.workers = r.workers ∨ r.proceed.workers = [] := by
  have hp := r.proceeds
  generalize r.proceed = r' at hp ⊢
  cases hp with
  | accept =>
    unfold accept
    simp only [stopped, if_true]
    exact .inl trivial
  | interrupt => exact .inr rfl
  | finish =>
    unfold finish
    split <;> exact .inl rfl
  | stay | drain | drained | close => exact .inl rfl

/-- **No worker is started after a stop.** -/
theorem held_step (stopped : r.life.stopped = true) (op : RunOp) :
    ((r.step op).workers.map Worker.dispatch).Sublist (r.workers.map Worker.dispatch) := by
  cases op with
  | work i => exact held_work r i
  | proceed =>
    show (r.proceed.workers.map Worker.dispatch).Sublist _
    rcases workers_proceed stopped with hsame | hnone
    · rw [hsame]
    · rw [hnone]
      exact List.nil_sublist _
  | pass | schedule | cancel | abort => exact .refl _

theorem held_steps (stopped : r.life.stopped = true) (ops : List RunOp) :
    ((r.steps ops).workers.map Worker.dispatch).Sublist (r.workers.map Worker.dispatch) := by
  induction ops generalizing r with
  | nil => exact .refl _
  | cons op ops ih => exact (ih (stopped_step stopped op)).trans (held_step stopped op)

/-! ## Outcomes after a stop -/

/-- an outcome comes from a worker that owed it -/
theorem owing_work (r : Run) (i : Nat) : (r.outcome? (.work i)).toList.length + (r.work i).owing ≤ r.owing := by
  have hworks := r.works i
  generalize r.outcome? (.work i) = outcome at hworks ⊢
  generalize r.work i = r' at hworks ⊢
  cases hworks with
  | rest => exact Nat.le_of_eq (Nat.zero_add _)
  | leave w found =>
    have howing := owing_leave found
    show 0 + _ ≤ _
    omega
  | send w found owes activity still =>
    have howing := owing_turn found activity
    rw [owes, still] at howing
    show 0 + _ ≤ _
    omega
  | settle w found owes o random =>
    have howing := owing_leave (r := { r with life := r.life.emit o, random }) found
    have hsame : owing { r with life := r.life.emit o, random } = r.owing := rfl
    rw [owes, if_neg Bool.false_ne_true, hsame] at howing
    show 1 + _ ≤ _
    omega
  | pause w found owes o random deadline =>
    have howing := owing_turn (r := { r with life := r.life.emit o, random }) found (.thinking deadline)
    have hsame : owing { r with life := r.life.emit o, random } = r.owing := rfl
    have hpaused : Worker.isThinking { w with activity := .thinking deadline } = true := rfl
    rw [owes, if_neg Bool.false_ne_true, hsame, hpaused, if_pos rfl] at howing
    show 1 + _ ≤ _
    omega

/-- after a stop nobody else comes to owe one -/
theorem owing_step (stopped : r.life.stopped = true) (op : RunOp) :
    (r.outcome? op).toList.length + (r.step op).owing ≤ r.owing := by
  cases op with
  | work i => exact owing_work r i
  | proceed =>
    show 0 + r.proceed.workers.countP _ ≤ r.workers.countP _
    rw [Nat.zero_add]
    rcases workers_proceed stopped with hsame | hnone
    · rw [hsame]
    · rw [hnone]
      exact Nat.zero_le _
  | pass | schedule | cancel | abort => exact Nat.le_of_eq (Nat.zero_add _)

theorem outcomes_le_owing (stopped : r.life.stopped = true) (ops : List RunOp) :
    (r.outcomes ops).length + (r.steps ops).owing ≤ r.owing := by
  induction ops generalizing r with
  | nil => exact Nat.le_of_eq (Nat.zero_add _)
  | cons op ops ih =>
    have hfirst := owing_step stopped op
    have hrest := ih (stopped_step stopped op)
    have hsteps : r.steps (op :: ops) = (r.step op).steps ops := rfl
    rw [outcomes, List.length_append, hsteps]
    omega

/-! ## What is counted as interrupted -/

/-- iterations that ended without an outcome: counted as interrupted, or discarded or undelivered and about to be -/
def forfeited (r : Run) : Nat :=
  r.life.metrics.interrupted + r.uncountedDiscards + r.uncountedUndelivered

/-- workers that a step cuts short -/
def cut (r : Run) (op : RunOp) : Nat :=
  match r.loop, (r.step op).loop with
  | .draining _, .closing => r.workers.length
  | _, _ => 0

/-- workers that some steps cut short -/
def cuts (r : Run) : List RunOp → Nat
  | [] => 0
  | op :: ops => r.cut op + (r.step op).cuts ops

/-- `r'` comes after a stop in `r`, with these workers cut short: whatever left the queue meanwhile is forfeited -/
def Forfeits (r r' : Run) (cut : Nat) : Prop :=
  r'.forfeited + r'.scheduler.dispatcher.queue.length + r.arrived.dispatched =
    r.forfeited + r.scheduler.dispatcher.queue.length + r'.arrived.dispatched + cut

theorem cut_of_loop (h : (r.step op).loop = r.loop) : r.cut op = 0 := by
  simp only [cut, h]
  cases r.loop <;> rfl

/-- a part other than the run loop forfeits nothing -/
theorem forfeits_of_follows {r' : Run} (loop : r'.loop = r.loop) (discarded : r'.discarded = r.discarded)
    (interrupted : r'.life.metrics.interrupted = r.life.metrics.interrupted)
    (follows : r.scheduler.dispatcher.Follows r'.scheduler.dispatcher) : r.Forfeits r' 0 := by
  have hhanded := follows.handed
  simp only [Forfeits, forfeited, uncountedDiscards, uncountedUndelivered, loop, discarded, interrupted,
    follows.undelivered, arrived]
  omega

/-- the run loop forfeits what it takes from the queue, and the workers that it cuts short -/
theorem forfeits_proceed (stopped : r.life.stopped = true) : r.Forfeits r.proceed (r.cut .proceed) := by
  have hp := r.proceeds
  have hdef : r.step .proceed = r.proceed := rfl
  simp only [cut, hdef]
  generalize r.proceed = r' at hp ⊢
  cases hp with
  | stay => cases hl : r.loop <;> rfl
  | drain loop =>
    simp only [Forfeits, forfeited, drain, Run.interrupted, uncountedDiscards, uncountedUndelivered, loop, arrived,
      Lifecycle.metrics_beginDrain, Metrics.Aggregate.recordInterrupted]
    omega
  | accept loop _ e rest queue =>
    simp only [accept, stopped, if_true, Forfeits, forfeited, uncountedDiscards, uncountedUndelivered, loop, arrived,
      Scheduler.release, Dispatcher.release, queue, List.length_cons]
    omega
  | drained deadline loop workers =>
    simp only [Forfeits, forfeited, uncountedDiscards, uncountedUndelivered, loop, arrived, workers,
      List.length_nil]
    omega
  | interrupt deadline loop =>
    obtain ⟨pool, hpool⟩ := Scheduler.foldl_release r.workers r.scheduler
    simp only [interrupt, hpool, Run.interrupted, Forfeits, forfeited, uncountedDiscards, uncountedUndelivered, loop,
      arrived, Metrics.Aggregate.recordInterrupted]
    omega
  | close loop =>
    simp only [Forfeits, forfeited, uncountedDiscards, uncountedUndelivered, loop, arrived, Scheduler.close,
      Dispatcher.close, List.length_nil]
    omega
  | finish loop =>
    unfold finish
    split
    · simp only [Forfeits, forfeited, uncountedDiscards, uncountedUndelivered, loop, arrived]
      omega
    · simp only [Forfeits, forfeited, uncountedDiscards, uncountedUndelivered, loop, arrived,
        Lifecycle.metrics_finish, Metrics.Aggregate.recordInterrupted, Metrics.Aggregate.extendHorizon]
      omega

theorem forfeits_work (r : Run) (i : Nat) : r.Forfeits (r.work i) 0 := by
  obtain ⟨pool, workers, random, hwork⟩ := r.work_frame i
  rw [hwork]
  refine forfeits_of_follows rfl rfl ?_ (r.scheduler.dispatcher.follows_pool pool)
  cases r.outcome? (.work i) with
  | none => rfl
  | some o => simp only [Option.elim_some, Lifecycle.metrics_emit, Metrics.Aggregate.ingest]

/-- **Whatever leaves the queue after a stop is forfeited**, step by step. -/
theorem forfeits_step (stopped : r.life.stopped = true) (op : RunOp) : r.Forfeits (r.step op) (r.cut op) := by
  have hrefl := r.scheduler.dispatcher.follows_pool r.scheduler.dispatcher.pool
  have hother (hloop : (r.step op).loop = r.loop) (h : r.Forfeits (r.step op) 0) :
      r.Forfeits (r.step op) (r.cut op) := by
    rw [cut_of_loop hloop]
    exact h
  cases op with
  | pass span => exact hother rfl (forfeits_of_follows rfl rfl rfl hrefl)
  | schedule =>
    have hfollows := r.scheduler.follows_step r.now r.life.stopped
    exact hother rfl (forfeits_of_follows rfl rfl rfl hfollows)
  | proceed => exact forfeits_proceed stopped
  | work i =>
    obtain ⟨pool, workers, random, hwork⟩ := r.work_frame i
    have hloop : (r.work i).loop = r.loop := by rw [hwork]
    exact hother hloop (r.forfeits_work i)
  | cancel reason =>
    exact hother rfl (forfeits_of_follows rfl rfl (congrArg _ (r.life.metrics_cancel reason)) hrefl)
  | abort reason =>
    exact hother rfl (forfeits_of_follows rfl rfl (congrArg _ (r.life.metrics_abort reason)) hrefl)

theorem forfeits_steps (stopped : r.life.stopped = true) (ops : List RunOp) :
    r.Forfeits (r.steps ops) (r.cuts ops) := by
  induction ops generalizing r with
  | nil => rfl
  | cons op ops ih =>
    have hfirst := forfeits_step stopped op
    have hrest := ih (stopped_step stopped op)
    have hsteps : r.steps (op :: ops) = (r.step op).steps ops := rfl
    unfold Forfeits at hfirst hrest ⊢
    rw [hsteps, cuts]
    omega

end Run

/-! ## Runs -/

namespace Lifecycle

open Delivery

variable {l : Lifecycle} {s : Scenario} {peer : Peer} {calls : List Call} {t : Timeline}

theorem owned_timeline (ht : l.timeline s peer calls = .ok t) (ops : List RunOp) :
    (ofRun (t.run.steps ops)).Owned s.model.poolBounds.1 s.model.poolBounds.2 := by
  obtain ⟨-, life, -, hrun⟩ := timeline_cases ht
  rw [hrun]
  exact owned_steps s peer life ops

/-- every worker holds a slot -/
theorem owing_le (ht : l.timeline s peer calls = .ok t) (ops : List RunOp) :
    (t.run.steps ops).owing ≤ s.model.poolBounds.2 := by
  have howned := owned_timeline ht ops
  set r := t.run.steps ops
  have hactive : (ofRun r).pool.active = ((ofRun r).scheduler.pending ++ (ofRun r).held).length := by
    rw [howned.lent.active, List.length_map]
    rfl
  have hheld : (ofRun r).held.length = r.workers.length := List.length_map _
  have howing : r.owing ≤ r.workers.length := List.countP_le_length
  have hle := howned.active_le
  rw [List.length_append] at hactive
  omega

/-- what is pending when a stop comes stays so, or gives its slot back -/
theorem pending_of_stopped (ht : l.timeline s peer calls = .ok t) {ops : List RunOp}
    (stopped : (t.run.steps ops).life.stopped = true) (more : List RunOp) :
    let r := t.run.steps ops
    let r' := r.steps more
    r'.scheduler.pending.Sublist r.scheduler.pending ∧
    ∀ e ∈ r.scheduler.pending, e ∈ r'.scheduler.pending ∨ e.slot ∈ r'.scheduler.dispatcher.pool.idle := by
  intro r r'
  have howned := owned_timeline ht ops
  obtain ⟨ops', hops⟩ := exists_ops r more
  have hstopped : (ofRun r).stopped = true := stopped
  have hleaves := leaves_run hstopped ops'
  rw [hops] at hleaves
  refine ⟨hleaves.pending, fun e he => ?_⟩
  rcases hleaves.events e (List.mem_append_left _ he) with hevent | hidle
  · rcases List.mem_append.1 hevent with hpending | hheld
    · exact .inl hpending
    · -- no worker is started, and no iteration is both pending and with a worker
      have hworker : e ∈ (ofRun r).held := (Run.held_steps stopped more).subset hheld
      have hnodup : ((ofRun r).scheduler.pending.map Dispatch.slot ++ (ofRun r).held.map Dispatch.slot).Nodup := by
        rw [← List.map_append]
        exact howned.lent.nodup
      have hdisjoint := (List.nodup_append.1 hnodup).2.2
      exact absurd rfl
        (hdisjoint _ (List.mem_map_of_mem he) _ (List.mem_map_of_mem hworker))
  · exact .inr hidle

/-- a report has counted everything that was forfeited, and nothing is pending -/
theorem report_forfeited {r : Run} {twice : Nat} (h : r.Accounted twice) {rep : Report} (hr : r.report? = some rep) :
    r.scheduler.pending = [] ∧ rep.snapshot.interrupted = r.forfeited := by
  unfold Run.report? at hr
  split at hr
  · rename_i duration snapshot hl
    cases hr
    obtain ⟨hover, hclosed, hsnapshot⟩ := h.finished _ _ hl
    have hwaiting : r.scheduler.waiting? = none := by
      cases hw : r.scheduler.waiting? with
      | none => rfl
      | some e =>
        obtain ⟨ramp, hsource⟩ := Scheduler.waiting?_eq_some.1 hw
        rw [Scheduler.isOver, hsource] at hover
        cases hover
    refine ⟨?_, ?_⟩
    · rw [Scheduler.pending_of_handless hwaiting, h.closed hclosed]
    · rw [hsnapshot]
      simp only [Run.forfeited, Run.uncountedDiscards, Run.uncountedUndelivered, hl]
      rfl
  · cases hr

/-- **Nothing starts after a stop.** The parts of a run go on in any order, and at some moment a stop comes, by a
cancel, an abort or a streak of failures. From then on no worker is started and no slot is handed out: the workers are
those that were there, and so are the iterations in the queue or waiting for room in it, in their order; each of these
is pending until its slot is idle. Whatever leaves the queue is counted as interrupted, as are the workers that are cut
short, and a report has nothing pending and has counted all of them. No more outcomes are taken in than the pool has
slots, and one less if an outcome brought the stop. -/
theorem stop_starts_nothing (fresh : l.metrics = {}) (ht : l.timeline s peer calls = .ok t) (ops : List RunOp) :
    let r := t.run.steps ops
    (r.life.stopped = true → ∀ more,
      let r' := r.steps more
      (r'.workers.map Worker.dispatch).Sublist (r.workers.map Worker.dispatch) ∧
      r'.scheduler.pending.Sublist r.scheduler.pending ∧
      (∀ e ∈ r.scheduler.pending, e ∈ r'.scheduler.pending ∨ e.slot ∈ r'.scheduler.dispatcher.pool.idle) ∧
      r.Forfeits r' (r.cuts more) ∧
      (∀ rep, r'.report? = some rep → r'.scheduler.pending = [] ∧ rep.snapshot.interrupted = r'.forfeited) ∧
      (r.outcomes more).length ≤ s.model.poolBounds.2 ∧
      r'.life.metrics.snapshot.iterations = r.life.metrics.snapshot.iterations + (r.outcomes more).length) ∧
    ∀ op o, r.outcome? op = some o → (r.step op).life.stopped = true → ∀ more,
      ((r.step op).outcomes more).length + 1 ≤ s.model.poolBounds.2 := by
  intro r
  have howing : r.owing ≤ s.model.poolBounds.2 := owing_le ht ops
  refine ⟨fun stopped more => ?_, fun op o emitted stopped more => ?_⟩
  · intro r'
    obtain ⟨hpending, hslots⟩ := pending_of_stopped ht stopped more
    have haccounted := Run.accounted_steps (Run.accounted_steps (timeline_accounted fresh ht) ops) more
    have houtcomes := Run.outcomes_le_owing stopped more
    refine ⟨Run.held_steps stopped more, hpending, hslots, Run.forfeits_steps stopped more,
      fun rep hr => report_forfeited haccounted hr, by omega, ?_⟩
    have hiterations := Run.counts_steps Metrics.counts_iterations r more
    rwa [List.countP_true] at hiterations
  · have houtcomes := Run.outcomes_le_owing stopped more
    have hstep : (r.outcome? op).toList.length + (r.step op).owing ≤ r.owing := by
      cases op with
      | work i => exact Run.owing_work r i
      | _ => cases emitted
    rw [emitted, Option.toList_some, List.length_singleton] at hstep
    omega

/-- two virtual users for a second -/
def pair : Scenario :=
  { pausing with model := .constantVus 2 (.ofSecs 1) }

/-- one iteration is with a worker and one is in the queue when a caller has enough -/
def untilEnough : List RunOp :=
  [.schedule, .schedule, .proceed, .schedule, .schedule, .cancel "enough"]

/-- the worker emits its outcome and pauses, and the drain cuts the pause short -/
def afterEnough : List RunOp :=
  [.work 0, .work 0, .schedule, .proceed, .proceed, .pass (.ofSecs 1), .proceed, .proceed, .proceed]

/-- whether there was a stop and how many iterations were pending then; outcomes and interrupted iterations at the end
-/
def overshoot (r : Run) : Bool × Nat × Nat × Option Nat :=
  (r.life.stopped, r.scheduler.pending.length, (r.outcomes afterEnough).length,
    (r.steps afterEnough).report?.map fun rep => rep.snapshot.interrupted)

/-- the general theorem at these steps: the iteration in the queue and the pause are counted as interrupted -/
theorem stop_starts_nothing_pair :
    ∃ t, (ofScenario pair).timeline pair silent [] = .ok t ∧
      overshoot (t.run.steps untilEnough) = (true, 1, 1, some 2) ∧
      ((t.run.steps untilEnough).outcomes afterEnough).length ≤ pair.model.poolBounds.2 := by
  have hrun : ((ofScenario pair).timeline pair silent []).toOption.map
      (fun t => overshoot (t.run.steps untilEnough)) = some (true, 1, 1, some 2) := by
    decide +kernel
  cases ht : (ofScenario pair).timeline pair silent [] with
  | error e =>
    rw [ht] at hrun
    cases hrun
  | ok t =>
    rw [ht] at hrun
    have hovershoot : overshoot (t.run.steps untilEnough) = (true, 1, 1, some 2) := Option.some.inj hrun
    have hstopped : (t.run.steps untilEnough).life.stopped = true := congrArg Prod.fst hovershoot
    have hfresh : (ofScenario pair).metrics = {} := rfl
    obtain ⟨-, -, -, -, -, houtcomes, -⟩ := (stop_starts_nothing hfresh ht untilEnough).1 hstopped afterEnough
    exact ⟨t, rfl, hovershoot, houtcomes⟩

end Lifecycle

end LoadGen
