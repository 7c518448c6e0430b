/-
The deadlines of a run on virtual time. Time passes only while no part of the run can go on, and then no further than to
the first instant that is waited for. While a run dispatches there is one before the end of its model, and before every
call that is still to come; while it drains there is the end of the drain. So neither phase outlasts its deadline,
however long the workers take.

- `Happens`: the next thing to happen is a call that is due, or what a part of the run does.
- `Paced`: the invariant of a run on virtual time: its stages, its slots, its source, the last look at a ramp, and the
  order of the calls.
- `Rests`: a run in which no part can go on dispatches without having been stopped, or drains.
- `Announced`, `Condemned`: dispatching, or the whole run, is to end by an instant.
- `exists_timer_le`, `exists_timer_le_abort`: then something is waited for by that instant.
- `Run.Keeps`, `Run.Within`: dispatching, or the whole run, goes on until an instant at most, as it does after every
  step that takes no time.
-/
import LoadGen.Proofs.Run.Source
import LoadGen.Proofs.Run.Stopping

namespace LoadGen

/-! ## The clock -/

namespace Run

variable {r : Run} {op : RunOp}

/-- only time moves the clock -/
theorem now_step (r : Run) (hop : ∀ span, op ≠ .pass span) : (r.step op).now = r.now := by
  cases op with
  | pass span => exact absurd rfl (hop span)
  | schedule | cancel | abort => rfl
  | work i =>
    obtain ⟨pool, workers, random, hframe⟩ := r.work_frame i
    have hstep : r.step (.work i) = _ := hframe
    rw [hstep]
  | proceed =>
    obtain ⟨dispatcher, life, loop, workers, discarded, hframe, -, -⟩ := r.proceed_frame
    have hstep : r.step .proceed = _ := hframe
    rw [hstep]

theorem le_now_step (r : Run) (op : RunOp) : r.now ≤ (r.step op).now := by
  by_cases hop : ∃ span, op = .pass span
  · obtain ⟨span, rfl⟩ := hop
    exact Duration.le_add_right r.now span
  · rw [r.now_step fun span h => hop ⟨span, h⟩]
    exact Nat.le_refl _

end Run

namespace Timeline

variable {t : Timeline} {op : RunOp}

/-! ## What happens next -/

/-- what happens in a run that is not over: a call that is due, or what comes next if nobody calls -/
inductive Happens (t : Timeline) : RunOp → Prop where
  | call (c : Call) (rest : List Call) (calls : t.calls = c :: rest) (due : c.due ≤ t.run.now) : Happens t c.op
  | part (op : RunOp) (early : ∀ c ∈ t.calls.head?, t.run.now < c.due) (internal : t.internal? = some op) :
      Happens t op

theorem happens (h : t.nextOp? = some op) : t.run.loop.isOver = false ∧ t.Happens op := by
  unfold nextOp? at h
  split at h
  · cases h
  · rename_i hlive
    refine ⟨Bool.not_eq_true _ ▸ hlive, ?_⟩
    split at h
    · rename_i c rest hcalls
      split at h
      · rename_i hdue
        cases h
        exact .call c rest hcalls hdue
      · rename_i hdue
        refine .part op (fun d hd => ?_) h
        rw [hcalls] at hd
        cases hd
        exact Nat.lt_of_not_le hdue
    · rename_i hcalls
      refine .part op (fun d hd => ?_) h
      rw [hcalls] at hd
      cases hd

/-- a part of a run that goes on, or the passing of time, is no call -/
theorem calls_internal (h : t.internal? = some op) : (t.step op).calls = t.calls := by
  have hnext := t.next
  rw [h] at hnext
  cases hnext with
  | proceed | schedule | work => rfl
  | idle _ idle passes =>
    obtain ⟨span, instant, rfl, -⟩ := pass?_eq_some passes
    rfl

theorem calls_call (c : Call) : (t.step c.op).calls = t.calls.tail := by
  unfold Call.op
  split <;> rfl

/-- what happens changes nothing about the scenario -/
theorem scenario_step (t : Timeline) (op : RunOp) : (t.step op).run.scenario = t.run.scenario :=
  (t.run.setting_step op).1

/-! ## The pace of a run -/

/-- a run on virtual time whose callers call in the order of their instants -/
structure Paced (t : Timeline) : Prop where
  staged : t.run.Staged
  traced : ∃ failFast past, Lifecycle.Traced failFast past t.run.life
  owned : (Delivery.ofRun t.run).Owned t.run.scenario.model.poolBounds.1 t.run.scenario.model.poolBounds.2
  serves : t.run.scheduler.source.Serves t.run.scenario.model
  /-- a closed loop has looked at its ramp before the end of its model -/
  looked : ∀ ramp turn, t.run.scheduler.source = .closed ramp turn →
    t.looked ≤ t.run.now ∧ t.looked < t.run.scenario.model.totalDuration
  ordered : t.calls.Pairwise fun a b => a.due ≤ b.due

end Timeline

/-- a closed loop was one before -/
theorem Scheduler.closed_of_step {s : Scheduler} {now : Duration} {stopped : Bool} {ramp : Ramp} {turn : Turn}
    (h : (s.step now stopped).source = .closed ramp turn) : ∃ turn', s.source = .closed ramp turn' := by
  have hacts := s.acts_step now stopped
  generalize s.step now stopped = s' at hacts h
  have hnext (seq : Nat) (next : NextArrival Arrivals) : Source.ofNext seq next ≠ .closed ramp turn := by
    cases next <;> exact fun h => by cases h
  cases hacts with
  | stay => exact ⟨turn, h⟩
  | halt | decline | withdraw => cases h
  | lose | overflow | serve => exact absurd h (hnext _ _)
  | look ramp' source | again ramp' _ _ source | claim ramp' _ _ source | hold ramp' _ _ source
  | hand ramp' _ source =>
    cases h
    exact ⟨_, source⟩

namespace Timeline

variable {t : Timeline} {op : RunOp}

namespace Paced

/-- a closed loop that looks at its ramp finds it going on, or is over -/
theorem looked_schedule (h : t.Paced) {ramp : Ramp} {turn : Turn}
    (source : (t.step .schedule).run.scheduler.source = .closed ramp turn) :
    (t.step .schedule).looked ≤ t.run.now ∧ (t.step .schedule).looked < t.run.scenario.model.totalDuration := by
  obtain ⟨turn', hbefore⟩ := Scheduler.closed_of_step
    (show (t.run.scheduler.step t.run.now t.run.life.stopped).source = .closed ramp turn from source)
  obtain ⟨closed, hramp, -⟩ := show (Source.closed ramp turn').Serves _ from hbefore ▸ h.serves
  cases turn' with
  | look =>
    have hlooked : (t.step .schedule).looked = t.run.now := by
      simp only [step, Scheduler.isLooking, hbefore, if_true]
    have hsource : (t.run.scheduler.step t.run.now t.run.life.stopped).source = .closed ramp turn := source
    unfold Scheduler.step at hsource
    simp only [hbefore] at hsource
    split at hsource
    · cases hsource
    · rename_i hlive
      rw [Bool.or_eq_true, not_or] at hlive
      have hbound : t.run.now < ramp.totalDuration := Nat.lt_of_not_le fun hle => hlive.2 (decide_eq_true hle)
      rw [hlooked, ← Delivery.totalDuration_ramp closed, ← hramp]
      exact ⟨Nat.le_refl _, hbound⟩
  | claim | hand =>
    have hlooked : (t.step .schedule).looked = t.looked := by
      simp only [step, Scheduler.isLooking, hbefore, Bool.false_eq_true, if_false]
    rw [hlooked]
    exact h.looked ramp _ hbefore

theorem looked_step (h : t.Paced) (op : RunOp) {ramp : Ramp} {turn : Turn}
    (source : (t.step op).run.scheduler.source = .closed ramp turn) :
    (t.step op).looked ≤ (t.step op).run.now ∧ (t.step op).looked < t.run.scenario.model.totalDuration := by
  by_cases hop : op = .schedule
  · subst hop
    exact h.looked_schedule source
  · have hlooked : (t.step op).looked = t.looked := by cases op <;> first | rfl | exact absurd rfl hop
    have hsource : t.run.scheduler.source = .closed ramp turn := by
      rw [← t.run.source_step hop]
      exact source
    obtain ⟨hpast, hbefore⟩ := h.looked ramp turn hsource
    rw [hlooked]
    exact ⟨Nat.le_trans hpast (t.run.le_now_step op), hbefore⟩

/-- **A step keeps the pace.** -/
theorem step (h : t.Paced) (op : RunOp) : (t.step op).Paced := by
  have hscenario := t.scenario_step op
  obtain ⟨failFast, past, htraced⟩ := h.traced
  refine ⟨h.staged.step op, ⟨failFast, _, Run.traced_step htraced op⟩, ?_, ?_, ?_, ?_⟩
  · rw [hscenario]
    obtain ⟨ops, hops⟩ := Delivery.exists_ops t.run [op]
    have howned := h.owned.run ops
    rw [hops] at howned
    exact howned
  · rw [hscenario]
    exact Run.serves_run_step h.serves op
  · rw [hscenario]
    intro ramp turn source
    exact h.looked_step op source
  · have htail : (t.step op).calls = t.calls ∨ (t.step op).calls = t.calls.tail := by
      cases op with
      | cancel | abort => exact .inr rfl
      | pass | schedule | proceed | work => exact .inl rfl
    rcases htail with hcalls | hcalls
    · rw [hcalls]
      exact h.ordered
    · rw [hcalls]
      exact h.ordered.tail

/-- an abort is a stop -/
theorem stopped_of_aborted (h : t.Paced) (aborted : t.run.life.aborted = true) : t.run.life.stopped = true := by
  obtain ⟨failFast, past, htraced⟩ := h.traced
  exact htraced.aborted aborted

/-- a run that is not over is not in its last phase -/
theorem isTerminal_eq (h : t.Paced) (live : t.run.loop.isOver = false) : t.run.life.phase.isTerminal = false := by
  rw [h.staged.phase.isTerminal]
  cases hl : t.run.loop with
  | dispatching | draining | closing => rfl
  | finished | failed =>
    rw [hl] at live
    cases live

/-- a queue without iterations has room -/
theorem isFull_eq (h : t.Paced) (empty : t.run.scheduler.dispatcher.queue = []) :
    t.run.scheduler.dispatcher.isFull = false := by
  have hcapacity : t.run.scheduler.dispatcher.capacity = _ := h.owned.capacity
  simp only [Dispatcher.isFull, empty, List.length_nil, hcapacity, decide_eq_false_iff_not]
  omega

/-- an iteration waits for room only while there is none and somebody listens -/
theorem handless_of_ready (hidle : t.isSchedulerReady = false)
    (room : t.run.scheduler.dispatcher.isClosed = true ∨ t.run.scheduler.dispatcher.isFull = false) (ramp : Ramp)
    (e : Dispatch) : t.run.scheduler.source ≠ .closed ramp (.hand e) := by
  intro hsource
  have hready : t.isSchedulerReady = true := by
    simp only [isSchedulerReady, Scheduler.isReady, Scheduler.isLooking, hsource, Bool.not_false, Bool.true_or,
      Bool.and_true]
    rcases room with hclosed | hroom
    · rw [hclosed, Bool.true_or]
    · rw [hroom, Bool.not_false, Bool.or_true]
  rw [hready] at hidle
  cases hidle

/-- a scheduler that was stopped goes on until it is over -/
theorem stopped_of_idle (hidle : t.isSchedulerReady = false) (live : t.run.scheduler.isOver = false)
    (room : t.run.scheduler.dispatcher.isClosed = true ∨ t.run.scheduler.dispatcher.isFull = false) :
    t.run.life.stopped = false := by
  cases hstopped : t.run.life.stopped with
  | false => rfl
  | true =>
    have hready := Scheduler.isReady_of_stopped (handless_of_ready hidle room) live t.run.now
    simp only [isSchedulerReady, hstopped, hready, Bool.or_true, Bool.true_or, Bool.and_true, Bool.true_eq_false]
      at hidle

end Paced

/-! ## While time passes -/

/-- a run in which no part can go on -/
inductive Rests (t : Timeline) : Prop where
  /-- it dispatches, and nobody has asked for a stop -/
  | dispatching (loop : t.run.loop = .dispatching) (running : t.run.life.stopped = false)
      (live : t.run.scheduler.isOver = false) (empty : t.run.scheduler.dispatcher.queue = [])
  /-- it drains, and nobody has asked for an abort -/
  | draining (deadline : Duration) (loop : t.run.loop = .draining deadline) (running : t.run.life.aborted = false)
      (exhausted : t.run.scheduler.isOver = true) (later : t.run.now < deadline)

theorem Paced.rests (h : t.Paced) (hidle : t.IsIdle) (live : t.run.loop.isOver = false) : t.Rests := by
  have hloop := hidle.loop
  unfold Run.isLoopReady at hloop
  cases hl : t.run.loop with
  | dispatching =>
    simp only [hl, Bool.or_eq_false_iff, Bool.not_eq_false', List.isEmpty_iff] at hloop
    obtain ⟨⟨-, hempty⟩, hover⟩ := hloop
    exact .dispatching hl (Paced.stopped_of_idle hidle.scheduler hover (.inr (h.isFull_eq hempty))) hover hempty
  | draining deadline =>
    simp only [hl, Bool.or_eq_false_iff, decide_eq_false_iff_not] at hloop
    obtain ⟨⟨haborted, -⟩, hlater⟩ := hloop
    have hover : t.run.scheduler.isOver = true := by
      rcases h.staged.ended with hdispatching | hover | habort
      · rw [hl] at hdispatching
        cases hdispatching
      · exact hover
      · rw [haborted] at habort
        cases habort
    exact .draining deadline hl haborted hover (Nat.lt_of_not_le hlater)
  | closing =>
    -- the scheduler of an aborted run goes on until it is over
    simp only [hl, Bool.or_eq_false_iff, Bool.not_eq_false'] at hloop
    obtain ⟨hclosed, hover⟩ := hloop
    have hrunning := Paced.stopped_of_idle hidle.scheduler hover (.inl hclosed)
    rcases h.staged.ended with hdispatching | hover' | habort
    · rw [hl] at hdispatching
      cases hdispatching
    · rw [hover] at hover'
      cases hover'
    · rw [h.stopped_of_aborted habort] at hrunning
      cases hrunning
  | finished | failed =>
    rw [hl] at live
    cases live

/-- what the scheduler waits for is waited for -/
theorem mem_timers_of_scheduler {d : Duration} (h : t.run.scheduler.timer? = some d) : d ∈ t.timers := by
  simp only [timers, List.mem_append, h, Option.toList_some, List.mem_singleton]
  exact .inl (.inl (.inl (.inr trivial)))

/-- the end of the drain is waited for -/
theorem mem_timers_of_draining {deadline : Duration} (h : t.run.loop = .draining deadline) : deadline ∈ t.timers := by
  simp only [timers, List.mem_append, h, List.mem_singleton]
  exact .inl (.inr trivial)

/-- the next call is waited for, and it comes no later than any other -/
theorem Paced.exists_timer_le_call (h : t.Paced) {c : Call} (hc : c ∈ t.calls) : ∃ d ∈ t.timers, d ≤ c.due := by
  have hordered := h.ordered
  cases hcalls : t.calls with
  | nil =>
    rw [hcalls] at hc
    cases hc
  | cons first rest =>
    rw [hcalls] at hc hordered
    refine ⟨first.due, ?_, ?_⟩
    · simp only [timers, List.mem_append, hcalls, List.head?_cons, Option.map_some, Option.toList_some,
        List.mem_singleton]
      exact .inl (.inl (.inl (.inl trivial)))
    · rcases List.mem_cons.1 hc with rfl | hc
      · exact Nat.le_refl _
      · exact (List.pairwise_cons.1 hordered).1 c hc

/-- **A run that dispatches waits for something before the end of its model.** -/
theorem Paced.exists_timer_le_total (h : t.Paced) (hidle : t.IsIdle) (running : t.run.life.stopped = false)
    (live : t.run.scheduler.isOver = false) (empty : t.run.scheduler.dispatcher.queue = []) :
    ∃ d ∈ t.timers, d ≤ t.run.scenario.model.totalDuration := by
  have hserves := h.serves
  cases hsource : t.run.scheduler.source with
  | exhausted | broken =>
    rw [Scheduler.isOver, hsource] at live
    cases live
  | «open» due rest seq =>
    rw [hsource] at hserves
    refine ⟨due, mem_timers_of_scheduler (by rw [Scheduler.timer?, hsource]), Nat.le_of_lt hserves.due_lt⟩
  | closed ramp turn =>
    rw [hsource] at hserves
    obtain ⟨-, -, hclaim⟩ := hserves
    cases turn with
    | look =>
      -- it has looked right now, before the end, and looks again an instant later
      obtain ⟨-, hbefore⟩ := h.looked ramp .look hsource
      have hready := hidle.scheduler
      have hnow : ¬ t.looked < t.run.now := by
        simpa [isSchedulerReady, Scheduler.isReady, Scheduler.isLooking, hsource, running] using hready
      refine ⟨t.run.now + Timeline.instant, ?_, ?_⟩
      · simp only [timers, List.mem_append, Scheduler.isLooking, hsource, if_true, List.mem_singleton]
        exact .inl (.inl (.inr trivial))
      · have hinstant : Timeline.instant.nanos = 1 := rfl
        rw [Duration.lt_iff] at hbefore hnow
        rw [Duration.le_iff, Duration.nanos_add]
        omega
    | claim target deadline =>
      exact ⟨deadline, mem_timers_of_scheduler (by rw [Scheduler.timer?, hsource]), hclaim target deadline rfl⟩
    | hand e => exact absurd hsource (Paced.handless_of_ready hidle.scheduler (.inr (h.isFull_eq empty)) ramp e)

/-! ## Ends that are announced -/

/-- dispatching is to end by an instant: the model ends by then, a stop was asked for, or somebody will ask for one -/
def Announced (instant : Duration) (t : Timeline) : Prop :=
  t.run.scenario.model.totalDuration ≤ instant ∨ t.run.life.stopped = true ∨ ∃ c ∈ t.calls, c.due ≤ instant

/-- the run is to end by an instant: an abort was asked for, or somebody will ask for one -/
def Condemned (instant : Duration) (t : Timeline) : Prop :=
  t.run.life.aborted = true ∨ ∃ c ∈ t.calls, c.isAbort = true ∧ c.due ≤ instant

/-- a call on a run that is not over asks for a stop, and an abort for an abort -/
theorem Paced.life_call (h : t.Paced) (live : t.run.loop.isOver = false) (c : Call) :
    (t.step c.op).run.life.stopped = true ∧ (c.isAbort = true → (t.step c.op).run.life.aborted = true) := by
  have hphase := h.isTerminal_eq live
  unfold Call.op
  cases c.isAbort with
  | false =>
    refine ⟨?_, fun h => by cases h⟩
    show (t.run.life.cancel c.reason).1.stopped = true
    rw [Lifecycle.cancel_of_live hphase]
  | true =>
    refine ⟨?_, fun _ => ?_⟩
    · show (t.run.life.abort c.reason).1.stopped = true
      rw [Lifecycle.abort_of_live hphase]
    · show (t.run.life.abort c.reason).1.aborted = true
      rw [Lifecycle.abort_of_live hphase]

variable {instant : Duration}

theorem Paced.announced_step (h : t.Paced) (hend : t.Announced instant) (hop : t.nextOp? = some op) :
    (t.step op).Announced instant := by
  obtain ⟨hlive, hhappens⟩ := happens hop
  rcases hend with htotal | hstopped | ⟨c, hc, hdue⟩
  · left
    rw [t.scenario_step op]
    exact htotal
  · exact .inr (.inl (Run.stopped_step hstopped op))
  · cases hhappens with
    | call d rest hcalls => exact .inr (.inl (h.life_call hlive d).1)
    | part _ _ internal => exact .inr (.inr ⟨c, (calls_internal internal).symm ▸ hc, hdue⟩)

theorem Paced.condemned_step (h : t.Paced) (hend : t.Condemned instant) (hop : t.nextOp? = some op) :
    (t.step op).Condemned instant := by
  obtain ⟨hlive, hhappens⟩ := happens hop
  rcases hend with haborted | ⟨c, hc, habort, hdue⟩
  · exact .inl (Run.aborted_step haborted op)
  · cases hhappens with
    | call d rest hcalls =>
      rw [hcalls] at hc
      rcases List.mem_cons.1 hc with rfl | hc
      · exact .inl ((h.life_call hlive c).2 habort)
      · refine .inr ⟨c, ?_, habort, hdue⟩
        rw [calls_call, hcalls]
        exact hc
    | part _ _ internal => exact .inr ⟨c, (calls_internal internal).symm ▸ hc, habort, hdue⟩

/-- **While a run dispatches, its end is waited for.** -/
theorem Paced.exists_timer_le (h : t.Paced) (hidle : t.IsIdle) (loop : t.run.loop = .dispatching)
    (hend : t.Announced instant) : ∃ d ∈ t.timers, d ≤ instant := by
  cases h.rests hidle (by rw [loop]; rfl) with
  | draining deadline hl =>
    rw [loop] at hl
    cases hl
  | dispatching _ running live empty =>
    rcases hend with htotal | hstopped | ⟨c, hc, hdue⟩
    · obtain ⟨d, hd, hle⟩ := h.exists_timer_le_total hidle running live empty
      exact ⟨d, hd, Nat.le_trans hle htotal⟩
    · rw [running] at hstopped
      cases hstopped
    · obtain ⟨d, hd, hle⟩ := h.exists_timer_le_call hc
      exact ⟨d, hd, Nat.le_trans hle hdue⟩

/-- while a run goes on its abort is waited for -/
theorem Paced.exists_timer_le_abort (h : t.Paced) (hidle : t.IsIdle) (live : t.run.loop.isOver = false)
    (hend : t.Condemned instant) : ∃ d ∈ t.timers, d ≤ instant := by
  rcases hend with haborted | ⟨c, hc, -, hdue⟩
  · cases h.rests hidle live with
    | dispatching _ running =>
      rw [h.stopped_of_aborted haborted] at running
      cases running
    | draining _ _ running =>
      rw [haborted] at running
      cases running
  · obtain ⟨d, hd, hle⟩ := h.exists_timer_le_call hc
    exact ⟨d, hd, Nat.le_trans hle hdue⟩

/-- time passes no further than to what is waited for, and not back -/
theorem now_pass_le {span d : Duration} (hop : t.pass? = some (.pass span)) (hd : d ∈ t.timers)
    (hdue : d ≤ instant) (hnow : t.run.now ≤ instant) : (t.step (.pass span)).run.now ≤ instant := by
  obtain ⟨span', first, heq, -, hfirst, hclock⟩ := pass?_eq_some hop
  cases heq
  have hle := hfirst d hd
  show t.run.now + span ≤ instant
  rw [Duration.le_iff] at hle hdue hnow ⊢
  omega

end Timeline

/-! ## Runs that keep to their end -/

namespace Run

variable {r : Run} {op : RunOp} {instant : Duration}

/-- the run dispatches until an instant at most, and drains for the graceful stop at most -/
structure Keeps (instant : Duration) (r : Run) : Prop where
  dispatching : r.loop = .dispatching → r.now ≤ instant
  draining : ∀ deadline, r.loop = .draining deadline →
    r.now ≤ deadline ∧ deadline ≤ instant + r.scenario.gracefulStop

/-- the run goes on until an instant at most -/
structure Within (instant : Duration) (r : Run) : Prop where
  now : r.now ≤ instant
  finished : ∀ duration snapshot, r.loop = .finished duration snapshot → duration ≤ instant

theorem Keeps.proceed (h : r.Keeps instant) : r.proceed.Keeps instant := by
  have hp := r.proceeds
  generalize r.proceed = r' at hp ⊢
  cases hp with
  | stay => exact h
  | drain loop =>
    refine ⟨fun hl => (by cases hl), fun deadline hl => ?_⟩
    have hdeadline : r.now + r.scenario.gracefulStop = deadline := RunLoop.draining.inj hl
    rw [← hdeadline]
    exact ⟨Duration.le_add_right _ _, Duration.add_le_add (h.dispatching loop) (Nat.le_refl _)⟩
  | accept loop _ e rest =>
    unfold accept
    simp only
    split <;> exact ⟨h.dispatching, h.draining⟩
  | drained | interrupt => exact ⟨fun hl => (by cases hl), fun _ hl => (by cases hl)⟩
  | close => exact ⟨h.dispatching, h.draining⟩
  | finish =>
    unfold finish
    split <;> exact ⟨fun hl => (by cases hl), fun _ hl => (by cases hl)⟩

/-- a step that takes no time keeps to the end -/
theorem Keeps.step (h : r.Keeps instant) (hop : ∀ span, op ≠ .pass span) : (r.step op).Keeps instant := by
  by_cases hproceed : op = .proceed
  · rw [hproceed]
    exact h.proceed
  · have hloop := loop_step (r := r) hproceed
    have hscenario := (r.setting_step op).1
    refine ⟨fun hl => ?_, fun deadline hl => ?_⟩
    · rw [r.now_step hop]
      exact h.dispatching (hloop ▸ hl)
    · rw [r.now_step hop, hscenario]
      exact h.draining deadline (hloop ▸ hl)

theorem Within.proceed (h : r.Within instant) : r.proceed.Within instant := by
  have hp := r.proceeds
  generalize r.proceed = r' at hp ⊢
  cases hp with
  | stay => exact h
  | drain | drained | interrupt => exact ⟨h.now, fun _ _ hl => (by cases hl)⟩
  | accept loop _ e rest =>
    unfold accept
    simp only
    split <;> exact ⟨h.now, h.finished⟩
  | close => exact ⟨h.now, h.finished⟩
  | finish =>
    unfold finish
    split
    · exact ⟨h.now, fun _ _ hl => (by cases hl)⟩
    · refine ⟨h.now, fun duration snapshot hl => ?_⟩
      injection hl with hduration
      rw [← hduration]
      exact h.now

theorem Within.step (h : r.Within instant) (hop : ∀ span, op ≠ .pass span) : (r.step op).Within instant := by
  by_cases hproceed : op = .proceed
  · rw [hproceed]
    exact h.proceed
  · have hloop := loop_step (r := r) hproceed
    refine ⟨?_, fun duration snapshot hl => h.finished duration snapshot (hloop ▸ hl)⟩
    rw [r.now_step hop]
    exact h.now

end Run

end LoadGen
