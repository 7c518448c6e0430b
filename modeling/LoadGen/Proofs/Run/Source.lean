/-
What the iterations of a run come from. The checks of a scenario say what its run may take for granted; the scheduler,
the ramp, the arrivals and the workers have guards of their own for the cases that the checks exclude, and none of these
is ever reached.

- `Source.Serves`: the source is one that the model comes to: arrival `seq` of an open loop with those after it, or the
  model's own ramp, which a closed loop looks at again by its end.
- `serves_steps`: it stays so after any steps.
- `ConstantArrivals.pop?_eq_none_iff`: at a rate that is not zero arrivals end with their duration only.
- `runs_of_ofOptions`: what holds of every scenario that options describe, and of all its runs.
-/
import LoadGen.Proofs.Arrival.Instants
import LoadGen.Proofs.Run.Concurrency
import LoadGen.Proofs.Run.Stages
import LoadGen.Proofs.Scenario.Sound

namespace LoadGen

/-! ## The source of a model -/

namespace Source

/-- the source is one that the model comes to -/
def Serves (m : ArrivalModel) : Source → Prop
  | .open due rest seq => ∃ a, Arrivals.ofModel? m = some a ∧ a.nth seq = .due due rest
  | .closed ramp turn => Arrivals.ofModel? m = none ∧ ramp = Source.ramp m ∧
      ∀ target deadline, turn = .claim target deadline → deadline ≤ m.totalDuration
  | .broken => (Arrivals.ofModel? m).isSome
  | .exhausted => True

variable {m : ArrivalModel} {a : Arrivals}

theorem serves_ofNext (h : Arrivals.ofModel? m = some a) (seq : Nat) : (ofNext seq (a.nth seq)).Serves m := by
  cases hnth : a.nth seq with
  | due offset rest => exact ⟨a, h, hnth⟩
  | finished rest => trivial
  | unrepresentable =>
    show (Arrivals.ofModel? m).isSome
    rw [h]
    rfl

/-- a closed loop that does not wait for a slot has nothing to look at again -/
theorem serves_closed {turn : Turn} (closed : Arrivals.ofModel? m = none)
    (hturn : ∀ target deadline, turn ≠ .claim target deadline) : (Source.closed (Source.ramp m) turn).Serves m :=
  ⟨closed, rfl, fun target deadline h => absurd h (hturn target deadline)⟩

theorem serves_ofModel (m : ArrivalModel) : (ofModel m).Serves m := by
  unfold ofModel
  cases h : Arrivals.ofModel? m with
  | none => exact serves_closed h fun _ _ h => by cases h
  | some a => exact serves_ofNext h 0

/-- an arrival is due before the model ends -/
theorem Serves.due_lt {due : Duration} {rest : Arrivals} {seq : Nat} (h : (Source.open due rest seq).Serves m) :
    due < m.totalDuration := by
  obtain ⟨a, ha, hnth⟩ := h
  rw [← Arrivals.total_ofModel? ha]
  exact (Arrivals.nth_due hnth).2

/-- the arrival after the one that is due -/
theorem Serves.rest {due : Duration} {rest : Arrivals} {seq : Nat} (h : (Source.open due rest seq).Serves m) :
    (ofNext (seq + 1) rest.pop).Serves m := by
  obtain ⟨a, ha, hnth⟩ := h
  rw [← Arrivals.nth_succ hnth]
  exact serves_ofNext ha (seq + 1)

end Source

namespace Scheduler

variable {m : ArrivalModel} {s : Scheduler}

/-- **A step of the scheduler** leads from one source of a model to another. -/
theorem serves_step (h : s.source.Serves m) (now : Duration) (stopped : Bool) :
    (s.step now stopped).source.Serves m := by
  have hacts := s.acts_step now stopped
  generalize s.step now stopped = s' at hacts ⊢
  cases hacts with
  | stay => exact h
  | halt | decline | withdraw => trivial
  | look ramp source running live =>
    rw [source] at h
    obtain ⟨closed, rfl, -⟩ := h
    refine ⟨closed, rfl, fun target deadline hturn => ?_⟩
    cases hturn
    rw [← Delivery.totalDuration_ramp closed]
    exact Ramp.add_recheckIn_le live
  | again ramp target deadline source =>
    rw [source] at h
    obtain ⟨closed, rfl, -⟩ := h
    exact Source.serves_closed closed fun _ _ h => by cases h
  | lose due rest seq source | overflow due rest seq source | serve due rest seq source =>
    rw [source] at h
    exact h.rest
  | claim ramp target deadline source | hold ramp target deadline source =>
    rw [source] at h
    obtain ⟨closed, rfl, -⟩ := h
    exact Source.serves_closed closed fun _ _ h => by cases h
  | hand ramp e source =>
    rw [source] at h
    obtain ⟨closed, rfl, -⟩ := h
    exact Source.serves_closed closed fun _ _ h => by cases h

end Scheduler

namespace Run

variable {m : ArrivalModel} {r : Run}

theorem serves_run_step (h : r.scheduler.source.Serves m) (op : RunOp) : (r.step op).scheduler.source.Serves m := by
  by_cases hop : op = .schedule
  · subst hop
    exact Scheduler.serves_step h r.now r.life.stopped
  · rw [r.source_step hop]
    exact h

/-- **The source stays one of its model**, after any steps. -/
theorem serves_steps (h : r.scheduler.source.Serves m) (ops : List RunOp) :
    (r.steps ops).scheduler.source.Serves m := by
  induction ops generalizing r with
  | nil => exact h
  | cons op ops ih => exact ih (serves_run_step h op)

end Run

/-! ## Guards that are not reached -/

/-- at a rate that is not zero arrivals end with their duration only -/
theorem ConstantArrivals.pop?_eq_none_iff {c : ConstantArrivals} (h : 1 ≤ c.rate) :
    c.pop? = none ↔ c.duration.nanos ≤ c.offsetNanos c.next := by
  unfold pop?
  rw [if_neg (Nat.one_le_iff_ne_zero.1 h)]
  simp only [ite_eq_left_iff, reduceCtorEq, imp_false, Decidable.not_not]

/-- the first arrival at a constant rate is due at once -/
theorem Source.ofModel_of_rate {m : ArrivalModel} (h : m.Sound) {rate : Nat} (hrate : m.rate? = some rate) :
    ∃ rest, Source.ofModel m = .open .zero rest 0 := by
  cases m with
  | constantArrivalRate rate' timeUnit duration preAllocated maxVus =>
    have hsome : 1 ≤ rate' := h.rate rate' rfl
    have hlasts : 0 < duration.nanos := h.lasts
    set c : ConstantArrivals := ⟨rate', timeUnit, duration, 0⟩ with hc
    have hfirst : c.offsetNanos 0 = 0 := by
      rw [ConstantArrivals.offsetNanos, Nat.zero_mul, Nat.zero_min, Nat.zero_div]
    have hpop : c.pop? = some (.zero, { c with next := 1 }) := by
      unfold ConstantArrivals.pop?
      rw [if_neg (show c.rate ≠ 0 from Nat.one_le_iff_ne_zero.1 hsome)]
      simp only [show c.next = 0 from rfl, hfirst]
      rw [if_neg (Nat.not_le.2 hlasts)]
      rfl
    refine ⟨.constant { c with next := 1 }, ?_⟩
    simp only [Source.ofModel, Arrivals.ofModel?, Arrivals.pop, ← hc, hpop, Source.ofNext]
  | rampingArrivalRate | constantVus | rampingVus => cases hrate

/-- the arrivals of a model at a constant rate keep it -/
theorem Source.Serves.rate? {m : ArrivalModel} {due : Duration} {c : ConstantArrivals} {seq : Nat}
    (h : (Source.open due (.constant c) seq).Serves m) : m.rate? = some c.rate := by
  obtain ⟨a, ha, hnth⟩ := h
  cases m with
  | constantArrivalRate rate timeUnit duration preAllocated maxVus =>
    cases ha
    obtain ⟨-, hrest⟩ := Arrivals.nth_constant _ hnth
    cases hrest
    rfl
  | rampingArrivalRate =>
    cases ha
    obtain ⟨next, hrest⟩ := Arrivals.nth_ramping hnth
    cases hrest
  | constantVus | rampingVus => cases ha

/-! ## Scenarios from options -/

namespace Scenario

/-- the ramp of a sound closed-loop model has stages, each of which takes time -/
theorem stages_ramp {m : ArrivalModel} (h : m.Sound) (closed : Arrivals.ofModel? m = none) :
    (Source.ramp m).stages ≠ [] ∧ ∀ stage ∈ (Source.ramp m).stages, stage.duration.isZero = false := by
  cases m with
  | constantArrivalRate | rampingArrivalRate => cases closed
  | constantVus vus duration =>
    refine ⟨fun h => (by cases h), fun stage hstage => ?_⟩
    cases List.mem_singleton.1 hstage
    exact Duration.isZero_of_pos h.lasts
  | rampingVus startVus stages => exact ⟨ne_nil_of_stagesDuration_pos h.lasts, h.stages⟩

/-- a fresh pool of a sound model starts with the slots that it was asked to -/
theorem pool_init {m : ArrivalModel} (h : m.Sound) : (Scheduler.ofModel m).dispatcher.pool =
    ⟨m.poolBounds.2, 0, m.poolBounds.1, 0, List.range m.poolBounds.1⟩ := by
  show Pool.init m.poolBounds.1 m.poolBounds.2 = _
  unfold Pool.init
  rw [Nat.min_eq_left h.warm]

/-- a worker that begins sends a request of its scenario -/
theorem send_eq {r : Run} (h : r.scenario.requests ≠ []) (i : Nat) (w : Worker) :
    ∃ request ∈ r.scenario.requests, r.scenario.requestFor? w.dispatch.seq = some request ∧
      r.send i w = r.turn i w (r.sent w request) := by
  obtain ⟨request, hrequest⟩ := Option.isSome_iff_exists.1 (requestFor?_isSome h w.dispatch.seq)
  refine ⟨request, List.mem_of_getElem? hrequest, hrequest, ?_⟩
  unfold Run.send
  rw [hrequest]
  rfl

/-- **What passes the checks runs without the guards.** If options and overrides describe a scenario, its model is
sound: there is a slot, no more of them from the start than at most, so that the pool starts with all of these; it
lasts, each stage takes time, and so does the time unit of an open loop, whose constant rate is not zero. After any
steps of any of its runs: a worker that begins has a request to send, whichever its number; the ramp has a stage that
takes time at every instant, from which the target is interpolated; arrivals at a constant rate end with their duration
only. Of these the first is due at once, and it is what the run starts with. -/
theorem runs_of_ofOptions {o : ScenarioOptions} {v : Overrides} {s : Scenario} (h : Scenario.ofOptions o v = .ok s) :
    s.model.Sound ∧
    (Scheduler.ofModel s.model).dispatcher.pool =
      ⟨s.model.poolBounds.2, 0, s.model.poolBounds.1, 0, List.range s.model.poolBounds.1⟩ ∧
    (∀ rate, s.model.rate? = some rate → ∃ rest, Source.ofModel s.model = .open .zero rest 0) ∧
    ∀ (l : Lifecycle) (peer : Peer) (calls : List Call) (t : Timeline), l.timeline s peer calls = .ok t →
      t.run.scheduler = .ofModel s.model ∧
      ∀ ops,
        let r := t.run.steps ops
        (∀ i w, ∃ request ∈ s.requests, s.requestFor? w.dispatch.seq = some request ∧
          r.send i w = r.turn i w (r.sent w request)) ∧
        (∀ ramp turn, r.scheduler.source = .closed ramp turn → ∀ elapsed, ∃ segment,
          ramp.segment? elapsed = some segment ∧ segment.duration.isZero = false ∧
          ramp.targetAt elapsed = if ramp.isDone elapsed then segment.endTarget
            else min 18446744073709551615 (Ramp.Segment.targetAt segment elapsed)) ∧
        ∀ due c seq, r.scheduler.source = .open due (.constant c) seq →
          1 ≤ c.rate ∧ (c.pop? = none ↔ c.duration.nanos ≤ c.offsetNanos c.next) := by
  obtain ⟨-, -, -, -, -, -, -, hcheck, -⟩ := ofOptions_eq_ok_iff.1 h
  have hsound := sound_of_check hcheck
  have hrequests := requests_ne_nil hcheck
  refine ⟨hsound, pool_init hsound, fun rate => Source.ofModel_of_rate hsound, fun l peer calls t ht => ?_⟩
  obtain ⟨-, life, -, hrun⟩ := Lifecycle.timeline_cases ht
  refine ⟨by rw [hrun]; rfl, fun ops => ?_⟩
  intro r
  have hscenario : r.scenario = s := by
    rw [Run.scenario_steps, hrun]
    rfl
  have hserves : r.scheduler.source.Serves s.model := by
    refine Run.serves_steps ?_ ops
    rw [hrun]
    exact Source.serves_ofModel s.model
  refine ⟨fun i w => ?_, fun ramp turn hsource elapsed => ?_, fun due c seq hsource => ?_⟩
  · rw [← hscenario] at hrequests ⊢
    exact send_eq hrequests i w
  · rw [hsource] at hserves
    obtain ⟨closed, rfl, -⟩ := hserves
    obtain ⟨hsome, hlast⟩ := stages_ramp hsound closed
    exact Ramp.exists_segment? hsome hlast elapsed
  · rw [hsource] at hserves
    have hrate : 1 ≤ c.rate := hsound.rate c.rate hserves.rate?
    exact ⟨hrate, ConstantArrivals.pop?_eq_none_iff hrate⟩

/-- two requests a second for a second, with one slot from the start -/
def twice : ScenarioOptions where
  rate := some 2
  duration := some (.ofSecs 1)
  maxVus := some 3
  requests := [{ url := "http://shop/" }]

/-- the general theorem at these options -/
theorem runs_of_ofOptions_twice : ∃ s, Scenario.ofOptions twice {} = .ok s ∧
    s.model = .constantArrivalRate 2 (.ofSecs 1) (.ofSecs 1) 1 3 ∧ s.model.Sound ∧
    ∃ rest, Source.ofModel s.model = .open .zero rest 0 := by
  have hmodel : (Scenario.ofOptions twice {}).toOption.map Scenario.model =
      some (.constantArrivalRate 2 (.ofSecs 1) (.ofSecs 1) 1 3) := by decide +kernel
  cases h : Scenario.ofOptions twice {} with
  | error e =>
    rw [h] at hmodel
    cases hmodel
  | ok s =>
    rw [h] at hmodel
    have hs : s.model = .constantArrivalRate 2 (.ofSecs 1) (.ofSecs 1) 1 3 := Option.some.inj hmodel
    obtain ⟨hsound, -, hfirst, -⟩ := runs_of_ofOptions h
    exact ⟨s, rfl, hs, hsound, hfirst 2 (by rw [hs]; rfl)⟩

end Scenario

end LoadGen
