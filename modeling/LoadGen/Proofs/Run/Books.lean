/-
The books of a run: what its report says about its iterations.

- `Report.Balances`: every iteration dispatched is counted once, besides those that are counted twice, and every drop.
- `Pauseless`: without think time no worker is ever cut short in its pause.
- `perform_balances`: the report of every run balances, with the workers that were cut short in their pause counted twice.
- `paused_iteration_counted_twice`: a run of one iteration that is counted twice.
-/
import LoadGen.Proofs.Run.Accounting

namespace LoadGen

/-- what a report counts: every iteration dispatched once, besides those that were counted twice, and every drop -/
structure Report.Balances (rep : Report) (twice : Nat) : Prop where
  ended : rep.snapshot.iterations + rep.snapshot.interrupted = rep.arrived.dispatched + twice
  dropped : rep.snapshot.dropped = rep.arrived.dropped

theorem Report.Balances.unique {rep : Report} {m n : Nat} (hm : rep.Balances m) (hn : rep.Balances n) : m = n :=
  Nat.add_left_cancel (hm.ended.symm.trans hn.ended)

namespace Run

variable {r : Run} {twice : Nat}

/-- at its end a run has nothing pending -/
theorem Accounted.report (h : r.Accounted twice) {rep : Report} (hr : r.report? = some rep) : rep.Balances twice := by
  unfold report? at hr
  split at hr
  · rename_i duration snapshot hl
    obtain ⟨-, hclosed, rfl⟩ := h.finished _ _ hl
    have hb := h.balance
    have hcleared := h.cleared
    simp only [isCleared, hl] at hcleared
    simp only [pending, owing, uncountedDiscards, uncountedUndelivered, hl, hcleared, h.closed hclosed, List.countP_nil,
      List.length_nil] at hb
    cases hr
    exact ⟨hb, h.dropped⟩
  · cases hr

/-! ## Runs without pauses -/

/-- nobody pauses, now or later -/
structure Pauseless (r : Run) : Prop where
  none : ∀ x, (r.scenario.thinkTime.sample x).1.isZero = true
  workers : ∀ w ∈ r.workers, w.isThinking = false

theorem Pauseless.leave (h : r.Pauseless) (i : Nat) (w : Worker) : (r.leave i w).Pauseless :=
  ⟨h.none, fun w' hw => h.workers w' (List.mem_of_mem_eraseIdx hw)⟩

theorem Pauseless.turn (h : r.Pauseless) (i : Nat) {w : Worker} {a : Activity}
    (ha : Worker.isThinking { w with activity := a } = false) : (r.turn i w a).Pauseless := by
  refine ⟨h.none, fun w' hw => ?_⟩
  rcases List.mem_or_eq_of_mem_set hw with hw | rfl
  · exact h.workers w' hw
  · exact ha

theorem Pauseless.work (h : r.Pauseless) (i : Nat) : (r.work i).Pauseless := by
  unfold Run.work
  split
  · exact h
  · rename_i w hi
    split
    · unfold send
      split
      · exact h.leave i w
      · exact h.turn i rfl
    · split
      · simp only [settle, h.none, if_true]
        exact ⟨h.none, fun w' hw => h.workers w' (List.mem_of_mem_eraseIdx hw)⟩
      · exact h
    · split
      · exact h.leave i w
      · exact h

theorem Pauseless.proceed (h : r.Pauseless) : r.proceed.Pauseless := by
  have hp := r.proceeds
  generalize r.proceed = r' at hp ⊢
  cases hp with
  | stay | drain | close | drained => exact ⟨h.none, h.workers⟩
  | accept _ _ e rest =>
    unfold Run.accept
    simp only
    split
    · exact ⟨h.none, h.workers⟩
    · refine ⟨h.none, fun w hw => ?_⟩
      rcases List.mem_append.1 hw with hw | hw
      · exact h.workers w hw
      · rw [List.mem_singleton.1 hw]; rfl
  | interrupt => exact ⟨h.none, fun w hw => by cases hw⟩
  | finish =>
    unfold Run.finish
    split
    · exact ⟨h.none, h.workers⟩
    · exact ⟨h.none, h.workers⟩

theorem Pauseless.step (h : r.Pauseless) (op : RunOp) : (r.step op).Pauseless := by
  cases op with
  | proceed => exact h.proceed
  | work i => exact h.work i
  | pass | schedule | cancel | abort => exact ⟨h.none, h.workers⟩

theorem Pauseless.recounted (h : r.Pauseless) (op : RunOp) : r.recounted op = 0 := by
  unfold Run.recounted
  split
  · exact List.countP_eq_zero.2 fun w hw => by rw [h.workers w hw]; decide
  · rfl

theorem Pauseless.recounts (h : r.Pauseless) (ops : List RunOp) : r.recounts ops = 0 := by
  induction ops generalizing r with
  | nil => rfl
  | cons op ops ih => rw [Run.recounts, h.recounted op, ih (h.step op)]

end Run

/-! ## The report of a run -/

namespace Timeline

/-- what happens in the first `fuel` steps -/
def trace : Nat → Timeline → List RunOp
  | 0, _ => []
  | fuel + 1, t => match t.nextOp? with
    | none => []
    | some op => op :: trace fuel (t.step op)

/-- virtual time is one of the orders in which a run may go on -/
theorem run_advance (fuel : Nat) (t : Timeline) : (t.advance fuel).run = t.run.steps (t.trace fuel) := by
  induction fuel generalizing t with
  | zero => rfl
  | succ fuel ih =>
    unfold advance trace
    cases t.nextOp? with
    | none => rfl
    | some op => exact ih (t.step op)

end Timeline

namespace Lifecycle

variable {l : Lifecycle} {s : Scenario} {peer : Peer} {calls : List Call} {t : Timeline}

/-- a valid scenario starts on virtual time if its life can be started -/
theorem timeline_eq_ok (ht : l.timeline s peer calls = .ok t) :
    s.check = .ok () ∧ ∃ life, l.start = .ok life ∧ t = { run := .init s peer life, calls } := by
  unfold timeline at ht
  cases hs : s.check with
  | error e => rw [hs] at ht; cases ht
  | ok u =>
    cases hstart : l.start with
    | error e => rw [hs, hstart] at ht; cases ht
    | ok life =>
      rw [hs, hstart] at ht
      cases ht
      exact ⟨rfl, life, rfl, rfl⟩

theorem timeline_cases (ht : l.timeline s peer calls = .ok t) :
    s.check = .ok () ∧ ∃ life, l.start = .ok life ∧ t.run = .init s peer life := by
  obtain ⟨hs, life, hstart, rfl⟩ := timeline_eq_ok ht
  exact ⟨hs, life, hstart, rfl⟩

/-- a run starts with nothing counted and nothing pending -/
theorem timeline_accounted (hl : l.metrics = {}) (ht : l.timeline s peer calls = .ok t) : t.run.Accounted 0 := by
  obtain ⟨hs, life, hstart, hrun⟩ := timeline_cases ht
  have hm : life.metrics = {} := (metrics_start hstart).trans hl
  rw [hrun]
  refine ⟨Scenario.requests_ne_nil hs, ?_, ?_, trivial, fun _ => rfl, fun _ _ h => by cases h⟩
  · simp only [Run.init, Run.counted, hm]; rfl
  · simp only [Run.init, hm]; rfl

theorem timeline_pauseless (hp : ∀ x, (s.thinkTime.sample x).1.isZero = true)
    (ht : l.timeline s peer calls = .ok t) : t.run.Pauseless := by
  obtain ⟨-, life, -, hrun⟩ := timeline_cases ht
  rw [hrun]
  exact ⟨hp, fun w hw => by cases hw⟩

theorem perform_report {rep : Report} (h : (l.perform s peer calls).1 = .ok rep) :
    ∃ t, l.timeline s peer calls = .ok t ∧ (t.run.steps (t.trace Run.patience)).report? = some rep := by
  unfold perform at h
  split at h
  · cases h
  · rename_i t ht
    refine ⟨t, ht, ?_⟩
    rw [← t.run_advance]
    simp only at h
    split at h <;> cases h
    assumption

/-- **The books of a run.** Whatever the scheduler, the run loop, the workers and the callers do and in whatever order,
a report counts every iteration dispatched, once as done or as cut short, and every drop. Besides it counts the
iterations again whose workers were cut short in their pause, so the books are right exactly if there are none; without
think time there are none. The report of `perform` is one of these. -/
theorem perform_balances (hl : l.metrics = {}) (s : Scenario) (peer : Peer) (calls : List Call) :
    (∀ t ops rep, l.timeline s peer calls = .ok t → (t.run.steps ops).report? = some rep →
      rep.Balances (t.run.recounts ops) ∧
      (rep.Balances 0 ↔ t.run.recounts ops = 0) ∧
      ((∀ x, (s.thinkTime.sample x).1.isZero = true) → rep.Balances 0)) ∧
    ∀ rep, (l.perform s peer calls).1 = .ok rep →
      ∃ t, l.timeline s peer calls = .ok t ∧ (t.run.steps (t.trace Run.patience)).report? = some rep := by
  refine ⟨fun t ops rep ht hr => ?_, fun rep h => perform_report h⟩
  have haccounted := Run.accounted_steps (timeline_accounted hl ht) ops
  rw [Nat.zero_add] at haccounted
  have hbal := haccounted.report hr
  have hzero (h : t.run.recounts ops = 0) : rep.Balances 0 := h ▸ hbal
  exact ⟨hbal, ⟨fun h => hbal.unique h, hzero⟩, fun hp => hzero ((timeline_pauseless hp ht).recounts ops)⟩

/-- one iteration, whose request cannot be sent, and then an hour's pause; draining takes a second at most -/
def pausing : Scenario :=
  { name := "pausing"
    model := .constantArrivalRate 1 (.ofSecs 1) (.ofSecs 1) 1 1
    requests := [⟨.get, "http://a/b c", [], "", []⟩]
    timeout := .ofSecs 60
    thinkTime := .fixed (.ofSecs 3600)
    gracefulStop := .ofSecs 1
    seed := 0
    failFast := none
    thresholds := [] }

/-- a peer that nothing reaches -/
def silent : Peer := fun _ _ => (.zero, .error (.timeout .zero))

/-- iterations, interruptions and dispatches -/
def figures (rep : Report) : Nat × Nat × Nat :=
  (rep.snapshot.iterations, rep.snapshot.interrupted, rep.arrived.dispatched)

/-- the general theorem at the run of `pausing` -/
theorem perform_balances_pausing :
    ∃ rep t, ((ofScenario pausing).perform pausing silent []).1 = .ok rep ∧
      (ofScenario pausing).timeline pausing silent [] = .ok t ∧
      rep.Balances (t.run.recounts (t.trace Run.patience)) := by
  have hrun : ((ofScenario pausing).perform pausing silent []).1.toOption.isSome = true := by decide +kernel
  cases h : ((ofScenario pausing).perform pausing silent []).1 with
  | error e => rw [h] at hrun; cases hrun
  | ok rep =>
    have hfresh : (ofScenario pausing).metrics = {} := rfl
    obtain ⟨hbooks, hreport⟩ := perform_balances hfresh pausing silent []
    obtain ⟨t, ht, hr⟩ := hreport rep h
    exact ⟨rep, t, rfl, ht, (hbooks t _ rep ht hr).1⟩

/-- **An iteration counted twice.** Its outcome is taken in, and when the drain is over its pause is cut short: one
iteration was dispatched, and one is reported as done and one as cut short. -/
theorem paused_iteration_counted_twice :
    ∃ rep, ((ofScenario pausing).perform pausing silent []).1 = .ok rep ∧
      rep.snapshot.iterations = 1 ∧ rep.snapshot.interrupted = 1 ∧ rep.arrived.dispatched = 1 ∧ ¬ rep.Balances 0 := by
  have hrun : ((ofScenario pausing).perform pausing silent []).1.toOption.map figures = some (1, 1, 1) := by
    decide +kernel
  cases h : ((ofScenario pausing).perform pausing silent []).1 with
  | error e => rw [h] at hrun; cases hrun
  | ok rep =>
    rw [h] at hrun
    have hfig : figures rep = (1, 1, 1) := Option.some.inj hrun
    obtain ⟨hi, hfig⟩ := Prod.mk.inj hfig
    obtain ⟨hn, hd⟩ := Prod.mk.inj hfig
    refine ⟨rep, rfl, hi, hn, hd, fun hb => ?_⟩
    have := hb.ended
    omega

end Lifecycle

end LoadGen
