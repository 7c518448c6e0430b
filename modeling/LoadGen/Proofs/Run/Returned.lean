/-
What a run gives back. Slots are with the iterations in the queue, the one that waits for room, and the workers; a run
that ends by its schedule, by a stop, an abort or a streak of failures, in time or at the end of the drain, has none of
these left when there is a report. The report reads the phase and the reason when the run has ended, and nothing that is
asked for afterwards changes them.

- `exists_finish`: a run that has ended was ended by one step of its run loop.
- `settled_steps`: after that its phase, its stop and the reason for it stay.
- `Report.Returned`: what a report says of the slots.
- `report_returned`: what every report says, whatever was asked of the run before its start and while it went on.
-/
import LoadGen.Proofs.Run.Overshoot
import LoadGen.Proofs.Run.Stages
import LoadGen.Proofs.Scenario.Sound

namespace LoadGen

/-- a report of a run that has given all its slots back -/
structure Report.Returned (m : ArrivalModel) (rep : Report) : Prop where
  active : rep.pool.active = 0
  bound : rep.pool.maxVus = m.poolBounds.2
  peak : rep.pool.peak ≤ m.poolBounds.2
  allocated : rep.pool.allocated = max m.poolBounds.1 rep.pool.peak

namespace Run

open Lifecycle (Traced)

variable {r : Run} {rep : Report}

theorem steps_append (r : Run) (ops more : List RunOp) : r.steps (ops ++ more) = (r.steps ops).steps more :=
  List.foldl_append

/-! ## The end of a run -/

/-- a run that has ended was ended by its run loop -/
theorem exists_finish (going : r.loop.isFinished = false) {ops : List RunOp}
    (finished : (r.steps ops).loop.isFinished = true) : ∃ before after, ops = before ++ .proceed :: after ∧
      (r.steps before).loop.isFinished = false ∧ ((r.steps before).step .proceed).loop.isFinished = true := by
  induction ops generalizing r with
  | nil =>
    rw [show r.steps [] = r from rfl, going] at finished
    cases finished
  | cons op ops ih =>
    cases hstep : (r.step op).loop.isFinished with
    | true =>
      by_cases hop : op = .proceed
      · subst hop
        exact ⟨[], ops, rfl, going, hstep⟩
      · rw [loop_step hop, going] at hstep
        cases hstep
    | false =>
      obtain ⟨before, after, rfl, hbefore, hafter⟩ := ih hstep finished
      exact ⟨op :: before, after, rfl, hbefore, hafter⟩

/-- a step of a run that is over leaves its phase and its signals -/
theorem settled_step (terminal : r.life.phase.isTerminal = true) (op : RunOp) :
    (r.step op).life.phase = r.life.phase ∧ (r.step op).life.stopped = r.life.stopped ∧
      (r.step op).life.reason = r.life.reason := by
  obtain ⟨hstopped, hreason⟩ := r.signals_step op
  rw [asks?_of_isTerminal terminal] at hstopped hreason
  refine ⟨?_, hstopped.trans (Bool.or_false _), hreason.trans Option.or_none⟩
  rw [phase_step_eq]
  cases r.call? op with
  | none => rfl
  | some call => exact Lifecycle.phaseAfter_of_over terminal call

/-- **The end is final**: whatever is asked for afterwards, phase and signals stay. -/
theorem settled_steps (terminal : r.life.phase.isTerminal = true) (ops : List RunOp) :
    (r.steps ops).life.phase = r.life.phase ∧ (r.steps ops).life.stopped = r.life.stopped ∧
      (r.steps ops).life.reason = r.life.reason := by
  induction ops generalizing r with
  | nil => exact ⟨rfl, rfl, rfl⟩
  | cons op ops ih =>
    obtain ⟨hphase, hstopped, hreason⟩ := settled_step terminal op
    obtain ⟨hphase', hstopped', hreason'⟩ := ih (r := r.step op) (by rw [hphase]; exact terminal)
    exact ⟨hphase'.trans hphase, hstopped'.trans hstopped, hreason'.trans hreason⟩

/-- the step that ends a run asks for no stop, and nothing does afterwards -/
theorem signals_of_end (terminal : (r.step .proceed).life.phase.isTerminal = true) (after : List RunOp) :
    ((r.step .proceed).steps after).life.stopped = r.life.stopped ∧
      ((r.step .proceed).steps after).life.reason = r.life.reason := by
  obtain ⟨hstopped, hreason⟩ := r.signals_step .proceed
  rw [asks?_proceed] at hstopped hreason
  obtain ⟨-, hstopped', hreason'⟩ := settled_steps terminal after
  exact ⟨hstopped'.trans (hstopped.trans (Bool.or_false _)), hreason'.trans (hreason.trans Option.or_none)⟩

/-- **The end of a run** is one step of its run loop, and the signals are what they were when it came. -/
theorem exists_end (hstart : r.Staged) (going : r.loop.isFinished = false) {ops : List RunOp}
    (finished : (r.steps ops).loop.isFinished = true) : ∃ before after, ops = before ++ .proceed :: after ∧
      (r.steps before).loop.isFinished = false ∧ ((r.steps before).step .proceed).loop.isFinished = true ∧
      (r.steps ops).life.stopped = (r.steps before).life.stopped ∧
      (r.steps ops).life.reason = (r.steps before).life.reason := by
  obtain ⟨before, after, rfl, hbefore, hafter⟩ := exists_finish going finished
  have hover : ((r.steps before).step .proceed).life.phase.isTerminal = true := by
    rw [((hstart.steps before).step .proceed).phase.isTerminal]
    exact hafter
  obtain ⟨hstopped, hreason⟩ := signals_of_end hover after
  rw [steps_append]
  exact ⟨before, after, rfl, hbefore, hafter, hstopped, hreason⟩

/-- a report reads the run that it is of -/
theorem report?_cases (h : r.report? = some rep) : r.loop.isFinished = true ∧ rep.phase = r.life.phase ∧
    rep.cancelReason = r.life.reason ∧ rep.pool = r.occupancy := by
  unfold report? at h
  split at h
  · rename_i duration snapshot hl
    cases h
    exact ⟨by rw [hl]; rfl, rfl, rfl, rfl⟩
  · cases h

/-! ## Slots -/

/-- where nothing is under way no slot is held -/
theorem lent_of_isFinished {warm most : Nat} (howned : (Delivery.ofRun r).Owned warm most) (hstaged : r.Staged)
    (finished : r.loop.isFinished = true) : r.scheduler.dispatcher.pool.Lent warm [] := by
  obtain ⟨hworkers, hover, hclosed⟩ := hstaged.of_isFinished finished
  have hqueue : r.scheduler.dispatcher.queue = [] := howned.closed hclosed
  have hwaiting : r.scheduler.waiting? = none := by
    cases hw : r.scheduler.waiting? with
    | none => rfl
    | some e =>
      obtain ⟨ramp, hsource⟩ := Scheduler.waiting?_eq_some.1 hw
      rw [Scheduler.isOver, hsource] at hover
      cases hover
  have hevents : (Delivery.ofRun r).events = [] := by
    show (r.scheduler.dispatcher.queue ++ r.scheduler.waiting?.toList) ++ r.workers.map Worker.dispatch = []
    rw [hqueue, hwaiting, hworkers]
    rfl
  have hlent := howned.lent
  rwa [hevents] at hlent

end Run

namespace Lifecycle

variable {l : Lifecycle} {s : Scenario} {peer : Peer} {calls : List Call} {t : Timeline} {rep : Report}

/-- all slots that were ever there are idle -/
theorem returned_of_report (ht : l.timeline s peer calls = .ok t) {ops : List RunOp}
    (hr : (t.run.steps ops).report? = some rep) : rep.Returned s.model ∧
      (t.run.steps ops).scheduler.dispatcher.pool.idle.Perm (List.range rep.pool.allocated) := by
  have howned := owned_timeline ht ops
  have hstaged := (timeline_staged ht).steps ops
  have hwarm := (Scenario.sound_of_check (timeline_cases ht).1).warm
  obtain ⟨hfinished, -, -, hpool⟩ := Run.report?_cases hr
  have hlent := Run.lent_of_isFinished howned hstaged hfinished
  have hmax : (t.run.steps ops).scheduler.dispatcher.pool.maxVus = s.model.poolBounds.2 := howned.slots
  have hpeak := hlent.peak_le
  have hallocated := hlent.allocated
  rw [hmax] at hpeak hallocated
  rw [Nat.min_eq_left hwarm] at hallocated
  rw [hpool]
  exact ⟨⟨by rw [hpool]; exact hlent.active, by rw [hpool]; exact hmax, by rw [hpool]; exact hpeak,
    by rw [hpool]; exact hallocated⟩, hlent.ids⟩

/-- the life that is left when a scenario was performed is that of its run -/
theorem life_of_perform (ht : l.timeline s peer calls = .ok t) :
    (l.perform s peer calls).2 = (t.run.steps (t.trace Run.patience)).life := by
  unfold perform
  rw [ht, ← t.run_advance]

/-- **A run gives back everything it took.** A life may have been cancelled, aborted or anything else before it was
started, and in its run the scheduler, the run loop, the workers and the callers go on in any order. Whenever there is a
report, no slot is held, all slots there are are idle, as many as were there from the start or as were held at once, and
that is no more than the bound. The run was ended by one step of its run loop; it was cancelled exactly if a stop had
been asked for by then, if only before its start, and the report has its reason exactly if it was. The report of
`perform` is one of these, and the life that it leaves is that of the run. -/
theorem report_returned (seed : Nat) (failFast : Option Nat) (past : List Op) (s : Scenario) (peer : Peer)
    (calls : List Call) :
    let l := ({ seed, failFast } : Lifecycle).run past
    (∀ t, l.timeline s peer calls = .ok t → ∀ ops rep, (t.run.steps ops).report? = some rep →
      rep.Returned s.model ∧
      (t.run.steps ops).scheduler.dispatcher.pool.idle.Perm (List.range rep.pool.allocated) ∧
      rep.phase.isTerminal = true ∧ (t.run.steps ops).life.phase = rep.phase ∧
      (rep.cancelReason.isSome = true ↔ rep.phase = .cancelled) ∧
      (l.stopped = true → rep.phase = .cancelled) ∧
      ∃ before after, ops = before ++ .proceed :: after ∧
        (t.run.steps before).loop.isFinished = false ∧
        ((t.run.steps before).step .proceed).loop.isFinished = true ∧
        (rep.phase = .cancelled ↔ (t.run.steps before).life.stopped = true) ∧
        rep.cancelReason = (t.run.steps before).life.reason) ∧
    ∀ rep, (l.perform s peer calls).1 = .ok rep → ∃ t, l.timeline s peer calls = .ok t ∧
      (t.run.steps (t.trace Run.patience)).report? = some rep ∧
      (l.perform s peer calls).2 = (t.run.steps (t.trace Run.patience)).life := by
  intro l
  refine ⟨fun t ht ops rep hr => ?_, fun rep hrep => ?_⟩
  · obtain ⟨hreturned, hidle⟩ := returned_of_report ht hr
    obtain ⟨hfinished, hphase, hreason, -⟩ := Run.report?_cases hr
    have hstart := timeline_staged ht
    have hstaged := hstart.steps ops
    have htraced := Run.traced_steps (timeline_traced (traced_run seed failFast past) ht) ops
    have hover : (t.run.steps ops).life.phase.isTerminal = true := by rw [hstaged.phase.isTerminal]; exact hfinished
    have hended := htraced.ended hover
    -- at the end of the run its phase tells of the stop, and so does its reason
    have hcancelled : rep.phase = .cancelled ↔ (t.run.steps ops).life.stopped = true := by
      rw [hphase, hended]
      cases (t.run.steps ops).life.stopped <;> decide
    have hgiven : rep.cancelReason.isSome = true ↔ rep.phase = .cancelled := by
      rw [hcancelled, hreason, htraced.stopped]
    obtain ⟨-, hrun⟩ := timeline_life ht
    have hstopped (h : l.stopped = true) : (t.run.steps ops).life.stopped = true := by
      refine Run.stopped_steps ?_ ops
      rw [hrun]
      exact h
    obtain ⟨before, after, hsplit, hbefore, hafter, hsame, hsame'⟩ :=
      Run.exists_end hstart (by rw [hrun]; rfl) hfinished
    refine ⟨hreturned, hidle, by rw [hphase]; exact hover, hphase.symm, hgiven, fun h => hcancelled.2 (hstopped h),
      before, after, hsplit, hbefore, hafter, ?_, ?_⟩
    · rw [hcancelled, hsame]
    · rw [hreason, hsame']
  · obtain ⟨t, ht, hr⟩ := perform_report hrep
    exact ⟨t, ht, hr, life_of_perform ht⟩

/-- how a run ended, why, and how many slots there were -/
def ending (rep : Report) : Phase × Option String × Nat :=
  (rep.phase, rep.cancelReason, rep.pool.allocated)

/-- the general theorem at a pause of an hour that is aborted after half a second -/
theorem report_returned_pausing : ∃ rep,
    ((ofScenario pausing).perform pausing silent [⟨.ofMillis 500, true, "enough"⟩]).1 = .ok rep ∧
    ending rep = (.cancelled, some "enough", 1) ∧ rep.Returned pausing.model := by
  have hrun : ((ofScenario pausing).perform pausing silent [⟨.ofMillis 500, true, "enough"⟩]).1.toOption.map ending =
      some (.cancelled, some "enough", 1) := by decide +kernel
  cases h : ((ofScenario pausing).perform pausing silent [⟨.ofMillis 500, true, "enough"⟩]).1 with
  | error e =>
    rw [h] at hrun
    cases hrun
  | ok rep =>
    rw [h] at hrun
    obtain ⟨hreports, hperform⟩ := report_returned pausing.seed pausing.failFast [] pausing silent
      [⟨.ofMillis 500, true, "enough"⟩]
    obtain ⟨t, ht, hr, -⟩ := hperform rep h
    exact ⟨rep, rfl, Option.some.inj hrun, (hreports t ht _ rep hr).1⟩

end Lifecycle

end LoadGen
