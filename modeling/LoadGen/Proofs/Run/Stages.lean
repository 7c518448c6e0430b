/-
The stages of a run, and its life. A run loop dispatches, drains, closes its queue and ends, and its life goes through
its phases with it: what the parts of a run do to its life are calls like those of any caller, besides the figures.

- `call?`, `calls`: the calls that the steps of a run make on its life.
- `traced_steps`: a run's life is one that these calls lead to, so what holds of lives under any calls holds of it.
- `Staged`: the invariant that ties the run loop, the phase, the workers and the queue together.
- `Staged.steps`: it holds after any steps of any parts, and `Staged.of_isFinished` reads the end of a run off it.
-/
import LoadGen.Proofs.Run.Listening
import LoadGen.Proofs.Run.Turns

namespace LoadGen

namespace RunLoop

/-- the run has ended with a report -/
def isFinished : RunLoop → Bool
  | finished .. => true
  | dispatching | draining _ | closing | failed => false

/-- the phases that a run may be in while its loop is there -/
def Suits : RunLoop → Phase → Prop
  | dispatching, phase => phase = .running
  | draining _, phase | closing, phase | failed, phase => phase = .draining
  | finished .., phase => phase.isTerminal = true

variable {loop : RunLoop} {phase : Phase}

theorem Suits.ne_configured (h : loop.Suits phase) : phase ≠ .configured := by
  rintro rfl
  cases loop <;> cases h

/-- a run is in its last phase exactly if it has ended with a report -/
theorem Suits.isTerminal (h : loop.Suits phase) : phase.isTerminal = loop.isFinished := by
  cases loop with
  | dispatching | draining | closing | failed =>
    rw [show phase = _ from h]
    rfl
  | finished => exact h

end RunLoop

/-! ## The calls of a run on its life -/

namespace Lifecycle

variable {failFast : Option Nat} {past : List Op} {l : Lifecycle}

/-- the figures do not tell what led to a life -/
theorem Traced.count (h : Traced failFast past l) (metrics : Metrics.Aggregate) :
    Traced failFast past { l with metrics } :=
  ⟨h.limit, h.terminal, h.streak, h.reason, h.stopped, h.aborted, h.ended, h.waiting⟩

/-- a start that succeeds is a call -/
theorem step_start {life : Lifecycle} (h : l.start = .ok life) : (l.step .start).1 = life := by
  simp only [step, h]

/-- a start that succeeds finds the run waiting, and starts its clock -/
theorem start_eq_ok {life : Lifecycle} (h : l.start = .ok life) :
    l.phase = .configured ∧ life = { l with phase := .running, started := true } := by
  unfold start at h
  split at h
  · rename_i hphase
    cases h
    exact ⟨hphase, rfl⟩
  · cases h

end Lifecycle

namespace Run

open Lifecycle (Traced)

variable {r : Run} {op : RunOp} {failFast : Option Nat} {past : List Lifecycle.Op}

/-- the call that a step makes on the life of the run -/
def call? (r : Run) (op : RunOp) : Option Lifecycle.Op :=
  match op with
  | .pass _ | .schedule => none
  | .proceed => match r.loop, r.proceed.loop with
    | .dispatching, .draining _ => some .beginDrain
    | .closing, .finished .. => some .finish
    | _, _ => none
  | .work i => (r.outcome? (.work i)).map .emit
  | .cancel reason => some (.cancel reason)
  | .abort reason => some (.abort reason)

/-- the calls that some steps make -/
def calls (r : Run) : List RunOp → List Lifecycle.Op
  | [] => []
  | op :: ops => (r.call? op).toList ++ (r.step op).calls ops

/-- what a run's own loop asks of its life -/
theorem life_proceed (r : Run) : ∃ metrics, r.proceed.life =
    (r.call? .proceed).elim { r.life with metrics } fun call => (Lifecycle.step { r.life with metrics } call).1 := by
  have hp := r.proceeds
  unfold call?
  generalize r.proceed = r' at hp ⊢
  cases hp with
  | stay => cases hl : r.loop <;> exact ⟨r.life.metrics, rfl⟩
  | drain hl =>
    rw [hl]
    exact ⟨_, rfl⟩
  | accept hl _ e rest =>
    refine ⟨r.life.metrics, ?_⟩
    unfold accept
    simp only
    split <;> simp only [hl] <;> rfl
  | drained deadline hl =>
    rw [hl]
    exact ⟨r.life.metrics, rfl⟩
  | interrupt deadline hl =>
    rw [hl]
    exact ⟨_, rfl⟩
  | close hl => simp only [hl]; exact ⟨r.life.metrics, rfl⟩
  | finish hl =>
    unfold finish
    rw [hl]
    split
    · exact ⟨r.life.metrics, rfl⟩
    · exact ⟨_, rfl⟩

/-- **What a step does to the life of a run** is a call on it, besides the figures, or nothing. -/
theorem life_step (r : Run) (op : RunOp) : ∃ metrics, (r.step op).life =
    (r.call? op).elim { r.life with metrics } fun call => (Lifecycle.step { r.life with metrics } call).1 := by
  cases op with
  | pass span => exact ⟨r.life.metrics, rfl⟩
  | schedule => exact ⟨_, rfl⟩
  | proceed => exact r.life_proceed
  | work i =>
    refine ⟨r.life.metrics, ?_⟩
    have hlife : (r.step (.work i)).life = (r.outcome? (.work i)).elim r.life r.life.emit := r.life_work i
    rw [hlife]
    simp only [call?]
    cases r.outcome? (.work i) <;> rfl
  | cancel reason => exact ⟨r.life.metrics, rfl⟩
  | abort reason => exact ⟨r.life.metrics, rfl⟩

theorem traced_step (h : Traced failFast past r.life) (op : RunOp) :
    Traced failFast (past ++ (r.call? op).toList) (r.step op).life := by
  obtain ⟨metrics, hlife⟩ := r.life_step op
  rw [hlife]
  cases r.call? op with
  | none =>
    rw [Option.toList_none, List.append_nil]
    exact h.count metrics
  | some call => exact (h.count metrics).step call

/-- **A run's life is one that its calls lead to**, after any steps. -/
theorem traced_steps (h : Traced failFast past r.life) (ops : List RunOp) :
    Traced failFast (past ++ r.calls ops) (r.steps ops).life := by
  induction ops generalizing r past with
  | nil =>
    rw [calls, List.append_nil]
    exact h
  | cons op ops ih =>
    rw [calls, ← List.append_assoc]
    exact ih (traced_step h op)

/-- the phase after a step -/
theorem phase_step_eq (r : Run) (op : RunOp) :
    (r.step op).life.phase = (r.call? op).elim r.life.phase r.life.phaseAfter := by
  obtain ⟨metrics, hlife⟩ := r.life_step op
  rw [hlife]
  cases r.call? op with
  | none => rfl
  | some call => exact Lifecycle.phase_step _ call

/-- the reason for which a step asks for a stop -/
def asks? (r : Run) (op : RunOp) : Option String :=
  (r.call? op).bind r.life.asks?

/-- the signals after a step -/
theorem signals_step (r : Run) (op : RunOp) :
    (r.step op).life.stopped = (r.life.stopped || (r.asks? op).isSome) ∧
      (r.step op).life.reason = r.life.reason.or (r.asks? op) := by
  obtain ⟨metrics, hlife⟩ := r.life_step op
  rw [hlife, asks?]
  cases r.call? op with
  | none => exact ⟨(Bool.or_false _).symm, (Option.or_none).symm⟩
  | some call => exact ⟨Lifecycle.stopped_step _ call, Lifecycle.reason_step _ call⟩

/-- a stop is never taken back -/
theorem stopped_step (stopped : r.life.stopped = true) (op : RunOp) : (r.step op).life.stopped = true := by
  rw [(r.signals_step op).1, stopped, Bool.true_or]

theorem stopped_steps (stopped : r.life.stopped = true) (ops : List RunOp) : (r.steps ops).life.stopped = true := by
  induction ops generalizing r with
  | nil => exact stopped
  | cons op ops ih => exact ih (stopped_step stopped op)

/-- the run loop asks for no stop -/
theorem asks?_proceed (r : Run) : r.asks? .proceed = none := by
  unfold asks? call?
  simp only
  split
  · exact ite_self none
  · exact ite_self none
  · rfl

/-- once a run is over nobody asks for a stop -/
theorem asks?_of_isTerminal (terminal : r.life.phase.isTerminal = true) (op : RunOp) : r.asks? op = none := by
  unfold asks?
  cases r.call? op with
  | none => rfl
  | some call => exact Lifecycle.asks?_of_over terminal call

/-- an abort is never taken back -/
theorem aborted_step (aborted : r.life.aborted = true) (op : RunOp) : (r.step op).life.aborted = true := by
  obtain ⟨metrics, hlife⟩ := r.life_step op
  rw [hlife]
  cases r.call? op with
  | none => exact aborted
  | some call =>
    show (Lifecycle.step { r.life with metrics } call).1.aborted = true
    rw [Lifecycle.aborted_step, show ({ r.life with metrics } : Lifecycle).aborted = true from aborted, Bool.true_or]

/-! ## The stages -/

/-- the run loop, the phase, the workers and the queue are at the same stage -/
structure Staged (r : Run) : Prop where
  phase : r.loop.Suits r.life.phase
  /-- dispatching is over when there are no more iterations, or after an abort -/
  ended : r.loop = .dispatching ∨ r.scheduler.isOver = true ∨ r.life.aborted = true
  cleared : r.isCleared
  still : r.loop.isOver = true → r.scheduler.isOver = true ∧ r.scheduler.dispatcher.isClosed = true

/-- only the run loop moves itself -/
theorem loop_step (hop : op ≠ .proceed) : (r.step op).loop = r.loop := by
  cases op with
  | proceed => exact absurd rfl hop
  | work i =>
    obtain ⟨pool, workers, random, hframe⟩ := r.work_frame i
    have hstep : r.step (.work i) = _ := hframe
    rw [hstep]
  | pass | schedule | cancel | abort => rfl

/-- the parts other than the run loop leave the phase as it is -/
theorem phase_of_loop (hop : op ≠ .proceed) : (r.step op).life.phase = r.life.phase := by
  rw [phase_step_eq]
  cases op with
  | proceed => exact absurd rfl hop
  | work i =>
    simp only [call?]
    cases r.outcome? (.work i) <;> rfl
  | pass | schedule | cancel | abort => rfl

theorem work_nil (h : r.workers = []) (i : Nat) : r.work i = r := by
  simp only [work, h, List.getElem?_nil]

/-- a scheduler without iterations stays so, whatever a part does -/
theorem isOver_step (h : r.scheduler.isOver = true) (op : RunOp) : (r.step op).scheduler.isOver = true := by
  by_cases hop : op = .schedule
  · subst hop
    show (r.scheduler.step r.now r.life.stopped).isOver = true
    rw [Scheduler.step_of_isOver h]
    exact h
  · rw [Scheduler.isOver, r.source_step hop]
    exact h

/-- only the run loop closes its queue -/
theorem isClosed_step (hop : op ≠ .proceed) :
    (r.step op).scheduler.dispatcher.isClosed = r.scheduler.dispatcher.isClosed := by
  cases op with
  | proceed => exact absurd rfl hop
  | schedule => exact (r.scheduler.follows_step r.now r.life.stopped).isClosed
  | work i =>
    obtain ⟨pool, workers, random, hframe⟩ := r.work_frame i
    have hstep : r.step (.work i) = _ := hframe
    rw [hstep]
  | pass | cancel | abort => rfl

/-- there are no new workers where none are left -/
theorem isCleared_step (hop : op ≠ .proceed) (h : r.isCleared) : (r.step op).isCleared := by
  have hloop := loop_step (r := r) hop
  unfold isCleared at h ⊢
  rw [hloop]
  have hworkers (hnil : r.workers = []) : (r.step op).workers = [] := by
    cases op with
    | proceed => exact absurd rfl hop
    | work i =>
      show (r.work i).workers = []
      rw [work_nil hnil]
      exact hnil
    | pass | schedule | cancel | abort => exact hnil
  cases hl : r.loop with
  | dispatching | draining => trivial
  | closing | finished | failed =>
    rw [hl] at h
    exact hworkers h

namespace Staged

/-- the steps of the other parts -/
theorem other (h : r.Staged) (hop : op ≠ .proceed) : (r.step op).Staged := by
  have hloop := loop_step (r := r) hop
  refine ⟨?_, ?_, isCleared_step hop h.cleared, fun hover => ?_⟩
  · rw [hloop, phase_of_loop hop]
    exact h.phase
  · rw [hloop]
    rcases h.ended with hl | hover | haborted
    · exact .inl hl
    · exact .inr (.inl (isOver_step hover op))
    · exact .inr (.inr (aborted_step haborted op))
  · rw [hloop] at hover
    obtain ⟨hended, hclosed⟩ := h.still hover
    exact ⟨isOver_step hended op, by rw [isClosed_step hop]; exact hclosed⟩

/-- dispatching ends -/
theorem drain (h : r.Staged) (hl : r.loop = .dispatching)
    (done : r.life.aborted = true ∨ r.scheduler.dispatcher.queue = [] ∧ r.scheduler.isOver = true) :
    r.drain.Staged := by
  have hphase : r.life.phase = .running := by
    have := h.phase
    rwa [hl] at this
  refine ⟨?_, ?_, trivial, fun hover => (by cases hover)⟩
  · show r.drain.life.phase = .draining
    simp only [Run.drain, interrupted, Lifecycle.beginDrain, hphase]
  · rcases done with haborted | ⟨-, hover⟩
    · refine .inr (.inr ?_)
      simp only [Run.drain, interrupted, Lifecycle.beginDrain, hphase]
      exact haborted
    · exact .inr (.inl hover)

/-- the run ends -/
theorem finish (h : r.Staged) (hl : r.loop = .closing) (closed : r.scheduler.dispatcher.isClosed = true)
    (ended : r.scheduler.isOver = true) : r.finish.Staged := by
  have hworkers : r.workers = [] := by
    have := h.cleared
    rwa [isCleared, hl] at this
  have hphase : r.life.phase = .draining := by
    have := h.phase
    rwa [hl] at this
  unfold Run.finish
  split
  · exact ⟨hphase, .inr (.inl ended), hworkers, fun _ => ⟨ended, closed⟩⟩
  · refine ⟨?_, .inr (.inl ended), hworkers, fun _ => ⟨ended, closed⟩⟩
    show (Lifecycle.finish _).phase.isTerminal = true
    simp only [Lifecycle.finish, hphase, show Phase.draining.isTerminal = false from rfl, Bool.false_eq_true, if_false]
    split <;> rfl

theorem proceed (h : r.Staged) : r.proceed.Staged := by
  have hp := r.proceeds
  have hphase := h.phase
  have hcleared := h.cleared
  generalize r.proceed = r' at hp ⊢
  cases hp with
  | stay => exact h
  | drain hl done => exact h.drain hl done
  | accept hl _ e rest =>
    unfold accept
    simp only
    split
    · exact ⟨hphase, .inl hl, by simp only [isCleared, hl], fun hover => by rw [hl] at hover; cases hover⟩
    · exact ⟨hphase, .inl hl, by simp only [isCleared, hl], fun hover => by rw [hl] at hover; cases hover⟩
  | drained deadline hl workers =>
    rw [hl] at hphase
    have hended := h.ended.resolve_left (by rw [hl]; exact fun h => by cases h)
    exact ⟨hphase, .inr hended, workers, fun hover => (by cases hover)⟩
  | interrupt deadline hl =>
    rw [hl] at hphase
    have hended := h.ended.resolve_left (by rw [hl]; exact fun h => by cases h)
    obtain ⟨pool, hpool⟩ := Scheduler.foldl_release r.workers r.scheduler
    simp only [interrupt, hpool]
    exact ⟨hphase, .inr hended, rfl, fun hover => (by cases hover)⟩
  | close hl =>
    rw [isCleared, hl] at hcleared
    exact ⟨hphase, h.ended, by simp only [isCleared, hl]; exact hcleared, fun hover => by rw [hl] at hover; cases hover⟩
  | finish hl closed ended => exact h.finish hl closed ended

/-- **Every part keeps the stages in step.** -/
theorem step (h : r.Staged) (op : RunOp) : (r.step op).Staged := by
  by_cases hop : op = .proceed
  · rw [hop]
    exact h.proceed
  · exact h.other hop

theorem steps (h : r.Staged) (ops : List RunOp) : (r.steps ops).Staged := by
  induction ops generalizing r with
  | nil => exact h
  | cons op ops ih => exact ih (h.step op)

end Staged

/-- a run that has ended with a report has nothing under way: no worker, no iteration to come, and a closed queue -/
theorem Staged.of_isFinished (h : r.Staged) (finished : r.loop.isFinished = true) :
    r.workers = [] ∧ r.scheduler.isOver = true ∧ r.scheduler.dispatcher.isClosed = true := by
  have hcleared := h.cleared
  cases hl : r.loop with
  | finished duration snapshot =>
    rw [isCleared, hl] at hcleared
    exact ⟨hcleared, h.still (by rw [hl]; rfl)⟩
  | dispatching | draining | closing | failed =>
    rw [hl] at finished
    cases finished

end Run

namespace Lifecycle

variable {l : Lifecycle} {s : Scenario} {peer : Peer} {calls : List Call} {t : Timeline}

/-- a run starts from a life that waited, with its clock running -/
theorem timeline_life (ht : l.timeline s peer calls = .ok t) :
    l.phase = .configured ∧ t.run = .init s peer { l with phase := .running, started := true } := by
  obtain ⟨-, life, hstart, hrun⟩ := timeline_cases ht
  obtain ⟨hphase, rfl⟩ := start_eq_ok hstart
  exact ⟨hphase, hrun⟩

/-- a run starts at its first stage -/
theorem timeline_staged (ht : l.timeline s peer calls = .ok t) : t.run.Staged := by
  rw [(timeline_life ht).2]
  exact ⟨rfl, .inl rfl, trivial, fun hover => (by cases hover)⟩

/-- a run's life is one that the calls before it and its start lead to -/
theorem timeline_traced {failFast : Option Nat} {past : List Op} (h : Traced failFast past l)
    (ht : l.timeline s peer calls = .ok t) : Traced failFast (past ++ [.start]) t.run.life := by
  obtain ⟨-, life, hstart, hrun⟩ := timeline_cases ht
  rw [hrun]
  show Traced failFast (past ++ [.start]) life
  rw [← step_start hstart]
  exact h.step .start

end Lifecycle

end LoadGen
