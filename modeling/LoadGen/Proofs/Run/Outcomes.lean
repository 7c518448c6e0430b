/-
The outcomes of a run in the order in which they are emitted, and the figures that count them.

- `Run.outcome?`, `Run.outcomes`: the outcome that a step emits, and those that some steps do.
- `Works`: everything that a worker may do, with the outcome that it emits.
- `Timeline.outcomes`: the outcomes of the first steps on virtual time.
- `counts_steps`, `counts_advance`: a figure that counts outcomes is what it was before and the number of them since.
-/
import LoadGen.Proofs.Metrics.Figures
import LoadGen.Proofs.Run.Books

namespace LoadGen

open Metrics

/-! ## The outcomes of a run -/

namespace Run

/-- the outcome that a worker emits if it goes on now -/
def outcomeOf? (r : Run) (w : Worker) : Option Outcome :=
  match w.activity with
  | .requesting request startedAt deadline x =>
    if deadline ≤ r.now then some (r.outcome w request startedAt x) else none
  | .fresh | .thinking _ => none

/-- the outcome that a step emits -/
def outcome? (r : Run) : RunOp → Option Outcome
  | .work i => r.workers[i]?.bind r.outcomeOf?
  | .pass _ | .schedule | .proceed | .cancel _ | .abort _ => none

/-- the outcomes that some steps emit -/
def outcomes (r : Run) : List RunOp → List Outcome
  | [] => []
  | op :: ops => (r.outcome? op).toList ++ (r.step op).outcomes ops

variable {r : Run} {figure : Aggregate → Nat} {p : Outcome → Bool}

/-- everything that a worker may do, with the outcome that it emits -/
inductive Works (r : Run) (i : Nat) : Option Metrics.Outcome → Run → Prop where
  | rest : Works r i none r
  /-- its pause is over, or there is no request to send -/
  | leave (w : Worker) (found : r.workers[i]? = some w) : Works r i none (r.leave i w)
  /-- it sends its request -/
  | send (w : Worker) (found : r.workers[i]? = some w) (owes : w.isThinking = false) (activity : Activity)
      (still : Worker.isThinking { w with activity } = false) : Works r i none (r.turn i w activity)
  /-- its outcome is taken in, and it leaves -/
  | settle (w : Worker) (found : r.workers[i]? = some w) (owes : w.isThinking = false) (o : Metrics.Outcome)
      (random : Random.Stream) : Works r i (some o) (leave { r with life := r.life.emit o, random } i w)
  /-- its outcome is taken in, and it pauses -/
  | pause (w : Worker) (found : r.workers[i]? = some w) (owes : w.isThinking = false) (o : Metrics.Outcome)
      (random : Random.Stream) (deadline : Duration) :
      Works r i (some o) (turn { r with life := r.life.emit o, random } i w (.thinking deadline))

theorem works (r : Run) (i : Nat) : r.Works i (r.outcome? (.work i)) (r.work i) := by
  cases hi : r.workers[i]? with
  | none =>
    simp only [work, outcome?, hi, Option.bind_none]
    exact .rest
  | some w =>
    simp only [work, outcome?, hi, Option.bind_some, outcomeOf?]
    cases ha : w.activity with
    | fresh =>
      have howes : w.isThinking = false := by rw [Worker.isThinking, ha]
      simp only [send]
      split
      · exact .leave w hi
      · exact .send w hi howes _ rfl
    | requesting request startedAt deadline x =>
      have howes : w.isThinking = false := by rw [Worker.isThinking, ha]
      simp only
      split
      · simp only [Run.settle]
        split
        · exact .settle w hi howes _ _
        · exact .pause w hi howes _ _ _
      · exact .rest
    | thinking deadline =>
      simp only
      split
      · exact .leave w hi
      · exact .rest

/-- an outcome is taken in when it is emitted, and nothing else that a worker does is -/
theorem life_work (r : Run) (i : Nat) : (r.work i).life = (r.outcome? (.work i)).elim r.life r.life.emit := by
  have hworks := r.works i
  generalize r.outcome? (.work i) = outcome at hworks ⊢
  generalize r.work i = r' at hworks ⊢
  cases hworks <;> rfl

theorem counts_proceed (h : Aggregate.Counts figure p) (r : Run) :
    figure r.proceed.life.metrics = figure r.life.metrics := by
  have hp := r.proceeds
  generalize r.proceed = r' at hp ⊢
  cases hp with
  | stay => rfl
  | drain => simp only [drain, interrupted, Lifecycle.metrics_beginDrain, h.recordInterrupted]
  | accept _ _ e rest => simp only [accept]; split <;> rfl
  | drained => rfl
  | interrupt => simp only [interrupt, interrupted, h.recordInterrupted]
  | close => rfl
  | finish =>
    unfold finish
    split
    · rfl
    · simp only [Lifecycle.metrics_finish, h.extendHorizon, h.recordInterrupted]

theorem counts_step (h : Aggregate.Counts figure p) (r : Run) (op : RunOp) :
    figure (r.step op).life.metrics = figure r.life.metrics + (r.outcome? op).toList.countP p := by
  cases op with
  | pass span => rfl
  | schedule => exact h.recordDropped _ _
  | proceed => exact counts_proceed h r
  | work i =>
    simp only [step, life_work]
    cases r.outcome? (.work i) with
    | none => rfl
    | some o =>
      simp only [Option.elim_some, Lifecycle.metrics_emit, h.ingest, Option.toList_some, List.countP_singleton]
  | cancel reason => exact congrArg figure (Lifecycle.metrics_cancel _ _)
  | abort reason => exact congrArg figure (Lifecycle.metrics_abort _ _)

/-- a figure that counts outcomes is what it was and the number of those emitted since -/
theorem counts_steps (h : Aggregate.Counts figure p) (r : Run) (ops : List RunOp) :
    figure (r.steps ops).life.metrics = figure r.life.metrics + (r.outcomes ops).countP p := by
  induction ops generalizing r with
  | nil => rfl
  | cons op ops ih =>
    have hrest := ih (r.step op)
    rw [counts_step h] at hrest
    rw [outcomes, List.countP_append, ← Nat.add_assoc]
    exact hrest

end Run

namespace Timeline

/-- the outcomes of the first `fuel` steps -/
def outcomes (fuel : Nat) (t : Timeline) : List Outcome :=
  t.run.outcomes (t.trace fuel)

variable {t : Timeline} {op : RunOp}

theorem outcomes_of_none (h : t.nextOp? = none) (fuel : Nat) : t.outcomes fuel = [] := by
  cases fuel with
  | zero => rfl
  | succ fuel => simp only [outcomes, trace, h, Run.outcomes]

theorem advance_of_none (h : t.nextOp? = none) (fuel : Nat) : t.advance fuel = t := by
  cases fuel with
  | zero => rfl
  | succ fuel => simp only [advance, h]

theorem outcomes_succ (h : t.nextOp? = some op) (fuel : Nat) :
    t.outcomes (fuel + 1) = (t.run.outcome? op).toList ++ (t.step op).outcomes fuel := by
  simp only [outcomes, trace, h, Run.outcomes]
  rfl

theorem advance_succ (h : t.nextOp? = some op) (fuel : Nat) : t.advance (fuel + 1) = (t.step op).advance fuel := by
  simp only [advance, h]

/-- a figure that counts outcomes is what it was and the number of those emitted in some steps -/
theorem counts_advance {figure : Aggregate → Nat} {p : Outcome → Bool} (h : Aggregate.Counts figure p) (t : Timeline)
    (fuel : Nat) : figure (t.advance fuel).run.life.metrics =
      figure t.run.life.metrics + (t.outcomes fuel).countP p := by
  rw [run_advance]
  exact Run.counts_steps h t.run (t.trace fuel)

/-- what is over does not go on -/
theorem nextOp?_of_isOver (h : t.run.loop.isOver = true) : t.nextOp? = none :=
  if_pos h

end Timeline

end LoadGen
