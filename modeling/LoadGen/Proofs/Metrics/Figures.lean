/-
Figures that count outcomes. Every outcome changes many fields of an aggregate at once, and each field says how many of
the outcomes so far had some property; nothing else that an aggregate is told changes it.

- `Aggregate.Counts`: a figure that counts the outcomes with a property and nothing else. The iterations, the count of a
  class, the histogram, the status codes in a range and the two counts of checks are such figures.
- `Counts.run`: after any events such a figure is what it was before and the number of these outcomes.
- `latency_run`, `series_run`: the histogram has recorded the latencies of the outcomes, and the series the instants at
  which they were complete.
-/
import LoadGen.Metrics.Aggregate
import LoadGen.Proofs.Metrics.Series

namespace LoadGen.Metrics

/-! ## Figures -/

theorem ClassCounts.get_bump (c : ClassCounts) (k l : OutcomeClass) :
    (c.bump k).get l = c.get l + if k = l then 1 else 0 := by
  cases k <;> cases l <;> rfl

/-- a figure that counts the outcomes with a property -/
structure Aggregate.Counts (figure : Aggregate → Nat) (p : Outcome → Bool) : Prop where
  ingest : ∀ a o, figure (a.ingest o) = figure a + if p o then 1 else 0
  recordDropped : ∀ a n, figure (a.recordDropped n) = figure a
  recordInterrupted : ∀ a n, figure (a.recordInterrupted n) = figure a
  extendHorizon : ∀ a elapsed, figure (a.extendHorizon elapsed) = figure a

theorem counts_iterations : Aggregate.Counts (fun a => a.classes.total) fun _ => true where
  ingest a o := by simp only [Aggregate.ingest, ClassCounts.total_bump, if_true]
  recordDropped _ _ := rfl
  recordInterrupted _ _ := rfl
  extendHorizon _ _ := rfl

theorem counts_class (k : OutcomeClass) :
    Aggregate.Counts (fun a => a.classes.get k) fun o => o.kind = k where
  ingest a o := by simp only [Aggregate.ingest, ClassCounts.get_bump, decide_eq_true_eq]
  recordDropped _ _ := rfl
  recordInterrupted _ _ := rfl
  extendHorizon _ _ := rfl

theorem counts_latency : Aggregate.Counts (fun a => Tally.total a.latency) fun _ => true where
  ingest _ _ := Tally.total_bump _ _
  recordDropped _ _ := rfl
  recordInterrupted _ _ := rfl
  extendHorizon _ _ := rfl

/-- the status codes of a kind count the outcomes with such a code -/
theorem counts_statusCodes (q : Nat → Bool) :
    Aggregate.Counts (fun a => Tally.total (a.statusCodes.filter fun c => q c.1)) fun o => o.status.any q where
  ingest a o := by
    cases hs : o.status with
    | none => simp only [Aggregate.ingest, hs, Option.any_none, Bool.false_eq_true, if_false, Nat.add_zero]
    | some code => simp only [Aggregate.ingest, hs, Option.any_some, Tally.total_filter_bump]
  recordDropped _ _ := rfl
  recordInterrupted _ _ := rfl
  extendHorizon _ _ := rfl

theorem counts_checksPassed : Aggregate.Counts Aggregate.checksPassed fun o => o.check = some true where
  ingest a o := by simp only [Aggregate.ingest, decide_eq_true_eq]; split <;> rfl
  recordDropped _ _ := rfl
  recordInterrupted _ _ := rfl
  extendHorizon _ _ := rfl

theorem counts_checksFailed : Aggregate.Counts Aggregate.checksFailed fun o => o.check = some false where
  ingest a o := by simp only [Aggregate.ingest, decide_eq_true_eq]; split <;> rfl
  recordDropped _ _ := rfl
  recordInterrupted _ _ := rfl
  extendHorizon _ _ := rfl

/-! ## Any events -/

namespace Aggregate

/-- the outcome that an aggregate is told of -/
def Event.outcome? : Event → Option Outcome
  | .outcome o => some o
  | .dropped _ | .interrupted _ | .horizon _ => none

variable {figure : Aggregate → Nat} {p : Outcome → Bool}

/-- a figure that counts outcomes is what it was and the number of those since -/
theorem Counts.run (h : Counts figure p) (a : Aggregate) (events : List Event) :
    figure (a.run events) = figure a + (events.filterMap Event.outcome?).countP p := by
  induction events generalizing a with
  | nil => rfl
  | cons e events ih =>
    have hrest : figure (a.run (e :: events)) = figure (a.step e) + (events.filterMap Event.outcome?).countP p :=
      ih (a.step e)
    rw [hrest]
    cases e with
    | outcome o =>
      simp only [step, h.ingest, List.filterMap_cons, Event.outcome?, List.countP_cons]
      omega
    | dropped n => simp only [step, h.recordDropped, List.filterMap_cons, Event.outcome?]
    | interrupted n => simp only [step, h.recordInterrupted, List.filterMap_cons, Event.outcome?]
    | horizon elapsed => simp only [step, h.extendHorizon, List.filterMap_cons, Event.outcome?]

/-- from nothing a figure that counts outcomes is their number -/
theorem Counts.run_empty (h : Counts figure p) (h0 : figure {} = 0) (events : List Event) :
    figure (({} : Aggregate).run events) = (events.filterMap Event.outcome?).countP p := by
  rw [h.run, h0, Nat.zero_add]

/-- the histogram records how long the outcomes took, and nothing else -/
theorem latency_run (a : Aggregate) (events : List Event) :
    (a.run events).latency =
      ((events.filterMap Event.outcome?).map Outcome.latency).foldl (fun h d => h.record d) a.latency := by
  induction events generalizing a with
  | nil => rfl
  | cons e events ih => cases e <;> exact ih _

/-- the series records when the outcomes were complete, and nothing else -/
theorem series_run (a : Aggregate) (events : List Event) :
    (a.run events).series =
      ((events.filterMap Event.outcome?).map Outcome.completedAt).foldl RateSeries.record a.series := by
  induction events generalizing a with
  | nil => rfl
  | cons e events ih => cases e <;> exact ih _

end Aggregate

end LoadGen.Metrics
