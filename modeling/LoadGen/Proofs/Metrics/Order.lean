/-
The order of events. An aggregate that is told the same events in another order comes to the same state, though on the
way its series may have kept, forgotten or left out other seconds: any two events may change places (`step_comm`), so a
whole list may be permuted (`run_perm`), and the snapshot at its end is the same in every figure (`snapshot_run_perm`).
-/
import LoadGen.Metrics.Aggregate
import LoadGen.Proofs.Metrics.Series

namespace LoadGen

theorem Duration.greatest_right_comm (a b c : Duration) : (a.greatest b).greatest c = (a.greatest c).greatest b :=
  Duration.eq_of_nanos (by simp only [Duration.nanos_greatest]; omega)

namespace Metrics

theorem ClassCounts.bump_comm (c : ClassCounts) (k l : OutcomeClass) : (c.bump k).bump l = (c.bump l).bump k := by
  cases k <;> cases l <;> rfl

theorem Histogram.record_comm (h : Histogram) (d e : Duration) : (h.record d).record e = (h.record e).record d :=
  Tally.bump_comm _ _ h

namespace Aggregate

/-! ## Two events -/

/-- what every event keeps -/
def WellFormed (a : Aggregate) : Prop :=
  a.series.Kept

theorem wellFormed_empty : ({} : Aggregate).WellFormed :=
  RateSeries.kept_empty 3600

theorem WellFormed.step {a : Aggregate} (h : a.WellFormed) (e : Event) : (a.step e).WellFormed := by
  cases e with
  | outcome o => exact RateSeries.Kept.record h o.completedAt
  | dropped n => exact h
  | interrupted n => exact h
  | horizon elapsed => exact h

theorem ingest_comm {a : Aggregate} (h : a.WellFormed) (o p : Outcome) :
    (a.ingest o).ingest p = (a.ingest p).ingest o := by
  simp only [ingest, mk.injEq]
  refine ⟨ClassCounts.bump_comm _ _ _, ?_, ?_, ?_, trivial, trivial, ?_, Histogram.record_comm _ _ _,
    RateSeries.record_comm h _ _, Duration.greatest_right_comm _ _ _⟩
  · cases o.status <;> cases p.status <;> try rfl
    exact Tally.bump_comm _ _ _
  · split <;> split <;> rfl
  · split <;> split <;> rfl
  · -- the bytes stop at the largest word, wherever in the list it is reached
    omega

/-- two events may change places -/
theorem step_comm {a : Aggregate} (h : a.WellFormed) (e f : Event) : (a.step e).step f = (a.step f).step e := by
  cases e with
  | outcome o =>
    cases f with
    | outcome p => exact ingest_comm h o p
    | dropped n => rfl
    | interrupted n => rfl
    | horizon d => simp only [step, ingest, extendHorizon, Duration.greatest_right_comm _ o.completedAt]
  | dropped n =>
    cases f with
    | dropped m => simp only [step, recordDropped, Nat.add_right_comm _ n m]
    | outcome p => rfl
    | interrupted m => rfl
    | horizon d => rfl
  | interrupted n =>
    cases f with
    | interrupted m => simp only [step, recordInterrupted, Nat.add_right_comm _ n m]
    | outcome p => rfl
    | dropped m => rfl
    | horizon d => rfl
  | horizon d =>
    cases f with
    | horizon d' => simp only [step, extendHorizon, Duration.greatest_right_comm _ d d']
    | outcome p => simp only [step, ingest, extendHorizon, Duration.greatest_right_comm _ d]
    | dropped m => rfl
    | interrupted m => rfl

/-! ## A list of events -/

/-- the whole state is the same, not only what a snapshot shows -/
theorem run_perm {events events' : List Event} (hp : events.Perm events') {a : Aggregate} (h : a.WellFormed) :
    a.run events = a.run events' := by
  induction hp generalizing a with
  | nil => rfl
  | cons e _ ih => exact ih (h.step e)
  | swap e f rest => exact congrArg (run · rest) (step_comm h f e)
  | trans _ _ ih₁ ih₂ => exact (ih₁ h).trans (ih₂ h)

/-- **The order of events does not matter.** Two aggregates that are told the same outcomes, drops, interruptions and
spans of time, each in an order of its own, give the same snapshot: the counts, the histogram and its figures, the
series of seconds and its summary, and the rates. -/
theorem snapshot_run_perm {events events' : List Event} (h : events.Perm events') :
    (({} : Aggregate).run events).snapshot = (({} : Aggregate).run events').snapshot :=
  congrArg snapshot (run_perm h wellFormed_empty)

/-- a response that comes a day late, before or after an early one, among drops and interruptions -/
theorem snapshot_late_response :
    let early : Event := .outcome (.response 0 0 200 .zero (.ofMillis 5))
    let late : Event := .outcome (.response 1 0 503 (.ofSecs 86400) (.ofMillis 7))
    [early, .dropped 2, late, .interrupted 1].Perm [.interrupted 1, late, .dropped 2, early] ∧
      (({} : Aggregate).run [early, .dropped 2, late, .interrupted 1]).snapshot =
        (({} : Aggregate).run [.interrupted 1, late, .dropped 2, early]).snapshot := by
  intro early late
  have hp : [early, .dropped 2, late, .interrupted 1].Perm [.interrupted 1, late, .dropped 2, early] :=
    (List.reverse_perm [early, .dropped 2, late, .interrupted 1]).symm
  exact ⟨hp, snapshot_run_perm hp⟩

end Aggregate

end Metrics

end LoadGen
