/-
What thresholds observe. The metrics accept aggregations by one table, and a snapshot has figures by another; whether
there is such a figure, and what it counts, depends on what the aggregate was told.

- `evaluate_statusIn`: a set of status codes counts the outcomes with one of them, each once, out of all outcomes.
- `Metric.figure?`: the table of figures. It has a row for exactly what the metrics accept (`isSome_figure?`), so what
  it says of all other pairs is said of no threshold that was read.
- `observe_eq_none_iff`: a threshold that was read observes nothing exactly if there is nothing of what it reads.
-/
import LoadGen.Proofs.Decimal.Kinds
import LoadGen.Proofs.Metrics.Figures
import LoadGen.Proofs.Threshold.Grammar
import LoadGen.Proofs.Threshold.Grouping
import LoadGen.Threshold.Verdict

namespace LoadGen

namespace Metrics

/-! ## Shares -/

theorem ratio?_eq_none_iff {hits total : Nat} : ratio? hits total = none ↔ total = 0 := by
  unfold ratio?
  split <;> simp <;> omega

theorem ratio?_of_pos {hits total : Nat} (h : 0 < total) :
    ratio? hits total = some (Float.ofNat hits / Float.ofNat total) :=
  if_pos h

/-- there is a response, and its status is one of these -/
def Outcome.hasStatus (codes : List Nat) (o : Outcome) : Bool :=
  o.status.any fun code => codes.contains code

theorem Outcome.hasStatus_iff {codes : List Nat} {o : Outcome} :
    o.hasStatus codes = true ↔ ∃ code ∈ codes, o.status = some code := by
  simp only [hasStatus, Option.any_eq_true, List.contains_iff_mem]
  exact ⟨fun ⟨code, hstatus, hmem⟩ => ⟨code, hmem, hstatus⟩, fun ⟨code, hmem, hstatus⟩ => ⟨code, hstatus, hmem⟩⟩

/-! ## The figures of what an aggregate was told -/

section

variable (events : List Aggregate.Event)

/-- the iterations are the outcomes -/
theorem iterations_run :
    (({} : Aggregate).run events).snapshot.iterations = (events.filterMap Aggregate.Event.outcome?).length := by
  rw [← List.countP_true]
  exact counts_iterations.run_empty rfl events

/-- the outcomes with one of some status codes, however often a code is named -/
theorem matching_run (codes : List Nat) :
    (({} : Aggregate).run events).snapshot.matching codes =
      (events.filterMap Aggregate.Event.outcome?).countP (Outcome.hasStatus codes) :=
  (counts_statusCodes fun code => codes.contains code).run_empty rfl events

theorem statusFraction?_run (codes : List Nat) :
    (({} : Aggregate).run events).snapshot.statusFraction? codes =
      ratio? ((events.filterMap Aggregate.Event.outcome?).countP (Outcome.hasStatus codes))
        (events.filterMap Aggregate.Event.outcome?).length := by
  rw [Snapshot.statusFraction?, matching_run, iterations_run]

theorem iterations_run_eq_zero_iff :
    (({} : Aggregate).run events).snapshot.iterations = 0 ↔ events.filterMap Aggregate.Event.outcome? = [] := by
  rw [iterations_run, List.length_eq_zero_iff]

/-- a histogram is empty only without outcomes -/
theorem histogram_run_eq_nil_iff :
    (({} : Aggregate).run events).latency = [] ↔ events.filterMap Aggregate.Event.outcome? = [] := by
  constructor
  · intro h
    have hcount := counts_latency.run_empty rfl events
    rw [h, List.countP_true] at hcount
    exact List.length_eq_zero_iff.1 hcount.symm
  · intro h
    rw [Aggregate.latency_run, h]
    rfl

/-- no check is counted, passed or failed, if no outcome has one -/
theorem checks_run_eq_zero_iff :
    (({} : Aggregate).run events).checksPassed + (({} : Aggregate).run events).checksFailed = 0 ↔
      ∀ o ∈ events.filterMap Aggregate.Event.outcome?, o.check = none := by
  rw [Nat.add_eq_zero_iff, counts_checksPassed.run_empty rfl, counts_checksFailed.run_empty rfl, List.countP_eq_zero,
    List.countP_eq_zero, ← forall₂_and]
  refine forall₂_congr fun o _ => ?_
  rcases o.check with _ | _ | _ <;> simp

end

namespace Histogram

variable {h : Histogram}

/-- a histogram that is not empty has all of its figures -/
theorem summary_eq_none_iff :
    (h.summary.mean = none ↔ h = []) ∧ (h.summary.min = none ↔ h = []) ∧ (h.summary.max = none ↔ h = []) := by
  cases h <;> simp [summary]

theorem percentile?_eq_none_iff {p : Float} (hfinite : p.isFinite = true) : h.percentile? p = none ↔ h = [] := by
  cases h <;> simp [percentile?, hfinite]

end Histogram

end Metrics

namespace Threshold

open Metrics

/-! ## Status codes -/

/-- a threshold passes if it observes something, and what it observes passes -/
theorem passed_judge {s : Snapshot} {t : Threshold} :
    (judge s t).passed = true ↔ ∃ x, t.observe s = some x ∧ t.check.passes x = true :=
  Option.any_eq_true _ _

/-- **Status thresholds count the outcomes.** Whatever an aggregate is told, and whichever status codes are named, a
code perhaps more than once: the share of these codes is that of the outcomes which have one of them, an outcome without
a response having none; it is a share of all outcomes, and the whole exactly if every outcome has one of the codes; and
there is none exactly if there are no outcomes. A threshold with these codes observes this share; it fails without
outcomes, and passes otherwise exactly if one is at most the quotient. -/
theorem evaluate_statusIn (events : List Aggregate.Event) (codes : List Nat) :
    let outcomes := events.filterMap Aggregate.Event.outcome?
    let s := (({} : Aggregate).run events).snapshot
    let m := outcomes.countP (Outcome.hasStatus codes)
    let n := outcomes.length
    s.statusFraction? codes = ratio? m n ∧
    m ≤ n ∧
    (m = n ↔ ∀ o ∈ outcomes, ∃ code ∈ codes, o.status = some code) ∧
    (s.statusFraction? codes = none ↔ outcomes = []) ∧
    ∀ ts, ∀ v ∈ evaluate ts s, v.threshold.check = .statusIn codes →
      v.observed = ratio? m n ∧ (v.passed = true ↔ outcomes ≠ [] ∧ 1.0 ≤ Float.ofNat m / Float.ofNat n) := by
  intro outcomes s m n
  have hfraction : s.statusFraction? codes = ratio? m n := statusFraction?_run events codes
  refine ⟨hfraction, List.countP_le_length, ?_, ?_, fun ts v hv hcheck => ?_⟩
  · rw [List.countP_eq_length]
    exact forall₂_congr fun o _ => Outcome.hasStatus_iff
  · rw [hfraction, ratio?_eq_none_iff, List.length_eq_zero_iff]
  · obtain ⟨t, -, rfl⟩ := List.mem_map.1 hv
    have hcheck : t.check = .statusIn codes := hcheck
    have hobserved : t.observe s = ratio? m n := by
      rw [observe, hcheck]
      exact hfraction
    refine ⟨hobserved, ?_⟩
    rw [passed_judge, hobserved, hcheck]
    by_cases hnone : outcomes = []
    · have hzero : n = 0 := List.length_eq_zero_iff.2 hnone
      simp [ratio?_eq_none_iff.2 hzero, hnone]
    · have hpos : 0 < n := List.length_pos_iff.2 hnone
      simp only [ratio?_of_pos hpos, Option.some.injEq, exists_eq_left', Check.passes, decide_eq_true_eq, ne_eq, hnone,
        not_false_eq_true, true_and]

/-- a response within the set, a timeout, and a response within the set again: two of three, which does not pass; the
first alone does -/
theorem evaluate_statusIn_timeout :
    let first : Aggregate.Event := .outcome (.response 0 0 429 .zero (.ofMillis 3))
    let lost : Aggregate.Event := .outcome (.failure 1 1 .timeout "timeout" .zero (.ofSecs 60))
    let last : Aggregate.Event := .outcome (.response 2 0 200 .zero (.ofMillis 5))
    let t : Threshold := ⟨"status", "in [200, 429, 429]", .status, .statusIn [200, 429, 429]⟩
    let s := (({} : Aggregate).run [first, .dropped 2, lost, last]).snapshot
    let s' := (({} : Aggregate).run [first]).snapshot
    t.check = .statusIn [200, 429, 429] ∧ s.statusFraction? [200, 429, 429] = ratio? 2 3 ∧
      (judge s t).passed = false ∧ (judge s' t).passed = true := by
  intro first lost last t s s'
  obtain ⟨hfraction, -, -, -, hmixed⟩ := evaluate_statusIn [first, .dropped 2, lost, last] [200, 429, 429]
  obtain ⟨-, -, -, -, halone⟩ := evaluate_statusIn [first] [200, 429, 429]
  have hmixed := (hmixed [t] (judge s t) List.mem_cons_self rfl).2
  have halone := (halone [t] (judge s' t) List.mem_cons_self rfl).2
  refine ⟨rfl, hfraction, ?_, halone.2 ⟨List.cons_ne_nil _ _, by decide +kernel⟩⟩
  have hbelow : ¬(1.0 : Float) ≤ Float.ofNat 2 / Float.ofNat 3 := by decide +kernel
  exact Bool.eq_false_iff.2 fun hpassed => hbelow (hmixed.1 hpassed).2

/-! ## The table of figures -/

/-- the figure of a snapshot that a metric has by an aggregation -/
def Metric.figure? : Metric → Aggregation → Option (Snapshot → Option Float)
  | .latency, .avg => some fun s => s.latency.mean
  | .latency, .min => some fun s => s.latency.min
  | .latency, .max => some fun s => s.latency.max
  | .latency, .med => some fun s => s.percentile? 50.0
  | .latency, .percentile p => some fun s => s.percentile? p
  | .iterations, .count => some fun s => some (Float.ofNat s.iterations)
  | .iterations, .rate => some fun s => some s.rate
  | .failed, .rate => some fun s => s.failedRate?
  | .checks, .rate => some fun s => s.checksRate?
  | .dropped, .count => some fun s => some (Float.ofNat s.dropped)
  | .dropped, .rate => some fun s => some s.droppedRate
  | _, _ => none

/-- the figure that a threshold reads -/
def figure? (t : Threshold) : Option (Snapshot → Option Float) :=
  match t.check with
  | .statusIn codes => some fun s => s.statusFraction? codes
  | .compare a _ _ => t.target.figure? a

variable {target : Metric} {a : Aggregation} {t : Threshold} {metric expression : String}

/-- **The two tables agree**: a metric accepts an aggregation exactly if it has a figure by it -/
theorem isSome_figure? (target : Metric) (a : Aggregation) : (target.figure? a).isSome = target.accepts a := by
  cases target <;> cases a <;> rfl

/-- what is observed is the figure, and nothing where there is none -/
theorem observeAggregation_eq (target : Metric) (a : Aggregation) (s : Snapshot) :
    observeAggregation target a s = (target.figure? a).bind fun figure => figure s := by
  cases target <;> cases a <;> rfl

theorem observe_of_figure? {figure : Snapshot → Option Float} (h : t.figure? = some figure) : t.observe = figure := by
  funext s
  cases hcheck : t.check with
  | statusIn codes =>
    simp only [figure?, hcheck, Option.some.injEq] at h
    simp only [observe, hcheck, ← h]
  | compare a op x =>
    simp only [figure?, hcheck] at h
    simp only [observe, hcheck, observeAggregation_eq, h, Option.bind_some]

/-- what a threshold that was read compares is a figure of its metric, and no other metric than the status has a set -/
theorem check_of_read (h : read metric expression = .ok t) :
    (∃ codes, t.target = .status ∧ t.check = .statusIn codes) ∨
      ∃ a op x, t.check = .compare a op x ∧ t.target.accepts a = true ∧ a.InRange := by
  obtain ⟨-, -, hcheck⟩ := read_eq_ok h
  obtain ⟨fixed, -, hdemands⟩ := readCheck_eq_ok_iff.1 hcheck
  generalize Text.compact expression.toList = s at hdemands
  generalize t.check = check at hdemands ⊢
  cases hdemands with
  | statusIn status => exact .inl ⟨_, status, rfl⟩
  | compare _ _ range accepts => exact .inr ⟨_, _, _, rfl, accepts, range⟩

theorem exists_figure?_of_read (h : read metric expression = .ok t) : ∃ figure, t.figure? = some figure := by
  unfold figure?
  rcases check_of_read h with ⟨codes, -, hcheck⟩ | ⟨a, op, x, hcheck, haccepts, -⟩
  · exact ⟨_, by rw [hcheck]⟩
  · rw [← isSome_figure?] at haccepts
    rw [hcheck]
    exact Option.isSome_iff_exists.1 haccepts

/-! ## Nothing to observe -/

/-- there is nothing of what a metric reads: no outcome, or none with a check; the counts of iterations are there
whatever happened -/
def Metric.Lacks (outcomes : List Outcome) : Metric → Prop
  | .latency | .failed | .status => outcomes = []
  | .checks => ∀ o ∈ outcomes, o.check = none
  | .iterations | .dropped => False

theorem Metric.lacks_iff {outcomes : List Outcome} : target.Lacks outcomes ↔
    (target = .latency ∨ target = .failed ∨ target = .status) ∧ outcomes = [] ∨
      target = .checks ∧ ∀ o ∈ outcomes, o.check = none := by
  cases target <;> simp [Lacks]

/-- percentiles are finite -/
theorem isFinite_of_inRange {p : Float} (h : (Aggregation.percentile p).InRange) : p.isFinite = true :=
  Decimal.isFinite_of_le h.1 h.2 rfl

theorem observeAggregation_eq_none_iff (events : List Aggregate.Event) (haccepts : target.accepts a = true)
    (hrange : a.InRange) : observeAggregation target a (({} : Aggregate).run events).snapshot = none ↔
      target.Lacks (events.filterMap Aggregate.Event.outcome?) := by
  have hsome {x : Float} : some x = none ↔ False := iff_of_false (Option.some_ne_none x) id
  obtain ⟨hmean, hmin, hmax⟩ := Histogram.summary_eq_none_iff (h := (({} : Aggregate).run events).latency)
  cases target with
  | latency =>
    rw [Metric.Lacks, ← histogram_run_eq_nil_iff]
    cases a with
    | avg => exact hmean
    | min => exact hmin
    | max => exact hmax
    | med => exact Histogram.percentile?_eq_none_iff rfl
    | percentile p => exact Histogram.percentile?_eq_none_iff (isFinite_of_inRange hrange)
    | count | rate => cases haccepts
  | iterations | dropped =>
    cases a with
    | count | rate => exact hsome
    | avg | min | max | med | percentile => cases haccepts
  | failed =>
    cases a with
    | rate => exact ratio?_eq_none_iff.trans (iterations_run_eq_zero_iff events)
    | avg | min | max | med | count | percentile => cases haccepts
  | checks =>
    cases a with
    | rate => exact ratio?_eq_none_iff.trans (checks_run_eq_zero_iff events)
    | avg | min | max | med | count | percentile => cases haccepts
  | status => cases a <;> cases haccepts

/-- **A threshold that was read observes nothing only where there is nothing.** Whatever an aggregate is told, such a
threshold has no value exactly if it reads latencies, failures or status codes and there is no outcome, or it reads
checks and no outcome has one. There is a row for it in the table of figures, so it never falls to what the table says
of all other pairs. -/
theorem observe_eq_none_iff (h : read metric expression = .ok t) (events : List Aggregate.Event) :
    let outcomes := events.filterMap Aggregate.Event.outcome?
    (t.observe (({} : Aggregate).run events).snapshot = none ↔
      (t.target = .latency ∨ t.target = .failed ∨ t.target = .status) ∧ outcomes = [] ∨
        t.target = .checks ∧ ∀ o ∈ outcomes, o.check = none) ∧
    ∃ figure, t.figure? = some figure ∧ t.observe = figure := by
  intro outcomes
  refine ⟨?_, ?_⟩
  · rw [← Metric.lacks_iff]
    rcases check_of_read h with ⟨codes, hstatus, hcheck⟩ | ⟨a, op, x, hcheck, haccepts, hrange⟩
    · rw [hstatus, observe, hcheck]
      exact ratio?_eq_none_iff.trans (iterations_run_eq_zero_iff events)
    · rw [observe, hcheck]
      exact observeAggregation_eq_none_iff events haccepts hrange
  · obtain ⟨figure, hfigure⟩ := exists_figure?_of_read h
    exact ⟨figure, hfigure, observe_of_figure? hfigure⟩

/-- the general theorem where there is an outcome without a check -/
theorem observe_eq_none_iff_unchecked :
    let s := (({} : Aggregate).run [.dropped 3, .outcome (.response 0 0 200 .zero (.ofMillis 3))]).snapshot
    (∃ t, read "checks" "rate >= 0.9" = .ok t ∧ t.observe s = none) ∧
      ∃ t, read "p95_latency_ms" "< 500" = .ok t ∧ t.observe s ≠ none := by
  intro s
  have hchecks : (read "checks" "rate >= 0.9").toOption.map target = some .checks := by decide +kernel
  have hlatency : (read "p95_latency_ms" "< 500").toOption.map target = some .latency := by decide +kernel
  cases h : read "checks" "rate >= 0.9" with
  | error e => rw [h] at hchecks; cases hchecks
  | ok t =>
    cases h' : read "p95_latency_ms" "< 500" with
    | error e => rw [h'] at hlatency; cases hlatency
    | ok t' =>
      rw [h] at hchecks
      rw [h'] at hlatency
      have htarget : t.target = .checks := Option.some.inj hchecks
      have htarget' : t'.target = .latency := Option.some.inj hlatency
      refine ⟨⟨t, rfl, (observe_eq_none_iff h _).1.2 (.inr ⟨htarget, ?_⟩)⟩, t', rfl, fun hnone => ?_⟩
      · exact List.forall_mem_singleton.2 rfl
      · rcases (observe_eq_none_iff h' _).1.1 hnone with ⟨-, hempty⟩ | ⟨hother, -⟩
        · cases hempty
        · rw [htarget'] at hother
          cases hother

end Threshold

end LoadGen
