/-
What the figures of a snapshot say about each other. An outcome is counted in its class, under its status code, as a
check, in the histogram and in the series, each on its own; as every outcome is that of an exchange, which class it has
is settled by its status, and so all of these counts agree.

- `Web.Exchanged`: an exchange with the request that it is for, and its outcome.
- `Classified`: a response has the class of its status code, anything else is a network error or a timeout.
- `total_statusCodes`: every status code is in one of the three ranges.
- `snapshot_conserves`: the conservation laws, for the exchanges of any run.
-/
import LoadGen.Proofs.Metrics.Figures
import LoadGen.Web.Exchange

namespace LoadGen

open Metrics

/-! ## Outcomes of exchanges -/

namespace Web

/-- an exchange of an iteration, with the request that it is for -/
structure Exchanged where
  request : RequestSpec
  iteration : Iteration
  exchange : Exchange

namespace Exchanged

def outcome (x : Exchanged) : Outcome :=
  classify x.request x.iteration x.exchange

/-- the request says which statuses it expects -/
def isChecked (x : Exchanged) : Bool :=
  !x.request.expectStatus.isEmpty

/-- there is a response, and the request expects its status -/
def isExpected (x : Exchanged) : Bool :=
  x.outcome.status.any fun code => x.request.expectStatus.contains code

end Exchanged

end Web

namespace Metrics

/-- a response has the class of its status, and what is no response is a network error or a timeout -/
def Outcome.Classified (o : Outcome) : Prop :=
  match o.status with
  | some code => o.kind = .ofStatus code
  | none => o.kind = .networkError ∨ o.kind = .timeout

end Metrics

namespace Web.Exchanged

/-- a check changes neither the status nor the class -/
theorem outcome_eq (x : Exchanged) :
    x.outcome = { plainOutcome x.iteration x.exchange with
      check := if x.isChecked then some x.isExpected else none } := by
  have hstatus : x.outcome.status = (plainOutcome x.iteration x.exchange).status := by
    unfold outcome classify
    split <;> rfl
  unfold isExpected isChecked
  rw [hstatus]
  unfold outcome classify
  cases he : x.request.expectStatus.isEmpty with
  | false => rfl
  | true => cases x.exchange <;> rfl

theorem classified_outcome (x : Exchanged) : x.outcome.Classified := by
  rw [outcome_eq]
  unfold plainOutcome
  cases x.exchange with
  | ok r => rfl
  | error e =>
    show (if e.isTimeout then OutcomeClass.timeout else .networkError) = .networkError ∨
      (if e.isTimeout then OutcomeClass.timeout else .networkError) = .timeout
    split
    · exact .inr rfl
    · exact .inl rfl

theorem check_outcome (x : Exchanged) : x.outcome.check = if x.isChecked then some x.isExpected else none :=
  congrArg Outcome.check x.outcome_eq

/-- nothing is expected of a request that is not checked -/
theorem isChecked_of_isExpected {x : Exchanged} (h : x.isExpected = true) : x.isChecked = true := by
  unfold isExpected at h
  unfold isChecked
  cases he : x.request.expectStatus with
  | nil =>
    rw [he] at h
    cases hs : x.outcome.status <;> rw [hs] at h <;> cases h
  | cons code rest => rfl

theorem check_eq_true_iff (x : Exchanged) : x.outcome.check = some true ↔ x.isExpected = true := by
  rw [check_outcome]
  cases hc : x.isChecked with
  | true => simp
  | false =>
    have hne : x.isExpected ≠ true := fun h => by rw [isChecked_of_isExpected h] at hc; cases hc
    simp [hne]

theorem check_eq_false_iff (x : Exchanged) :
    x.outcome.check = some false ↔ x.isChecked = true ∧ x.isExpected = false := by
  rw [check_outcome]
  cases x.isChecked <;> simp

/-- a check passes or fails -/
theorem countP_isChecked (xs : List Exchanged) :
    xs.countP isChecked = xs.countP isExpected + xs.countP fun x => x.isChecked && !x.isExpected := by
  induction xs with
  | nil => rfl
  | cons x xs ih =>
    have hx := isChecked_of_isExpected (x := x)
    simp only [List.countP_cons, ih]
    cases he : x.isExpected with
    | true => simp [hx he]; omega
    | false => simp; omega

end Web.Exchanged

namespace Metrics

/-! ## Classes and codes -/

namespace Outcome.Classified

variable {o : Outcome}

/-- the class of a status, found again from the class -/
theorem any_status_iff (h : o.Classified) (k : OutcomeClass) (hn : k ≠ .networkError) (ht : k ≠ .timeout) :
    (o.status.any fun code => decide (OutcomeClass.ofStatus code = k)) = true ↔ o.kind = k := by
  unfold Classified at h
  cases hs : o.status with
  | some code =>
    rw [hs] at h
    rw [h]
    simp
  | none =>
    rw [hs] at h
    simp only [Option.any_none, Bool.false_eq_true, false_iff]
    rintro rfl
    rcases h with h | h
    · exact hn h
    · exact ht h

end Outcome.Classified

theorem OutcomeClass.ofStatus_eq_success {code : Nat} : ofStatus code = .successStatus ↔ code ≤ 399 := by
  unfold ofStatus; grind

theorem OutcomeClass.ofStatus_eq_clientError {code : Nat} :
    ofStatus code = .clientErrorStatus ↔ 400 ≤ code ∧ code ≤ 499 := by
  unfold ofStatus; grind

theorem OutcomeClass.ofStatus_eq_serverError {code : Nat} : ofStatus code = .serverErrorStatus ↔ 500 ≤ code := by
  unfold ofStatus; grind

/-! ## Ranges of status codes -/

/-- the outcomes with a status code of some kind -/
def Snapshot.withStatus (s : Snapshot) (q : Nat → Bool) : Nat :=
  Tally.total (s.statusCodes.filter fun c => q c.1)

/-- every status code is in one of the three ranges -/
theorem total_statusCodes (s : Snapshot) :
    Tally.total s.statusCodes = s.withStatus (· ≤ 399) + s.withStatus (fun code => 400 ≤ code && code ≤ 499) +
      s.withStatus (500 ≤ ·) := by
  unfold Snapshot.withStatus
  induction s.statusCodes with
  | nil => rfl
  | cons c rest ih =>
    obtain ⟨code, n⟩ := c
    rw [Tally.total, ih]
    rcases Nat.lt_or_ge code 400 with hlow | hlow
    · have hclient : ¬ 400 ≤ code := by omega
      have hserver : ¬ 500 ≤ code := by omega
      simp [Tally.total, Nat.le_of_lt_succ hlow, hclient, hserver]
      omega
    · rcases Nat.lt_or_ge code 500 with hmiddle | hhigh
      · have hsuccess : ¬ code ≤ 399 := by omega
        simp [Tally.total, hlow, Nat.le_of_lt_succ hmiddle, hsuccess, Nat.not_le.2 hmiddle]
        omega
      · have hsuccess : ¬ code ≤ 399 := by omega
        have hclient : ¬ code ≤ 499 := by omega
        simp [Tally.total, hhigh, hsuccess, hclient]
        omega

theorem Histogram.summary_count (h : Histogram) : h.summary.count = Tally.total h := by
  unfold summary
  split <;> rfl

/-! ## The series -/

/-- the series shows no more than the outcomes, and all of them if it has room for their seconds -/
theorem total_rateSeries (events : List Aggregate.Event) :
    let seconds := (events.filterMap Aggregate.Event.outcome?).map fun o => o.completedAt.secs
    let shown := Tally.total (({} : Aggregate).run events).snapshot.rateSeries
    shown ≤ seconds.length ∧ (seconds.dedup.length ≤ 3600 → shown = seconds.length) := by
  intro seconds shown
  have hall : Tally.total (seconds.foldl (fun t x => Tally.bump x t) []) = seconds.length := by
    rw [Tally.total_foldl_bump]
    exact Nat.zero_add _
  have hshown : shown = Tally.total (Tally.newest 3600 (seconds.foldl (fun t x => Tally.bump x t) [])) := by
    have hcells := RateSeries.cells_foldl_record (RateSeries.kept_empty 3600)
      ((events.filterMap Aggregate.Event.outcome?).map Outcome.completedAt)
    rw [List.map_map] at hcells
    show Tally.total (({} : Aggregate).run events).series.points = _
    rw [RateSeries.total_points, Aggregate.series_run]
    exact congrArg Tally.total hcells
  refine ⟨?_, fun hroom => ?_⟩
  · rw [hshown, ← hall]
    exact Tally.total_newest_le _ _
  · rw [← RateSeries.length_foldl_bump] at hroom
    rw [hshown, Tally.newest_of_length_le hroom, hall]

/-! ## The laws -/

variable {events : List Aggregate.Event} {xs : List Web.Exchanged}

/-- the outcomes with a status code in a range are those of the class of this range -/
theorem withStatus_eq_get (h : events.filterMap Aggregate.Event.outcome? = xs.map Web.Exchanged.outcome)
    {q : Nat → Bool} {k : OutcomeClass} (hq : ∀ code, OutcomeClass.ofStatus code = k ↔ q code = true)
    (hn : k ≠ .networkError) (ht : k ≠ .timeout) :
    (({} : Aggregate).run events).snapshot.withStatus q = (({} : Aggregate).run events).classes.get k := by
  have hcodes := (counts_statusCodes q).run_empty rfl events
  have hclass := (counts_class k).run_empty (by cases k <;> rfl) events
  show Tally.total ((({} : Aggregate).run events).statusCodes.filter fun c => q c.1) = _
  rw [hcodes, hclass, h, List.countP_map, List.countP_map]
  refine List.countP_congr fun x _ => ?_
  have hstatus := x.classified_outcome.any_status_iff k hn ht
  simp only [hq, Bool.decide_eq_true] at hstatus
  simpa using hstatus

/-- **The conservation laws of a snapshot.** Whatever an aggregate is told, if its outcomes are those of some exchanges:
the iterations are the outcomes, those of the five classes together, and those in the histogram; the status codes up to
399, from 400 to 499 and from 500 on are the counts of the three classes of responses, and with the network errors and
timeouts they make up the iterations; every exchange of a request with expected statuses is checked, and passes exactly
if its response has one of these; and the series shows no more than the iterations, and all of them if they are complete
in no more than 3600 different seconds. -/
theorem snapshot_conserves (h : events.filterMap Aggregate.Event.outcome? = xs.map Web.Exchanged.outcome) :
    let s := (({} : Aggregate).run events).snapshot
    s.iterations = xs.length ∧
    s.iterations = s.classes.successStatus + s.classes.clientErrorStatus + s.classes.serverErrorStatus +
      s.classes.networkError + s.classes.timeout ∧
    s.latency.count = s.iterations ∧
    s.withStatus (· ≤ 399) = s.classes.successStatus ∧
    s.withStatus (fun code => 400 ≤ code && code ≤ 499) = s.classes.clientErrorStatus ∧
    s.withStatus (500 ≤ ·) = s.classes.serverErrorStatus ∧
    Tally.total s.statusCodes + s.classes.networkError + s.classes.timeout = s.iterations ∧
    s.checksPassed + s.checksFailed = xs.countP Web.Exchanged.isChecked ∧
    s.checksPassed = xs.countP Web.Exchanged.isExpected ∧
    (∀ x ∈ xs, x.outcome.check = some true →
      ∃ code ∈ x.request.expectStatus, x.outcome.status = some code) ∧
    Tally.total s.rateSeries ≤ s.iterations ∧
    ((xs.map fun x => x.outcome.completedAt.secs).dedup.length ≤ 3600 →
      Tally.total s.rateSeries = s.iterations) := by
  intro s
  have hiterations : s.iterations = xs.length := by
    rw [show s.iterations = (({} : Aggregate).run events).classes.total from rfl,
      counts_iterations.run_empty rfl events, List.countP_true, h, List.length_map]
  have hlatency : s.latency.count = s.iterations := by
    rw [hiterations, show s.latency.count = (({} : Aggregate).run events).latency.summary.count from rfl,
      Histogram.summary_count, counts_latency.run_empty rfl events, List.countP_true, h, List.length_map]
  have hsuccess : s.withStatus (· ≤ 399) = s.classes.successStatus :=
    withStatus_eq_get h (k := .successStatus) (fun code => by simp [OutcomeClass.ofStatus_eq_success])
      (by decide) (by decide)
  have hclient : s.withStatus (fun code => 400 ≤ code && code ≤ 499) = s.classes.clientErrorStatus :=
    withStatus_eq_get h (k := .clientErrorStatus) (fun code => by simp [OutcomeClass.ofStatus_eq_clientError])
      (by decide) (by decide)
  have hserver : s.withStatus (500 ≤ ·) = s.classes.serverErrorStatus :=
    withStatus_eq_get h (k := .serverErrorStatus) (fun code => by simp [OutcomeClass.ofStatus_eq_serverError])
      (by decide) (by decide)
  have hclasses : s.iterations = s.classes.successStatus + s.classes.clientErrorStatus + s.classes.serverErrorStatus +
      s.classes.networkError + s.classes.timeout := rfl
  have hcodes := total_statusCodes s
  have hpassed : s.checksPassed = xs.countP Web.Exchanged.isExpected := by
    rw [show s.checksPassed = (({} : Aggregate).run events).checksPassed from rfl,
      counts_checksPassed.run_empty rfl events, h, List.countP_map]
    exact List.countP_congr fun x _ => by simp [x.check_eq_true_iff]
  have hfailed : s.checksFailed = xs.countP fun x => x.isChecked && !x.isExpected := by
    rw [show s.checksFailed = (({} : Aggregate).run events).checksFailed from rfl,
      counts_checksFailed.run_empty rfl events, h, List.countP_map]
    exact List.countP_congr fun x _ => by simp [x.check_eq_false_iff]
  have hseries := total_rateSeries events
  rw [h, List.map_map] at hseries
  obtain ⟨hle, heq⟩ := hseries
  rw [List.length_map] at hle heq
  refine ⟨hiterations, hclasses, hlatency, hsuccess, hclient, hserver, by omega, ?_, hpassed, ?_, ?_, ?_⟩
  · rw [hpassed, hfailed, Web.Exchanged.countP_isChecked]
  · intro x _ hx
    obtain ⟨code, hstatus, hmem⟩ := (Option.any_eq_true _ _).1 (x.check_eq_true_iff.1 hx)
    exact ⟨code, List.contains_iff_mem.1 hmem, hstatus⟩
  · rw [hiterations]
    exact hle
  · intro hseconds
    rw [hiterations]
    exact heq hseconds

/-- a refusal that was expected, two drops, and a minute later a request that timed out -/
theorem snapshot_conserves_refusal :
    let refused : Web.Exchanged :=
      ⟨⟨.get, "http://a/", [], "", [200, 429]⟩, ⟨0, 0, .zero, .ofMillis 3⟩, .ok ⟨429, 17⟩⟩
    let lost : Web.Exchanged :=
      ⟨⟨.get, "http://a/", [], "", []⟩, ⟨1, 1, .zero, .ofSecs 60⟩, .error (.timeout (.ofSecs 60))⟩
    let events : List Aggregate.Event :=
      [.outcome refused.outcome, .dropped 2, .outcome lost.outcome, .horizon (.ofSecs 61)]
    let s := (({} : Aggregate).run events).snapshot
    events.filterMap Aggregate.Event.outcome? = [refused, lost].map Web.Exchanged.outcome ∧
      s.iterations = 2 ∧ s.latency.count = s.iterations ∧ s.checksPassed = 1 ∧
      Tally.total s.rateSeries = s.iterations := by
  intro refused lost events s
  have h : events.filterMap Aggregate.Event.outcome? = [refused, lost].map Web.Exchanged.outcome := rfl
  obtain ⟨hiterations, -, hlatency, -, -, -, -, -, hpassed, -, -, hseries⟩ := snapshot_conserves h
  exact ⟨h, hiterations, hlatency, hpassed, hseries (by decide)⟩

end Metrics

end LoadGen
