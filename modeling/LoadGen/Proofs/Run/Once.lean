/-
A life that is used again and again. Whoever holds a life may perform scenarios with it, valid or not, and cancel, abort
or report outcomes in between. It runs one scenario at most: the first valid one, if nothing was started before. Every
other attempt is refused and leaves no trace.

- `Use`, `uses`: what may be done with a life, and what it has come to after some uses.
- `runsOf`: the uses that run their scenario.
- `waits_uses`: a life waits as long as no valid scenario was performed.
- `over_uses`: after a run with a report the phase is final.
- `uses_run_once`: what holds of every sequence of uses.
-/
import LoadGen.Proofs.Run.Returned

namespace LoadGen.Lifecycle

/-! ## Uses -/

/-- what whoever holds a life may do with it -/
inductive Use where
  | perform (s : Scenario) (peer : Peer) (calls : List Call)
  | cancel (reason : String)
  | abort (reason : String)
  | emit (o : Metrics.Outcome)

/-- a life after a use -/
def use (l : Lifecycle) : Use → Lifecycle
  | .perform s peer calls => (l.perform s peer calls).2
  | .cancel reason => (l.cancel reason).1
  | .abort reason => (l.abort reason).1
  | .emit o => l.emit o

/-- a life after some uses -/
def uses (l : Lifecycle) (us : List Use) : Lifecycle :=
  us.foldl use l

/-- a scenario is performed that passes its checks -/
def Use.isValid : Use → Bool
  | perform s _ _ => s.check.toOption.isSome
  | cancel _ | abort _ | emit _ => false

/-- the use runs its scenario -/
def runs (l : Lifecycle) : Use → Bool
  | .perform s peer calls => (l.timeline s peer calls).toOption.isSome
  | .cancel _ | .abort _ | .emit _ => false

/-- those of some uses that run their scenario -/
def runsOf (l : Lifecycle) : List Use → List Use
  | [] => []
  | u :: us => if l.runs u then u :: (l.use u).runsOf us else (l.use u).runsOf us

variable {l : Lifecycle} {s : Scenario} {peer : Peer} {calls : List Call} {u : Use} {us : List Use}

theorem isValid_perform_iff : (Use.perform s peer calls).isValid = true ↔ s.check = .ok () := by
  show s.check.toOption.isSome = true ↔ s.check = .ok ()
  cases s.check with
  | error e => exact iff_of_false (fun h => by cases h) fun h => by cases h
  | ok u => exact iff_of_true rfl rfl

/-! ## Attempts -/

theorem timeline_of_invalid {e : ScenarioError} (h : s.check = .error e) :
    l.timeline s peer calls = .error (.scenario e) := by
  unfold timeline
  rw [h]
  rfl

theorem timeline_of_started (h : s.check = .ok ()) (started : l.phase ≠ .configured) :
    l.timeline s peer calls = .error (.alreadyStarted ⟨l.phase⟩) := by
  have hstart : l.start = .error ⟨l.phase⟩ := by
    unfold start
    split
    · rename_i hphase
      exact absurd hphase started
    · rfl
  unfold timeline
  rw [h, hstart]
  rfl

theorem timeline_of_waiting (h : s.check = .ok ()) (waiting : l.phase = .configured) (peer : Peer)
    (calls : List Call) : ∃ t, l.timeline s peer calls = .ok t := by
  unfold timeline start
  rw [h, waiting]
  exact ⟨_, rfl⟩

/-- an attempt that is refused leaves the life as it is -/
theorem perform_of_error {e : RunError} (h : l.timeline s peer calls = .error e) :
    l.perform s peer calls = (.error e, l) := by
  unfold perform
  rw [h]

/-- a scenario runs exactly if it is valid and the life waits -/
theorem runs_iff : l.runs u = true ↔ u.isValid = true ∧ l.phase = .configured := by
  cases u with
  | cancel | abort | emit => exact iff_of_false (fun h => by cases h) fun h => by cases h.1
  | perform s peer calls =>
    rw [isValid_perform_iff]
    show (l.timeline s peer calls).toOption.isSome = true ↔ s.check = .ok () ∧ l.phase = .configured
    cases hs : s.check with
    | error e =>
      rw [timeline_of_invalid hs]
      exact iff_of_false (fun h => by cases h) fun h => by cases h.1
    | ok u =>
      by_cases hphase : l.phase = .configured
      · obtain ⟨t, ht⟩ := timeline_of_waiting hs hphase peer calls
        rw [ht]
        exact iff_of_true rfl ⟨rfl, hphase⟩
      · rw [timeline_of_started hs hphase]
        exact iff_of_false (fun h => by cases h) fun h => hphase h.2

/-! ## Phases -/

/-- **A use without a run** leaves the phase as it is. -/
theorem phase_of_not_runs (h : l.runs u = false) : (l.use u).phase = l.phase := by
  cases u with
  | perform s peer calls =>
    simp only [runs] at h
    cases ht : l.timeline s peer calls with
    | error e => rw [use, perform_of_error ht]
    | ok t =>
      rw [ht] at h
      cases h
  | cancel reason => exact phase_step l (.cancel reason)
  | abort reason => exact phase_step l (.abort reason)
  | emit o => exact phase_step l (.emit o)

/-- a run leaves no life that waits -/
theorem phase_of_runs (h : l.runs u = true) : (l.use u).phase ≠ .configured := by
  cases u with
  | cancel | abort | emit => cases h
  | perform s peer calls =>
    simp only [runs] at h
    cases ht : l.timeline s peer calls with
    | error e =>
      rw [ht] at h
      cases h
    | ok t =>
      rw [use, life_of_perform ht]
      exact ((timeline_staged ht).steps _).phase.ne_configured

theorem waits_use : (l.use u).phase = .configured ↔ l.phase = .configured ∧ u.isValid = false := by
  cases h : l.runs u with
  | true =>
    obtain ⟨hvalid, -⟩ := runs_iff.1 h
    refine iff_of_false (phase_of_runs h) fun hn => ?_
    rw [hn.2] at hvalid
    cases hvalid
  | false =>
    rw [phase_of_not_runs h]
    refine ⟨fun hphase => ⟨hphase, ?_⟩, fun h => h.1⟩
    cases hvalid : u.isValid with
    | false => rfl
    | true =>
      rw [runs_iff.2 ⟨hvalid, hphase⟩] at h
      cases h

/-- **A life waits** as long as no valid scenario was performed. -/
theorem waits_uses :
    (l.uses us).phase = .configured ↔ l.phase = .configured ∧ ∀ u ∈ us, u.isValid = false := by
  induction us generalizing l with
  | nil => exact ⟨fun h => ⟨h, fun u hu => (by cases hu)⟩, fun h => h.1⟩
  | cons u us ih =>
    have hrest : (l.uses (u :: us)).phase = .configured ↔ _ := ih (l := l.use u)
    rw [hrest, waits_use, List.forall_mem_cons, and_assoc]

/-- a life that is over runs nothing, and stays in its phase -/
theorem over_use (terminal : l.phase.isTerminal = true) (u : Use) : (l.use u).phase = l.phase := by
  refine phase_of_not_runs ?_
  cases h : l.runs u with
  | false => rfl
  | true =>
    rw [(runs_iff.1 h).2] at terminal
    cases terminal

theorem over_uses (terminal : l.phase.isTerminal = true) (us : List Use) : (l.uses us).phase = l.phase := by
  induction us generalizing l with
  | nil => rfl
  | cons u us ih =>
    have hphase := over_use terminal u
    exact (ih (l := l.use u) (by rw [hphase]; exact terminal)).trans hphase

/-! ## Any sequence of uses -/

/-- **The first valid scenario is run**, if the life waits, and no other. -/
theorem runsOf_eq (l : Lifecycle) (us : List Use) :
    l.runsOf us = if l.phase = .configured then (us.find? Use.isValid).toList else [] := by
  induction us generalizing l with
  | nil => exact (ite_self []).symm
  | cons u us ih =>
    rw [runsOf, ih, List.find?_cons]
    by_cases hphase : l.phase = .configured
    · rw [if_pos hphase]
      cases hvalid : u.isValid with
      | true =>
        have hruns : l.runs u = true := runs_iff.2 ⟨hvalid, hphase⟩
        rw [if_pos hruns, if_neg (phase_of_runs hruns)]
        rfl
      | false =>
        have hruns : ¬ l.runs u = true := fun h => by rw [(runs_iff.1 h).1] at hvalid; cases hvalid
        rw [if_neg hruns, if_pos (waits_use.2 ⟨hphase, hvalid⟩)]
    · have hruns : ¬ l.runs u = true := fun h => hphase (runs_iff.1 h).2
      rw [if_neg hruns, if_neg hphase, if_neg fun h => hphase (waits_use.1 h).1]

/-- a report tells the phase that the life is in, and that is final -/
theorem phase_of_report {rep : Report} (h : (l.perform s peer calls).1 = .ok rep) :
    rep.phase.isTerminal = true ∧ (l.perform s peer calls).2.phase = rep.phase := by
  obtain ⟨t, ht, hr⟩ := perform_report h
  obtain ⟨hfinished, hphase, -, -⟩ := Run.report?_cases hr
  have hstaged := (timeline_staged ht).steps (t.trace Run.patience)
  rw [life_of_perform ht, hphase]
  exact ⟨by rw [hstaged.phase.isTerminal]; exact hfinished, rfl⟩

/-- **A life runs once, and what is refused leaves no trace.** Of any uses of a life, the first that performs a valid
scenario runs it, if nothing was started before, and no other use runs anything. Wherever in a sequence of uses a
scenario is performed: it runs exactly if it is valid, the life waited and no valid one was performed before. If it is
not valid, the answer is what is wrong with it; if it is valid but does not run, the answer is the phase that the life
is in; both leave the life as it is, with its phase, its clock, its signals, its reason and its figures. If there is a
report, its phase is final, and it is what any valid scenario is answered from then on, whatever else is done in
between. -/
theorem uses_run_once (l : Lifecycle) (us : List Use) :
    l.runsOf us = (if l.phase = .configured then (us.find? Use.isValid).toList else []) ∧
    ∀ past s peer calls,
      let m := l.uses past
      (m.runs (.perform s peer calls) = true ↔
        s.check = .ok () ∧ l.phase = .configured ∧ ∀ u ∈ past, u.isValid = false) ∧
      (∀ e, s.check = .error e → m.perform s peer calls = (.error (.scenario e), m)) ∧
      (s.check = .ok () → m.runs (.perform s peer calls) = false →
        m.perform s peer calls = (.error (.alreadyStarted ⟨m.phase⟩), m)) ∧
      ∀ rep, (m.perform s peer calls).1 = .ok rep →
        rep.phase.isTerminal = true ∧ (m.perform s peer calls).2.phase = rep.phase ∧
        ∀ more s' peer' calls', s'.check = .ok () →
          let m' := (m.perform s peer calls).2.uses more
          m'.perform s' peer' calls' = (.error (.alreadyStarted ⟨rep.phase⟩), m') := by
  refine ⟨l.runsOf_eq us, fun past s peer calls => ?_⟩
  intro m
  refine ⟨?_, fun e he => perform_of_error (timeline_of_invalid he), fun hs hruns => ?_, fun rep hrep => ?_⟩
  · rw [runs_iff, isValid_perform_iff, waits_uses]
  · have hstarted : m.phase ≠ .configured := fun hphase => by
      rw [runs_iff.2 ⟨isValid_perform_iff.2 hs, hphase⟩] at hruns
      cases hruns
    exact perform_of_error (timeline_of_started hs hstarted)
  · obtain ⟨hover, hphase⟩ := phase_of_report hrep
    refine ⟨hover, hphase, fun more s' peer' calls' hs' => ?_⟩
    intro m'
    have hfinal : m'.phase = rep.phase := (over_uses (by rw [hphase]; exact hover) more).trans hphase
    have hstarted : m'.phase ≠ .configured := fun h => by
      rw [← hfinal, h] at hover
      cases hover
    rw [← hfinal]
    exact perform_of_error (timeline_of_started hs' hstarted)

/-- the general theorem at a life that is cancelled, performs a scenario without requests, a valid one, and the same
again -/
theorem uses_run_once_everySecond : ∃ rep,
    let cancelled := (ofScenario everySecond).uses
      [.cancel "early", .perform { everySecond with requests := [] } silent []]
    (cancelled.perform everySecond silent []).1 = .ok rep ∧ rep.phase = .cancelled ∧
      let left := (cancelled.perform everySecond silent []).2
      left.perform everySecond silent [] = (.error (.alreadyStarted ⟨.cancelled⟩), left) := by
  have hrun : (((ofScenario everySecond).uses
      [.cancel "early", .perform { everySecond with requests := [] } silent []]).perform
        everySecond silent []).1.toOption.map Report.phase = some .cancelled := by decide +kernel
  have hvalid : everySecond.check = .ok () := by decide +kernel
  set cancelled := (ofScenario everySecond).uses
    [.cancel "early", .perform { everySecond with requests := [] } silent []] with hcancelled
  cases h : (cancelled.perform everySecond silent []).1 with
  | error e =>
    rw [h] at hrun
    cases hrun
  | ok rep =>
    rw [h] at hrun
    have hphase : rep.phase = .cancelled := Option.some.inj hrun
    obtain ⟨-, hattempts⟩ := uses_run_once (ofScenario everySecond)
      [.cancel "early", .perform { everySecond with requests := [] } silent [], .perform everySecond silent []]
    obtain ⟨-, -, -, hreport⟩ := hattempts
      [.cancel "early", .perform { everySecond with requests := [] } silent []] everySecond silent []
    obtain ⟨-, -, hlater⟩ := hreport rep h
    refine ⟨rep, h, hphase, ?_⟩
    rw [← hphase]
    exact hlater [] everySecond silent [] hvalid

end LoadGen.Lifecycle
