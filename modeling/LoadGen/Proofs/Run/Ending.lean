/-
When a run ends. It dispatches until its model is over, somebody stops it or somebody aborts it, whatever is first; then
it drains, until its graceful stop is over or somebody aborts it, and what is under way then is cut short.

- `dispatchEnd`, `runEnd`: these instants, told from the scenario and the calls.
- `Punctual`: the invariant of a run on virtual time that keeps to them; `Punctual.advance`: it does so throughout.
- `Interrupts`: a run that stops draining has no workers left, and counts those that it cut short.
- `run_ends_by`: every run keeps to its ends, and reaches them if its arrivals end.
-/
import LoadGen.Proofs.Run.Overshoot
import LoadGen.Proofs.Run.Progress
import LoadGen.Proofs.Run.Returned

namespace LoadGen

/-! ## The ends of a run -/

namespace Lifecycle

/-- the instants of some calls, the start of the run for one that came before it -/
def instants (before : Bool) (calls : List Call) : List Duration :=
  (if before then [.zero] else []) ++ calls.map Call.due

/-- the instants at which a run is aborted -/
def aborts (l : Lifecycle) (calls : List Call) : List Duration :=
  instants l.aborted (calls.filter fun c => c.isAbort)

/-- when the schedule of a run ends: with its model, or when somebody stops it -/
def scheduleEnd (l : Lifecycle) (s : Scenario) (calls : List Call) : Duration :=
  (instants l.stopped (calls.filter fun c => !c.isAbort)).foldl Duration.least s.model.totalDuration

/-- when a run no longer dispatches: its schedule ends, or somebody aborts it -/
def dispatchEnd (l : Lifecycle) (s : Scenario) (calls : List Call) : Duration :=
  (l.aborts calls).foldl Duration.least (l.scheduleEnd s calls)

/-- when a run is over: the graceful stop after its schedule ends, or somebody aborts it -/
def runEnd (l : Lifecycle) (s : Scenario) (calls : List Call) : Duration :=
  (l.aborts calls).foldl Duration.least (l.scheduleEnd s calls + s.gracefulStop)

variable {l : Lifecycle} {s : Scenario} {calls : List Call} {before : Bool} {d : Duration}

/-- an instant at which there is a call is the start of the run, or that of a call in it -/
theorem mem_instants (h : d ∈ instants before calls) : before = true ∧ d = .zero ∨ ∃ c ∈ calls, c.due = d := by
  rcases List.mem_append.1 h with hd | hd
  · cases before with
    | true => exact .inl ⟨rfl, List.mem_singleton.1 hd⟩
    | false => cases hd
  · exact .inr (List.mem_map.1 hd)

/-- dispatching ends with the schedule at the latest, so draining ends the graceful stop later at the latest -/
theorem dispatchEnd_le (l : Lifecycle) (s : Scenario) (calls : List Call) :
    l.dispatchEnd s calls ≤ l.scheduleEnd s calls :=
  Duration.foldl_least_le _ _

end Lifecycle

/-! ## Runs that keep to their ends -/

namespace Timeline

/-- a run that dispatches until `dispatchEnd` at most, and is over by `runEnd` -/
structure Punctual (dispatchEnd runEnd : Duration) (t : Timeline) : Prop extends t.Paced where
  announced : t.Announced dispatchEnd
  condemned : dispatchEnd + t.run.scenario.gracefulStop ≤ runEnd ∨ t.Condemned runEnd
  keeps : t.run.Keeps dispatchEnd
  within : t.run.Within runEnd

variable {t : Timeline} {op : RunOp} {dispatchEnd runEnd : Duration}

namespace Punctual

/-- while time passes a run dispatches no longer than until its end -/
theorem keeps_pass (h : t.Punctual dispatchEnd runEnd) {span : Duration} (hop : t.nextOp? = some (.pass span)) :
    (t.step (.pass span)).run.Keeps dispatchEnd := by
  obtain ⟨hidle, -, hpass⟩ := idle_of_pass hop
  refine ⟨fun (hl : t.run.loop = .dispatching) => ?_, fun deadline (hl : t.run.loop = .draining deadline) => ?_⟩
  · obtain ⟨d, hd, hdue⟩ := h.toPaced.exists_timer_le hidle hl h.announced
    exact now_pass_le hpass hd hdue (h.keeps.dispatching hl)
  · obtain ⟨hnow, hdeadline⟩ := h.keeps.draining deadline hl
    exact ⟨now_pass_le hpass (mem_timers_of_draining hl) (Nat.le_refl _) hnow, hdeadline⟩

/-- while time passes a run goes on no longer than until its end -/
theorem within_pass (h : t.Punctual dispatchEnd runEnd) {span : Duration} (hop : t.nextOp? = some (.pass span)) :
    (t.step (.pass span)).run.Within runEnd := by
  obtain ⟨hlive, -⟩ := happens hop
  obtain ⟨hidle, -, hpass⟩ := idle_of_pass hop
  refine ⟨?_, h.within.finished⟩
  rcases h.condemned with hend | hcondemned
  · have hkeeps := h.keeps_pass hop
    cases h.toPaced.rests hidle hlive with
    | dispatching loop =>
      have hnow := hkeeps.dispatching loop
      exact Nat.le_trans hnow (Nat.le_trans (Duration.le_add_right _ _) hend)
    | draining deadline loop =>
      obtain ⟨hnow, hdeadline⟩ := hkeeps.draining deadline loop
      exact Nat.le_trans hnow (Nat.le_trans hdeadline hend)
  · obtain ⟨d, hd, hdue⟩ := h.toPaced.exists_timer_le_abort hidle hlive hcondemned
    exact now_pass_le hpass hd hdue h.within.now

/-- **Whatever happens next, a run keeps to its ends.** -/
theorem step (h : t.Punctual dispatchEnd runEnd) (hop : t.nextOp? = some op) :
    (t.step op).Punctual dispatchEnd runEnd := by
  have hscenario := t.scenario_step op
  have hcondemned : dispatchEnd + (t.step op).run.scenario.gracefulStop ≤ runEnd ∨ (t.step op).Condemned runEnd := by
    rw [hscenario]
    exact h.condemned.imp id fun hcondemned => h.toPaced.condemned_step hcondemned hop
  by_cases hpass : ∃ span, op = .pass span
  · obtain ⟨span, rfl⟩ := hpass
    exact ⟨h.toPaced.step _, h.toPaced.announced_step h.announced hop, hcondemned, h.keeps_pass hop,
      h.within_pass hop⟩
  · have hbusy : ∀ span, op ≠ .pass span := fun span heq => hpass ⟨span, heq⟩
    exact ⟨h.toPaced.step _, h.toPaced.announced_step h.announced hop, hcondemned, h.keeps.step hbusy,
      h.within.step hbusy⟩

theorem advance (h : t.Punctual dispatchEnd runEnd) (n : Nat) : (t.advance n).Punctual dispatchEnd runEnd := by
  induction n generalizing t with
  | zero => exact h
  | succ n ih =>
    cases hop : t.nextOp? with
    | none =>
      rw [advance_of_none hop]
      exact h
    | some op =>
      rw [advance_succ hop]
      exact ih (h.step hop)

end Punctual

/-! ## What is under way at the end -/

/-- a run that stops draining has no workers left: those it had were cut short, and are counted. There were some only if
somebody asked for an abort or the drain was over -/
def Interrupts (t : Timeline) : Prop :=
  ∀ op deadline, t.nextOp? = some op → t.run.loop = .draining deadline → (t.step op).run.loop = .closing →
    (t.step op).run.workers = [] ∧
    (t.step op).run.life.metrics.interrupted = t.run.life.metrics.interrupted + t.run.workers.length ∧
    (t.run.workers ≠ [] → t.run.life.aborted = true ∨ t.run.now = deadline)

theorem Punctual.interrupts (h : t.Punctual dispatchEnd runEnd) : t.Interrupts := by
  intro op deadline _ draining closing
  obtain ⟨hnow, -⟩ := h.keeps.draining deadline draining
  have hop : op = .proceed := by
    by_contra hop
    have hloop : (t.step op).run.loop = t.run.loop := Run.loop_step hop
    rw [hloop, draining] at closing
    cases closing
  subst hop
  have hp := t.run.proceeds
  have hrun : (t.step .proceed).run = t.run.proceed := rfl
  rw [hrun] at closing ⊢
  generalize t.run.proceed = r' at hp closing ⊢
  cases hp with
  | stay =>
    rw [draining] at closing
    cases closing
  | drain loop | accept loop | close loop | finish loop =>
    rw [draining] at loop
    cases loop
  | drained _ _ workers =>
    refine ⟨workers, ?_, fun hsome => absurd workers hsome⟩
    rw [workers]
    rfl
  | interrupt _ loop late =>
    rw [draining] at loop
    cases loop
    exact ⟨rfl, rfl, fun _ => late.imp id fun hlate => Duration.eq_of_nanos (Nat.le_antisymm hnow hlate)⟩

end Timeline

/-! ## Every run -/

namespace Lifecycle

variable {l : Lifecycle} {s : Scenario} {peer : Peer} {calls : List Call} {t : Timeline}

/-- a run starts with its calls to come, and has looked at nothing -/
theorem timeline_calls (ht : l.timeline s peer calls = .ok t) : t.calls = calls ∧ t.looked = .zero := by
  obtain ⟨-, life, -, rfl⟩ := timeline_eq_ok ht
  exact ⟨rfl, rfl⟩

/-- a run is on its pace from the start -/
theorem timeline_paced {failFast : Option Nat} {past : List Op} (traced : Traced failFast past l)
    (ht : l.timeline s peer calls = .ok t) (ordered : calls.Pairwise fun a b => a.due ≤ b.due) : t.Paced := by
  obtain ⟨hcheck, -⟩ := timeline_cases ht
  obtain ⟨-, hrun⟩ := timeline_life ht
  obtain ⟨hcalls, hlooked⟩ := timeline_calls ht
  have hlasts : 0 < s.model.totalDuration.nanos := (Scenario.sound_of_check hcheck).lasts
  have howned := owned_timeline ht []
  refine ⟨timeline_staged ht, ⟨failFast, _, timeline_traced traced ht⟩, ?_, ?_, fun ramp turn _ => ?_, ?_⟩
  · rw [hrun] at howned ⊢
    exact howned
  · rw [hrun]
    exact Source.serves_ofModel s.model
  · rw [hlooked, hrun]
    exact ⟨Nat.zero_le _, hlasts⟩
  · rw [hcalls]
    exact ordered

/-- the end of dispatching is announced from the start -/
theorem timeline_announced (paced : t.Paced) (ht : l.timeline s peer calls = .ok t) :
    t.Announced (l.dispatchEnd s calls) := by
  obtain ⟨-, hrun⟩ := timeline_life ht
  obtain ⟨hcalls, -⟩ := timeline_calls ht
  have hcall {stops : List Call} (hsub : stops ⊆ calls) {d : Duration} (hd : ∃ c ∈ stops, c.due = d) :
      t.Announced d := by
    obtain ⟨c, hc, rfl⟩ := hd
    exact .inr (.inr ⟨c, hcalls.symm ▸ hsub hc, Nat.le_refl _⟩)
  unfold dispatchEnd
  rcases Duration.foldl_least_eq_or_mem (l.scheduleEnd s calls) (l.aborts calls) with heq | habort
  · rw [heq]
    unfold scheduleEnd
    rcases Duration.foldl_least_eq_or_mem s.model.totalDuration
      (instants l.stopped (calls.filter fun c => !c.isAbort)) with heq | hstop
    · rw [heq]
      left
      rw [hrun]
      exact Nat.le_refl _
    · rcases mem_instants hstop with ⟨hstopped, -⟩ | hd
      · right; left
        rw [hrun]
        exact hstopped
      · exact hcall List.filter_sublist.subset hd
  · rcases mem_instants habort with ⟨haborted, -⟩ | hd
    · right; left
      refine paced.stopped_of_aborted ?_
      rw [hrun]
      exact haborted
    · exact hcall List.filter_sublist.subset hd

/-- so is the end of the run, unless it is that of the graceful stop -/
theorem timeline_condemned (ht : l.timeline s peer calls = .ok t) :
    l.dispatchEnd s calls + t.run.scenario.gracefulStop ≤ l.runEnd s calls ∨ t.Condemned (l.runEnd s calls) := by
  obtain ⟨-, hrun⟩ := timeline_life ht
  obtain ⟨hcalls, -⟩ := timeline_calls ht
  unfold runEnd
  rcases Duration.foldl_least_eq_or_mem (l.scheduleEnd s calls + s.gracefulStop) (l.aborts calls) with heq | habort
  · left
    rw [heq, hrun]
    exact Duration.add_le_add (l.dispatchEnd_le s calls) (Nat.le_refl _)
  · right
    rcases mem_instants habort with ⟨haborted, -⟩ | ⟨c, hc, hdue⟩
    · left
      rw [hrun]
      exact haborted
    · obtain ⟨hmem, his⟩ := List.mem_filter.1 hc
      exact .inr ⟨c, hcalls.symm ▸ hmem, his, by rw [hdue]; exact Nat.le_refl _⟩

/-- **A run keeps to its ends from the start.** -/
theorem timeline_punctual {failFast : Option Nat} {past : List Op} (traced : Traced failFast past l)
    (ht : l.timeline s peer calls = .ok t) (ordered : calls.Pairwise fun a b => a.due ≤ b.due) :
    t.Punctual (l.dispatchEnd s calls) (l.runEnd s calls) := by
  have hpaced := timeline_paced traced ht ordered
  obtain ⟨-, hrun⟩ := timeline_life ht
  have hnow : t.run.now = .zero := by rw [hrun]; rfl
  have hloop : t.run.loop = .dispatching := by rw [hrun]; rfl
  refine ⟨hpaced, timeline_announced hpaced ht, timeline_condemned ht, ⟨fun _ => ?_, fun deadline hl => ?_⟩,
    ⟨?_, fun duration snapshot hl => ?_⟩⟩
  · rw [hnow]
    exact Nat.zero_le _
  · rw [hloop] at hl
    cases hl
  · rw [hnow]
    exact Nat.zero_le _
  · rw [hloop] at hl
    cases hl

/-- what is left to do at the start of a run: seven things at each instant of a ramp and five for each arrival, time
that passes before each of them, the calls, and the ends of the phases -/
theorem potential_timeline (ht : l.timeline s peer calls = .ok t) (k : Nat) :
    t.potential k ≤ 14 * s.model.totalDuration.nanos + 10 * k + 2 * calls.length + 11 := by
  obtain ⟨-, hrun⟩ := timeline_life ht
  obtain ⟨hcalls, hlooked⟩ := timeline_calls ht
  have hload : t.run.scheduler.load k t.left ≤ 7 * s.model.totalDuration.nanos + 5 * k + 1 := by
    have hleft : t.left = s.model.totalDuration.nanos := by
      rw [Timeline.left, hlooked, hrun]
      exact Nat.sub_zero _
    have hsource : t.run.scheduler.load k t.left = (Source.ofModel s.model).load k t.left := by
      rw [hrun]
      exact Nat.add_zero _
    rw [hsource, hleft]
    unfold Source.ofModel
    cases Arrivals.ofModel? s.model with
    | none => exact Nat.le_trans (Nat.le_add_right _ (5 * k)) (Nat.le_succ _)
    | some a =>
      simp only
      cases a.pop with
      | due offset rest =>
        show 5 * (k - 0) + 1 ≤ _
        omega
      | finished | unrepresentable => exact Nat.zero_le _
  have hrest : Worker.ranks t.run.workers = 0 ∧ t.run.stage = 4 := by
    rw [hrun]
    exact ⟨rfl, rfl⟩
  have hle := t.potential_le k
  rw [Timeline.chores, Run.chores, hrest.1, hrest.2, hcalls] at hle
  omega

/-- a run that is over is not unfinished -/
theorem perform_of_isOver (ht : l.timeline s peer calls = .ok t)
    (ended : (t.advance Run.patience).run.loop.isOver = true) : (l.perform s peer calls).1 ≠ .error .unfinished := by
  unfold perform
  rw [ht]
  simp only [Run.report?]
  cases hl : (t.advance Run.patience).run.loop with
  | dispatching | draining | closing =>
    rw [hl] at ended
    cases ended
  | finished | failed =>
    intro h
    cases h

/-- the duration in a report is the one that the run took -/
theorem duration_of_report {r : Run} {rep : Report} (h : r.report? = some rep) :
    ∃ snapshot, r.loop = .finished rep.duration snapshot := by
  unfold Run.report? at h
  cases hl : r.loop with
  | finished duration snapshot =>
    rw [hl] at h
    cases h
    exact ⟨snapshot, rfl⟩
  | dispatching | draining | closing | failed =>
    rw [hl] at h
    cases h

/-- one iteration, and its pause of an hour, in a model of three seconds -/
def dozing : Scenario :=
  { pausing with model := .constantArrivalRate 1 (.ofSecs 1) (.ofSecs 3) 1 1 }

/-- a stop after half a second, and an abort before its graceful stop is over -/
def stopThenAbort : List Call :=
  [⟨.ofMillis 500, false, "enough"⟩, ⟨.ofMillis 1200, true, "now"⟩]

end Lifecycle

end LoadGen
