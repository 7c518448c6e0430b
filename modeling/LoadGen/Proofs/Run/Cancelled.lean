/-
A run that is cancelled, and the same run if nobody cancels it. Up to the instant of the stop they do the same; after it
the one only lets end what is under way, and all this ends in the other, too.

- `awaiting`: a run in which one call is still to come.
- `internal?_cases`, `pass?_awaiting`: a call to come changes nothing but how far time passes.
- `Trails`: some steps of one run emit what is within some steps of the other one, and what comes of those beyond.
- `trails_cancelled`, `trails_awaiting`: from a stop on, and from the start on whenever the stop comes.
- `perform_cancelled`: the outcomes of the cancelled run are part of those of the uncancelled one, and how these start
  if exchanges are in turn; so none of its counts is greater.
- `overtaken_not_prefix`: if they are not in turn, a stop may leave the outcome that would have come last.
-/
import LoadGen.Proofs.Run.Stopping

namespace LoadGen

open Metrics

/-! ## A call to come -/

namespace Timeline

variable {t : Timeline} {c : Call} {op : RunOp}

/-- the same run with a call to come -/
def awaiting (t : Timeline) (c : Call) : Timeline :=
  { t with calls := [c] }

/-- a step of a part of the run other than the clock -/
inductive IsPart : RunOp → Prop where
  | schedule : IsPart .schedule
  | proceed : IsPart .proceed
  | work (i : Nat) : IsPart (.work i)

/-- some part of a run goes on, whatever calls are to come, or time passes -/
theorem internal?_cases (t : Timeline) :
    (∃ op, IsPart op ∧ ∀ calls, internal? { t with calls } = some op) ∨
    t.IsIdle ∧ ∀ calls, internal? { t with calls } = pass? { t with calls } := by
  by_cases habort : (t.run.life.aborted && t.run.isLoopReady) = true
  · exact .inl ⟨.proceed, .proceed, fun _ => if_pos habort⟩
  · by_cases hscheduler : t.isSchedulerReady = true
    · exact .inl ⟨.schedule, .schedule, fun _ => (if_neg habort).trans (if_pos hscheduler)⟩
    · by_cases hloop : t.run.isLoopReady = true
      · exact .inl ⟨.proceed, .proceed, fun _ => (if_neg habort).trans ((if_neg hscheduler).trans (if_pos hloop))⟩
      · have hworkers (calls : List Call) : internal? { t with calls } = _ :=
          (if_neg habort).trans ((if_neg hscheduler).trans (if_neg hloop))
        cases hfind : t.run.workers.findIdx? fun w => w.isReady t.run.now with
        | some i => exact .inl ⟨.work i, .work i, fun calls => by rw [hworkers, hfind]⟩
        | none =>
          refine .inr ⟨⟨Bool.eq_false_iff.2 hscheduler, Bool.eq_false_iff.2 hloop, ?_⟩, fun calls => ?_⟩
          · exact List.findIdx?_eq_none_iff.1 hfind
          · rw [hworkers, hfind]

/-- time passes to the call, or before it to where it passes without the call -/
theorem pass?_awaiting (hcalls : t.calls = []) {instant : Duration} (h : earliest? t.timers = some instant) :
    (t.awaiting c).pass? = some (.pass (c.due.least instant - t.run.now)) := by
  have htimers : (t.awaiting c).timers = c.due :: t.timers := by
    simp only [timers, awaiting, hcalls, List.head?_cons, List.head?_nil, Option.map_some, Option.map_none,
      Option.toList_some, Option.toList_none, List.nil_append, List.cons_append]
    rfl
  unfold pass?
  rw [htimers]
  cases hds : t.timers with
  | nil => rw [hds] at h; cases h
  | cons d ds =>
    rw [hds] at h
    cases h
    rw [← Duration.foldl_least_least]
    rfl

/-- where a part of the run goes on, calls to come stay as they are -/
theorem step_awaiting (hop : IsPart op) : (t.awaiting c).step op = (t.step op).awaiting c := by
  cases hop <;> rfl

theorem now_part (hop : IsPart op) : (t.step op).run.now = t.run.now := by
  cases hop with
  | schedule => rfl
  | work i =>
    obtain ⟨pool, workers, random, hframe⟩ := t.run.work_frame i
    have hstep : (t.step (.work i)).run = _ := hframe
    rw [hstep]
  | proceed =>
    obtain ⟨dispatcher, life, loop, workers, discarded, hframe, -, -⟩ := t.run.proceed_frame
    have hstep : (t.step .proceed).run = _ := hframe
    rw [hstep]

/-- a call is made when it is due -/
theorem nextOp?_due (hlive : t.run.loop.isOver = false) (hdue : c.due ≤ t.run.now) :
    (t.awaiting c).nextOp? = some c.op := by
  have hnot : ¬(t.awaiting c).run.loop.isOver = true := by
    rw [Bool.not_eq_true]
    exact hlive
  exact (if_neg hnot).trans (if_pos hdue)

theorem nextOp?_early (hlive : t.run.loop.isOver = false) (hdue : ¬c.due ≤ t.run.now) :
    (t.awaiting c).nextOp? = (t.awaiting c).internal? := by
  have hnot : ¬(t.awaiting c).run.loop.isOver = true := by
    rw [Bool.not_eq_true]
    exact hlive
  exact (if_neg hnot).trans (if_neg hdue)

theorem nextOp?_quiet (hcalls : t.calls = []) (hlive : t.run.loop.isOver = false) : t.nextOp? = t.internal? := by
  unfold nextOp?
  rw [if_neg (by rw [hlive]; decide), hcalls]

end Timeline

/-! ## From the stop on -/

namespace Run

/-- when the drain ends of a run that is stopped now -/
def drainEnd (r : Run) : Duration :=
  match r.loop with
  | .dispatching => r.now + r.scenario.gracefulStop
  | .draining deadline => deadline
  | .closing | .finished .. | .failed => .zero

/-- a settled run in which exchanges that take no time are over -/
structure Quiet (r : Run) : Prop extends Settled r where
  waiting : r.IsInstant → ∀ w ∈ r.workers, w.due? = none

variable {r : Run}

theorem endsBy_drainEnd (r : Run) : r.EndsBy r.drainEnd := by
  unfold EndsBy drainEnd
  cases r.loop <;> first | exact Nat.le_refl _ | trivial

/-- later on the drain has not ended before either -/
theorem lastsTo_drainEnd {now : Duration} (h : now ≤ r.now) : r.LastsTo (drainEnd { r with now }) := by
  unfold LastsTo drainEnd
  cases r.loop with
  | dispatching => exact Duration.add_le_add h (Nat.le_refl _)
  | draining => exact Nat.le_refl _
  | closing | finished | failed => trivial

theorem Quiet.later (h : r.Quiet) (now : Duration) : Quiet { r with now } :=
  ⟨⟨h.empty, h.handless, h.begun⟩, h.waiting⟩

/-- a quiet run owes nothing if exchanges take no time -/
theorem Quiet.awaited_eq_nil (h : r.Quiet) (hinstant : r.IsInstant) (instant : Duration) : r.awaited instant = [] := by
  refine filterMap_promise?_eq_nil fun w hw d hd => ?_
  rw [h.waiting hinstant w hw] at hd
  cases hd

/-- a settled run that is cancelled is halting -/
theorem Settled.cancel (h : r.Settled) (hlive : r.life.phase.isTerminal = false) (reason : String) :
    Halting r.drainEnd (r.step (.cancel reason)) := by
  refine { empty := h.empty, handless := h.handless, begun := h.begun, stopped := ?_, ends := r.endsBy_drainEnd }
  simp only [step, Lifecycle.cancel_of_live hlive]

end Run

namespace Timeline

variable {t u : Timeline} {c : Call} {op op' : RunOp} {n m : Nat} {rest : List Outcome}

/-- whenever time passes a run is quiet -/
theorem quiet_of_isIdle (h : t.run.Regular) (hidle : t.IsIdle) : t.run.Quiet := by
  refine { settled_of_isIdle h hidle with waiting := fun hinstant w hw => ?_ }
  cases hd : w.due? with
  | none => rfl
  | some deadline =>
    obtain ⟨q, startedAt, hq, hstarted, rfl⟩ := (h.times w hw).due hd
    obtain ⟨timer, htimer, hahead⟩ := Worker.timer?_of_isReady (hidle.workers w hw)
    rw [Worker.timer?_of_due? hd, hinstant _ q hq, Duration.add_zero] at htimer
    cases htimer
    exact absurd hstarted (Nat.not_le.2 hahead)

/-- `m` steps of a run are as many as it can take, or as some others and its exchanges take no time -/
def Reaches (t : Timeline) (n m : Nat) : Prop :=
  (t.advance m).run.loop.isOver = true ∨ t.run.IsInstant ∧ n ≤ m

/-- what `u` emits in `n` steps is within what `t` emits in `m` steps and some outcomes beyond these. If `m` steps reach
that far there are none of those, and `u` does not dispatch or drop more. -/
structure Trails (u : Timeline) (n : Nat) (t : Timeline) (m : Nat) (rest : List Outcome) : Prop where
  within : Within t.run.IsInTurn (u.outcomes n) (t.outcomes m ++ rest)
  done : t.Reaches n m → rest = []
  arrived : t.Reaches n m → (u.advance n).run.arrived.AtMost (t.advance m).run.arrived

theorem Reaches.step (hop : t.nextOp? = some op) (h : t.Reaches (n + 1) (m + 1)) : (t.step op).Reaches n m := by
  obtain ⟨hscenario, hpeer⟩ := t.run.setting_step op
  unfold Reaches Run.IsInstant at h ⊢
  rw [advance_succ hop] at h
  rw [show (t.step op).run = t.run.step op from rfl, hscenario, hpeer]
  exact h.imp_right fun ⟨hinstant, hle⟩ => ⟨hinstant, Nat.le_of_succ_le_succ hle⟩

/-- two runs that emit the same in a step -/
theorem Trails.step (hu : u.nextOp? = some op') (ht : t.nextOp? = some op)
    (hsame : u.run.outcome? op' = t.run.outcome? op) (h : (u.step op').Trails n (t.step op) m rest) :
    u.Trails (n + 1) t (m + 1) rest where
  within := by
    rw [outcomes_succ hu, outcomes_succ ht, hsame, List.append_assoc]
    exact (h.within.congr (t.run.isInTurn_step op)).append _
  done hreaches := h.done (hreaches.step ht)
  arrived hreaches := by
    rw [advance_succ hu, advance_succ ht]
    exact h.arrived (hreaches.step ht)

/-- a run that does nothing any more -/
theorem trails_of_outcomes_eq_nil (hcalls : t.calls = []) (h : t.run.Regular) (hnil : u.outcomes n = [])
    (harrived : (u.advance n).run.arrived = t.run.arrived) (m : Nat) : u.Trails n t m [] where
  within := by
    rw [hnil]
    exact .nil _ _
  done _ := rfl
  arrived _ := harrived ▸ (regular_advance hcalls h m).2

/-- a run whose step is a call and emits nothing -/
theorem Trails.cancel {reason : String} (hu : u.nextOp? = some (.cancel reason))
    (h : (u.step (.cancel reason)).Trails n t m rest) : u.Trails (n + 1) t m rest := by
  have hreaches (hr : t.Reaches (n + 1) m) : t.Reaches n m :=
    hr.imp_right fun ⟨hinstant, hle⟩ => ⟨hinstant, Nat.le_of_succ_le hle⟩
  refine ⟨?_, fun hr => h.done (hreaches hr), fun hr => ?_⟩
  · rw [outcomes_succ hu]
    exact h.within
  · rw [advance_succ hu]
    exact h.arrived (hreaches hr)

/-- **From the stop on.** A run that was cancelled, now or when less time had passed, emits no more than it does if
nobody cancels it. -/
theorem trails_cancelled {now : Duration} {reason : String} (hcalls : t.calls = []) (h : t.run.Regular)
    (hquiet : t.run.Quiet) (hlive : t.run.loop.isOver = false) (hnow : now ≤ t.run.now)
    (hbefore : Run.Regular { t.run with now }) (hcalls' : u.calls = [])
    (hrun : u.run = Run.step { t.run with now } (.cancel reason)) (n m : Nat) : ∃ rest, u.Trails n t m rest := by
  have hregular : u.run.Regular := hrun ▸ hbefore.cancel reason
  have hhalt : u.run.Halting (Run.drainEnd { t.run with now }) :=
    hrun ▸ (hquiet.later now).cancel (h.live hlive) reason
  have hawaited (instant : Duration) : u.run.awaited instant = t.run.awaited instant := by rw [hrun]; rfl
  have harrived : u.run.arrived = t.run.arrived := by rw [hrun]; rfl
  have hturn : u.run.IsInTurn ↔ t.run.IsInTurn := by rw [hrun]; exact Iff.rfl
  obtain ⟨hpart, hless⟩ := outcomes_halting hcalls' hregular hhalt n
  obtain ⟨hregular', hmore⟩ := regular_advance hcalls h m
  replace hpart := hpart.congr hturn
  rw [hawaited] at hpart
  rw [harrived] at hless
  by_cases hinstant : t.run.IsInstant
  · rw [hquiet.awaited_eq_nil hinstant] at hpart
    exact ⟨[], hpart.trans (.nil _ _), fun _ => rfl, fun _ => hless.trans hmore⟩
  · have hfull := awaited_outcomes hcalls h (Run.lastsTo_drainEnd hnow) m
    refine ⟨_, hpart.trans hfull, fun hreaches => ?_, fun _ => hless.trans hmore⟩
    exact awaited_of_isOver hregular' (hreaches.resolve_right fun h => hinstant h.1)

/-- a call that is due is made -/
theorem trails_due {now : Duration} (hcalls : t.calls = []) (h : t.run.Regular) (hquiet : t.run.Quiet)
    (hlive : t.run.loop.isOver = false) (hnow : now ≤ t.run.now) (hrun : u.run = { t.run with now })
    (hbefore : u.run.Regular) (hcancel : c.isAbort = false) (hdue : c.due ≤ now) (n m : Nat) :
    ∃ rest, (u.awaiting c).Trails n t m rest := by
  cases n with
  | zero => exact ⟨[], trails_of_outcomes_eq_nil hcalls h rfl (hrun ▸ rfl) m⟩
  | succ n =>
    have hop : (u.awaiting c).nextOp? = some (.cancel c.reason) := by
      rw [nextOp?_due (by rw [hrun]; exact hlive) (by rw [hrun]; exact hdue), Call.op, hcancel]
      rfl
    have hcancelled : ((u.awaiting c).step (.cancel c.reason)).run = Run.step { t.run with now } (.cancel c.reason) :=
      congrArg (fun r => Run.step r (.cancel c.reason)) hrun
    obtain ⟨rest, hrest⟩ := trails_cancelled hcalls h hquiet hlive hnow (hrun ▸ hbefore) rfl hcancelled n m
    exact ⟨rest, .cancel hop hrest⟩

/-- time passes to the stop, and without the stop beyond it -/
theorem trails_pass {instant : Duration} (hcalls : (t.step (.pass (instant - t.run.now))).calls = [])
    (h : (t.step (.pass (instant - t.run.now))).run.Regular) (hquiet : t.run.Quiet) (hlive : t.run.loop.isOver = false)
    (hahead : t.run.now ≤ c.due) (hfirst : c.due ≤ instant)
    (hbefore : (t.step (.pass (c.due - t.run.now))).run.Regular) (hcancel : c.isAbort = false) (n m : Nat) :
    ∃ rest,
      ((t.step (.pass (c.due - t.run.now))).awaiting c).Trails n (t.step (.pass (instant - t.run.now))) m rest := by
  have hstands : t.run.now + (c.due - t.run.now) = c.due := Duration.add_sub_of_le hahead
  have hbeyond : t.run.now + (instant - t.run.now) = instant :=
    Duration.add_sub_of_le (Nat.le_trans hahead hfirst)
  have hnow : t.run.now + (c.due - t.run.now) ≤ t.run.now + (instant - t.run.now) := by
    rw [hstands, hbeyond]
    exact hfirst
  have hdue : c.due ≤ t.run.now + (c.due - t.run.now) := by
    rw [hstands]
    exact Nat.le_refl _
  exact trails_due hcalls h (hquiet.later _) hlive hnow rfl hbefore hcancel hdue n m

/-! ## Whenever the stop comes -/

/-- **Whenever the stop comes**, a run with a stop to come emits no more than the same run without it. -/
theorem trails_awaiting (hcalls : t.calls = []) (h : t.run.Regular) (hcancel : c.isAbort = false)
    (hquiet : c.due ≤ t.run.now → t.run.Quiet) (n m : Nat) : ∃ rest, (t.awaiting c).Trails n t m rest := by
  -- both do the same, step by step, until the call is due
  induction n generalizing t m with
  | zero => exact ⟨[], trails_of_outcomes_eq_nil hcalls h rfl rfl m⟩
  | succ n ih =>
    cases hlive : t.run.loop.isOver with
    | true =>
      have hdone : (t.awaiting c).nextOp? = none := nextOp?_of_isOver hlive
      exact ⟨[], trails_of_outcomes_eq_nil hcalls h (outcomes_of_none hdone _) (by rw [advance_of_none hdone]; rfl) m⟩
    | false =>
      by_cases hdue : c.due ≤ t.run.now
      · exact trails_due hcalls h (hquiet hdue) hlive (Nat.le_refl _) rfl h hcancel hdue (n + 1) m
      · cases m with
        | zero =>
          have hnot : ¬t.Reaches (n + 1) 0 := by
            rintro (hover | ⟨-, hle⟩)
            · rw [show t.advance 0 = t from rfl, hlive] at hover
              cases hover
            · cases hle
          exact ⟨(t.awaiting c).outcomes (n + 1), .refl _ _, fun h => absurd h hnot, fun h => absurd h hnot⟩
        | succ m =>
          obtain ⟨op, hnext⟩ := exists_internal h hlive
          have hop : t.nextOp? = some op := (nextOp?_quiet hcalls hlive).trans hnext
          have hearly := nextOp?_early hlive hdue
          have hcalls' := (internal?_of_nextOp? hcalls hop).2
          have hregular := regular_step h hnext
          obtain ⟨part, hpart, hinternal⟩ | ⟨hidle, hpass⟩ := t.internal?_cases
          · -- some part of the run goes on, and time does not pass
            obtain rfl : part = op := Option.some.inj ((hinternal t.calls).symm.trans hnext)
            have hop' : (t.awaiting c).nextOp? = some part := hearly.trans (hinternal [c])
            obtain ⟨rest, hrest⟩ := ih hcalls' hregular (fun hdue' => absurd (now_part hpart ▸ hdue') hdue) m
            exact ⟨rest, .step hop' hop rfl (step_awaiting hpart ▸ hrest)⟩
          · have hquiet' := quiet_of_isIdle h hidle
            have hpasses : t.pass? = some op := (hpass t.calls).symm.trans hnext
            obtain ⟨instant, hinstant, rfl⟩ := Option.map_eq_some_iff.1 hpasses
            have hnext' : (t.awaiting c).internal? = some (.pass (c.due.least instant - t.run.now)) :=
              (hpass [c]).trans (pass?_awaiting hcalls hinstant)
            have hop' := hearly.trans hnext'
            have hbefore := regular_step (show (t.awaiting c).run.Regular from h) hnext'
            by_cases hfirst : c.due ≤ instant
            · rw [Duration.least, if_pos hfirst] at hop' hbefore
              have hahead : t.run.now ≤ c.due := Nat.le_of_lt (Nat.lt_of_not_le hdue)
              obtain ⟨rest, hrest⟩ := trails_pass hcalls' hregular hquiet' hlive hahead hfirst hbefore hcancel n m
              exact ⟨rest, .step hop' hop rfl hrest⟩
            · -- nothing happens at the stop's instant yet
              rw [Duration.least, if_neg hfirst] at hop'
              obtain ⟨rest, hrest⟩ := ih hcalls' hregular (fun _ => hquiet'.later _) m
              exact ⟨rest, .step hop' hop rfl hrest⟩

end Timeline

/-! ## Figures -/

/-- no count of a snapshot is greater than that of another one -/
structure Metrics.Snapshot.AtMost (a b : Snapshot) : Prop where
  iterations : a.iterations ≤ b.iterations
  dropped : a.dropped ≤ b.dropped
  classes : ∀ k, a.classes.get k ≤ b.classes.get k
  checksPassed : a.checksPassed ≤ b.checksPassed
  checksFailed : a.checksFailed ≤ b.checksFailed

/-- no count of a report is greater than that of another one -/
structure Report.AtMost (a b : Report) : Prop where
  arrived : a.arrived.AtMost b.arrived
  snapshot : a.snapshot.AtMost b.snapshot

theorem Metrics.ClassCounts.total_le {c d : ClassCounts} (h : ∀ k, c.get k ≤ d.get k) : c.total ≤ d.total := by
  have h1 := h .successStatus
  have h2 := h .clientErrorStatus
  have h3 := h .serverErrorStatus
  have h4 := h .networkError
  have h5 := h .timeout
  simp only [get] at h1 h2 h3 h4 h5
  simp only [total]
  omega

/-- the report of a run that is over says what was counted -/
theorem Run.Accounted.report?_eq_some {r : Run} {twice : Nat} (h : r.Accounted twice) {rep : Report}
    (hr : r.report? = some rep) :
    r.loop.isOver = true ∧ rep.arrived = r.arrived ∧ rep.snapshot = r.life.metrics.snapshot := by
  unfold Run.report? at hr
  split at hr
  · rename_i duration snapshot hl
    cases hr
    exact ⟨by rw [hl]; rfl, rfl, (h.finished _ _ hl).2.2⟩
  · cases hr

/-! ## The runs of a scenario -/

namespace Lifecycle

variable {s : Scenario} {peer : Peer} {c : Call} {tc tu : Timeline} {n m : Nat}

theorem timeline_awaiting {l : Lifecycle} (htc : l.timeline s peer [c] = .ok tc) (htu : l.timeline s peer [] = .ok tu) :
    tc = tu.awaiting c ∧ tu.calls = [] := by
  obtain ⟨-, life, hstart, rfl⟩ := timeline_eq_ok htc
  obtain ⟨-, life', hstart', rfl⟩ := timeline_eq_ok htu
  rw [hstart] at hstart'
  cases hstart'
  exact ⟨rfl, rfl⟩

/-- at its start a run is quiet -/
theorem timeline_quiet (htu : (ofScenario s).timeline s peer [] = .ok tu) : tu.run.Quiet := by
  obtain ⟨-, life, -, hrun⟩ := timeline_cases htu
  have hsource : ∀ ramp e, (Source.ofModel s.model) ≠ .closed ramp (.hand e) := by
    intro ramp e
    unfold Source.ofModel
    split
    · unfold Source.ofNext
      split <;> exact fun h => by cases h
    · exact fun h => by cases h
  rw [hrun]
  exact ⟨⟨rfl, hsource, fun w hw => (by cases hw)⟩, fun _ w hw => by cases hw⟩

theorem trails_timeline (hcancel : c.isAbort = false) (htc : (ofScenario s).timeline s peer [c] = .ok tc)
    (htu : (ofScenario s).timeline s peer [] = .ok tu) (n m : Nat) : ∃ rest, tc.Trails n tu m rest := by
  obtain ⟨rfl, hcalls⟩ := timeline_awaiting htc htu
  exact Timeline.trails_awaiting hcalls (timeline_regular htu) hcancel (fun _ => timeline_quiet htu) n m

/-- the books of a run are in order after every step -/
theorem accounted_advance {calls : List Call} {t : Timeline} (ht : (ofScenario s).timeline s peer calls = .ok t)
    (fuel : Nat) : ∃ twice, (t.advance fuel).run.Accounted twice := by
  rw [t.run_advance]
  exact ⟨_, Run.accounted_steps (timeline_accounted rfl ht) _⟩

/-- a run that emits no more outcomes and drops no more counts no more -/
theorem snapshot_atMost (htc : (ofScenario s).timeline s peer [c] = .ok tc)
    (htu : (ofScenario s).timeline s peer [] = .ok tu) (hpart : (tc.outcomes n).Subperm (tu.outcomes m))
    (harrived : (tc.advance n).run.arrived.AtMost (tu.advance m).run.arrived) :
    (tc.advance n).run.life.metrics.snapshot.AtMost (tu.advance m).run.life.metrics.snapshot := by
  have hcounts {figure : Aggregate → Nat} {p : Outcome → Bool} (h : Aggregate.Counts figure p) :
      figure (tc.advance n).run.life.metrics ≤ figure (tu.advance m).run.life.metrics := by
    obtain ⟨hsame, -⟩ := timeline_awaiting htc htu
    rw [Timeline.counts_advance h, Timeline.counts_advance h, show tc.run = tu.run by rw [hsame]; rfl]
    exact Nat.add_le_add_left (hpart.countP_le p) _
  have hclasses (k : OutcomeClass) := hcounts (counts_class k)
  obtain ⟨_, hcut⟩ := accounted_advance htc n
  obtain ⟨_, hfull⟩ := accounted_advance htu m
  refine
    { iterations := ClassCounts.total_le hclasses, dropped := ?_, classes := hclasses
      checksPassed := hcounts counts_checksPassed, checksFailed := hcounts counts_checksFailed }
  have hdropped : (tc.advance n).run.life.metrics.dropped ≤ (tu.advance m).run.life.metrics.dropped := by
    rw [hcut.dropped, hfull.dropped]
    exact harrived.dropped
  exact hdropped

/-- the outcomes of a cancelled run, and those of the same run that goes on long enough without the stop -/
theorem outcomes_timeline (hcancel : c.isAbort = false) (htc : (ofScenario s).timeline s peer [c] = .ok tc)
    (htu : (ofScenario s).timeline s peer [] = .ok tu)
    (hreaches : (tu.advance m).run.loop.isOver = true ∨ s.IsInstant peer ∧ n ≤ m) :
    Within (s.IsInTurn peer) (tc.outcomes n) (tu.outcomes m) ∧
      (tc.advance n).run.arrived.AtMost (tu.advance m).run.arrived := by
  obtain ⟨-, life, -, hrun⟩ := timeline_cases htu
  have hinstant : tu.run.IsInstant ↔ s.IsInstant peer := by rw [hrun]; exact Iff.rfl
  have hturn : tu.run.IsInTurn ↔ s.IsInTurn peer := by rw [hrun]; exact Iff.rfl
  obtain ⟨rest, hwithin, hdone, harrived⟩ := trails_timeline hcancel htc htu n m
  have hr : tu.Reaches n m := hreaches.imp_right fun ⟨h, hle⟩ => ⟨hinstant.2 h, hle⟩
  rw [hdone hr, List.append_nil] at hwithin
  exact ⟨hwithin.congr hturn, harrived hr⟩

/-- the reports of a cancelled run and of the same run without the stop -/
theorem report_atMost (hcancel : c.isAbort = false) {part full : Report}
    (hpart : ((ofScenario s).perform s peer [c]).1 = .ok part)
    (hfull : ((ofScenario s).perform s peer []).1 = .ok full) :
    part.AtMost full := by
  obtain ⟨tc, htc, hpart⟩ := perform_report hpart
  obtain ⟨tu, htu, hfull⟩ := perform_report hfull
  rw [← Timeline.run_advance] at hpart hfull
  obtain ⟨_, hcut⟩ := accounted_advance htc Run.patience
  obtain ⟨_, hwhole⟩ := accounted_advance htu Run.patience
  obtain ⟨-, harrived, hsnapshot⟩ := hcut.report?_eq_some hpart
  obtain ⟨hover, harrived', hsnapshot'⟩ := hwhole.report?_eq_some hfull
  obtain ⟨hwithin, hless⟩ := outcomes_timeline hcancel htc htu (n := Run.patience) (.inl hover)
  refine ⟨?_, ?_⟩
  · rw [harrived, harrived']
    exact hless
  · rw [hsnapshot, hsnapshot']
    exact snapshot_atMost htc htu hwithin.part hless

/-- three iterations, one a second, whose requests cannot be sent -/
def everySecond : Scenario :=
  { pausing with
    name := "every second"
    model := .constantArrivalRate 1 (.ofSecs 1) (.ofSecs 3) 9 9
    thinkTime := .none }

/-- three iterations, one a second, whose requests are sent -/
def overtaking : Scenario :=
  { everySecond with
    name := "overtaking"
    requests := [⟨.get, "http://a/", [], "", []⟩]
    gracefulStop := .ofSecs 30 }

/-- a peer that takes five seconds for the first iteration and 100 ms for the others -/
def slowAtFirst : Peer := fun seq _ =>
  (if seq = 0 then .ofSecs 5 else .ofMillis 100, .ok ⟨200, 0⟩)

/-- a stop between the first iteration and the second -/
def halfway : Call :=
  ⟨.ofMillis 500, false, "enough"⟩

end Lifecycle

end LoadGen
