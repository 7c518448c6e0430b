/-
What every step of a run on virtual time keeps, if nobody aborts it: no worker is late, iterations are numbered in the
order in which they start, and where exchanges are in turn they end in this order, too.

- `Scenario.IsInTurn`: no exchange takes less time than that of an earlier iteration.
- `Scenario.IsInstant`: exchanges take no time, as those of requests that cannot be built (`isInstant_of_unbuildable`).
- `Regular`: the invariant, with one lemma for each part of the run.
- `regular_step`: whatever comes next keeps it.
-/
import LoadGen.Proofs.Run.Turns

namespace LoadGen

/-- no exchange takes less time than that of an earlier iteration -/
def Scenario.IsInTurn (s : Scenario) (peer : Peer) : Prop :=
  ∀ i j, i ≤ j → ∀ q r, s.requestFor? i = some q → s.requestFor? j = some r →
    (s.exchange peer i q).1 ≤ (s.exchange peer j r).1

/-- exchanges take no time -/
def Scenario.IsInstant (s : Scenario) (peer : Peer) : Prop :=
  ∀ i q, s.requestFor? i = some q → (s.exchange peer i q).1 = .zero

theorem Scenario.IsInstant.isInTurn {s : Scenario} {peer : Peer} (h : s.IsInstant peer) : s.IsInTurn peer := by
  intro i j _ q r hq _
  rw [h i q hq]
  exact Nat.zero_le _

/-- requests that cannot be built fail at once, whoever is at the far side -/
theorem Scenario.isInstant_of_unbuildable {s : Scenario} (h : ∀ r ∈ s.requests, r.build.toOption = none) (peer : Peer) :
    s.IsInstant peer := by
  intro i q hq
  have hbuild := h q (List.mem_of_getElem? hq)
  unfold Scenario.exchange
  cases hb : q.build with
  | error e => rfl
  | ok b => rw [hb] at hbuild; cases hbuild

namespace Worker

/-- the iteration has not begun -/
def isFresh (w : Worker) : Bool :=
  match w.activity with
  | .fresh => true
  | .requesting .. | .thinking _ => false

/-- when the exchange ends that the worker waits for -/
def due? (w : Worker) : Option Duration :=
  match w.activity with
  | .requesting _ _ deadline _ => some deadline
  | .fresh | .thinking _ => none

/-- the exchange of one worker ends no later than that of another -/
def EndsBefore (a b : Worker) : Prop :=
  ∀ d ∈ a.due?, ∀ e ∈ b.due?, d ≤ e

/-- one that has not begun has only others behind it that have not -/
def BeginsBefore (a b : Worker) : Prop :=
  a.isFresh = true → b.isFresh = true

variable {w : Worker}

theorem isReady_of_isFresh (h : w.isFresh = true) (now : Duration) : w.isReady now = true := by
  unfold isFresh at h
  split at h
  · rename_i ha
    rw [isReady, ha]
  all_goals cases h

theorem due?_of_isFresh (h : w.isFresh = true) : w.due? = none := by
  unfold isFresh at h
  split at h
  · rename_i ha
    rw [due?, ha]
  all_goals cases h

theorem timer?_of_due? {d : Duration} (h : w.due? = some d) : w.timer? = some d := by
  unfold due? at h
  unfold timer?
  cases ha : w.activity with
  | fresh | thinking => rw [ha] at h; cases h
  | requesting => rw [ha] at h; exact h

theorem isFresh_iff : w.isFresh = true ↔ w.activity = .fresh := by
  unfold isFresh
  cases w.activity <;> simp

end Worker

namespace Run

/-- the times of a worker: its request was sent before now, and what it waits for is still to come -/
def Times (r : Run) (w : Worker) : Prop :=
  match w.activity with
  | .fresh => True
  | .requesting request startedAt deadline _ =>
    r.scenario.requestFor? w.dispatch.seq = some request ∧ startedAt ≤ r.now ∧ r.now ≤ deadline ∧
      deadline = startedAt + (r.scenario.exchange r.peer w.dispatch.seq request).1
  | .thinking deadline => r.now ≤ deadline

/-- the iterations that workers are at, and those that wait for one -/
def started (r : Run) : List Dispatch :=
  r.workers.map Worker.dispatch ++ r.scheduler.dispatcher.queue

/-- what every step of a run keeps on virtual time, if nobody aborts it -/
structure Regular (r : Run) : Prop where
  unaborted : r.life.aborted = false
  live : r.loop.isOver = false → r.life.phase.isTerminal = false
  cleared : r.isCleared
  room : 0 < r.scheduler.dispatcher.capacity
  /-- nothing is started once the run loop has begun to drain -/
  served : r.loop ≠ .dispatching → r.scheduler.dispatcher.queue = [] ∧ r.scheduler.isOver = true
  handsNext : r.scheduler.HandsNext
  times : ∀ w ∈ r.workers, r.Times w
  numbered : r.started.Pairwise fun a b => a.seq < b.seq
  ahead : r.scheduler.isOver = false → ∀ e ∈ r.started, e.seq < r.scheduler.number
  begun : r.workers.Pairwise Worker.BeginsBefore
  inTurn : r.scenario.IsInTurn r.peer → r.workers.Pairwise Worker.EndsBefore

variable {r : Run} {w : Worker} {before after : List Worker}

theorem Times.le_timer {d : Duration} (h : r.Times w) (hd : w.timer? = some d) : r.now ≤ d := by
  unfold Times at h
  unfold Worker.timer? at hd
  cases ha : w.activity with
  | fresh => rw [ha] at hd; cases hd
  | requesting request startedAt deadline x =>
    rw [ha] at h hd
    cases hd
    exact h.2.2.1
  | thinking deadline =>
    rw [ha] at h hd
    cases hd
    exact h

/-- the times of a worker are right as long as nothing that it waits for is over -/
theorem Times.later {now : Duration} (h : r.Times w) (hnow : r.now ≤ now)
    (htimer : ∀ d, w.timer? = some d → now ≤ d) : Times { r with now } w := by
  unfold Times at h ⊢
  unfold Worker.timer? at htimer
  cases ha : w.activity with
  | fresh => trivial
  | requesting request startedAt deadline x =>
    rw [ha] at h htimer
    obtain ⟨hrequest, hstarted, -, hdeadline⟩ := h
    exact ⟨hrequest, Nat.le_trans hstarted hnow, htimer deadline rfl, hdeadline⟩
  | thinking deadline =>
    rw [ha] at htimer
    exact htimer deadline rfl

/-! ## The scheduler, the clock and the caller -/

theorem Regular.life (h : r.Regular) {life : Lifecycle} (haborted : life.aborted = r.life.aborted)
    (hphase : life.phase = r.life.phase) : Regular { r with life } :=
  { h with unaborted := haborted.trans h.unaborted, live := fun hl => hphase ▸ h.live hl }

/-- a call that asks for a stop changes the life only -/
theorem Regular.cancel (h : r.Regular) (reason : String) : (r.step (.cancel reason)).Regular := by
  refine h.life ?_ ?_
  · unfold Lifecycle.cancel; split <;> rfl
  · unfold Lifecycle.cancel; split <;> rfl

theorem Regular.pass (h : r.Regular) {span : Duration}
    (htimer : ∀ w ∈ r.workers, ∀ d, w.timer? = some d → r.now + span ≤ d) : (r.step (.pass span)).Regular := by
  exact { h with times := fun w hw => (h.times w hw).later (r.now.le_add_right span) (htimer w hw) }

theorem Regular.schedule (h : r.Regular) : r.schedule.Regular := by
  cases hover : r.scheduler.isOver with
  | true =>
    have hstep : r.schedule = { r with life := r.schedule.life } := by
      simp only [Run.schedule, Scheduler.step_of_isOver hover]
    rw [hstep]
    exact h.life rfl rfl
  | false =>
    obtain ⟨fed, hfed⟩ := Scheduler.feeds_step h.handsNext r.now r.life.stopped
    have hstarted : r.schedule.started = r.started ++ fed.toList := by
      unfold started
      rw [List.append_assoc, ← hfed.queue]
      rfl
    have hserved : r.loop = .dispatching := by
      by_contra hl
      rw [(h.served hl).2] at hover
      cases hover
    have hbefore := h.ahead hover
    refine { h with
      room := Nat.lt_of_lt_of_eq h.room hfed.capacity.symm, served := fun hl => absurd hserved hl
      handsNext := hfed.handsNext, numbered := ?_, ahead := fun hnext => ?_ }
    · rw [hstarted, List.pairwise_append]
      refine ⟨h.numbered, by cases fed <;> simp, fun a ha b hb => ?_⟩
      rw [hfed.numbered b (Option.mem_toList.1 hb)]
      exact hbefore a ha
    · have hnumber := hfed.next hnext
      rw [hstarted, List.forall_mem_append]
      have hlater : r.scheduler.number ≤ r.schedule.scheduler.number := Nat.le_trans (Nat.le_add_right _ _) hnumber
      refine ⟨fun e he => Nat.lt_of_lt_of_le (hbefore e he) hlater, fun e he => ?_⟩
      cases fed with
      | none => cases he
      | some f =>
        rw [List.mem_singleton.1 he, hfed.numbered f rfl]
        exact hnumber

/-! ## Iterations that leave -/

/-- the same iterations to come, with fewer in the queue and with workers -/
theorem Regular.of_sublist {scheduler : Scheduler} {workers : List Worker} (h : r.Regular)
    (hsource : scheduler.source = r.scheduler.source)
    (hcapacity : scheduler.dispatcher.capacity = r.scheduler.dispatcher.capacity)
    (harrived : scheduler.dispatcher.arrived.dispatched = r.scheduler.dispatcher.arrived.dispatched)
    (hqueue : scheduler.dispatcher.queue.Sublist r.scheduler.dispatcher.queue) (hworkers : workers.Sublist r.workers) :
    Regular { r with scheduler, workers } := by
  have hover : scheduler.isOver = r.scheduler.isOver := congrArg Source.isOver hsource
  have hnumber : scheduler.number = r.scheduler.number := by
    unfold Scheduler.number
    rw [hsource, harrived]
  have hstarted : (started { r with scheduler, workers }).Sublist r.started :=
    (hworkers.map Worker.dispatch).append hqueue
  refine
    { unaborted := h.unaborted, live := h.live, room := hcapacity ▸ h.room, cleared := ?_
      served := fun hl => ?_
      handsNext := fun ramp e he => ?_
      times := fun w hw => h.times w (hworkers.subset hw)
      numbered := h.numbered.sublist hstarted
      ahead := fun hnext e he => ?_
      begun := h.begun.sublist hworkers
      inTurn := fun hturn => (h.inTurn hturn).sublist hworkers }
  · have hcleared := h.cleared
    unfold isCleared at hcleared ⊢
    cases hl : r.loop with
    | dispatching | draining => trivial
    | closing | finished | failed =>
      rw [hl] at hcleared
      exact List.sublist_nil.1 (hcleared ▸ hworkers)
  · obtain ⟨hempty, hended⟩ := h.served hl
    exact ⟨List.sublist_nil.1 (hempty ▸ hqueue), hover.trans hended⟩
  · rw [harrived]
    exact h.handsNext ramp e (hsource ▸ he)
  · rw [hnumber]
    exact h.ahead (hover ▸ hnext) e (hstarted.subset he)

/-! ## The run loop -/

theorem Regular.drain (h : r.Regular) (hl : r.loop = .dispatching) (hempty : r.scheduler.dispatcher.queue = [])
    (hover : r.scheduler.isOver = true) : r.drain.Regular := by
  have hbegin (l : Lifecycle) :
      l.beginDrain.1.aborted = l.aborted ∧ l.beginDrain.1.phase.isTerminal = l.phase.isTerminal := by
    unfold Lifecycle.beginDrain
    split
    · rename_i hp
      exact ⟨rfl, by rw [hp]; rfl⟩
    · exact ⟨rfl, rfl⟩
  obtain ⟨haborted, hphase⟩ := hbegin (r.interrupted r.discarded).life
  have hlive : r.life.phase.isTerminal = false := h.live (by rw [hl]; rfl)
  exact { h with
    unaborted := haborted.trans h.unaborted, live := fun _ => hphase.trans hlive, cleared := trivial
    served := fun _ => ⟨hempty, hover⟩ }

/-- an iteration that starts is the next in order, and stays it; after a stop it is only taken out -/
theorem Regular.accept (h : r.Regular) (hl : r.loop = .dispatching) {e : Dispatch} {rest : List Dispatch}
    (hq : r.scheduler.dispatcher.queue = e :: rest) :
    (r.accept e { r.scheduler.dispatcher with queue := rest }).Regular := by
  unfold Run.accept
  simp only
  split
  · have hrest : rest.Sublist r.scheduler.dispatcher.queue := hq ▸ List.sublist_cons_self e rest
    have hless : Regular { r with
        scheduler :=
          Scheduler.release { r.scheduler with dispatcher := { r.scheduler.dispatcher with queue := rest } } e.slot
        workers := r.workers } := h.of_sublist rfl rfl rfl hrest (List.Sublist.refl _)
    exact { hless with }
  · have hstarted : r.started = (r.workers ++ [(⟨e, .fresh⟩ : Worker)]).map Worker.dispatch ++ rest := by
      rw [started, hq, List.map_append, List.append_assoc]
      rfl
    have hnumbered := h.numbered
    have hahead := h.ahead
    rw [hstarted] at hnumbered hahead
    have hlast {R : Worker → Worker → Prop} (hworkers : r.workers.Pairwise R)
        (hnew : ∀ w ∈ r.workers, R w ⟨e, .fresh⟩) : (r.workers ++ [(⟨e, .fresh⟩ : Worker)]).Pairwise R :=
      List.pairwise_append.2
        ⟨hworkers, List.pairwise_singleton _ _, fun w hw => List.forall_mem_singleton.2 (hnew w hw)⟩
    refine { h with
      cleared := ?_, served := fun hne => absurd hl hne, times := ?_, numbered := hnumbered, ahead := hahead
      begun := hlast h.begun fun _ _ _ => rfl
      inTurn := fun hturn => hlast (h.inTurn hturn) fun _ _ _ _ _ hd => by cases hd }
    · unfold isCleared
      simp only [hl]
    · exact List.forall_mem_append.2 ⟨h.times, List.forall_mem_singleton.2 trivial⟩

theorem Regular.interrupt (h : r.Regular) {deadline : Duration} (hl : r.loop = .draining deadline) :
    r.interrupt.Regular := by
  obtain ⟨pool, hpool⟩ := Scheduler.foldl_release r.workers r.scheduler
  have hserved := h.served (by rw [hl]; exact fun h => by cases h)
  have hlive := h.live (by rw [hl]; rfl)
  have hnone : Regular { r with
      scheduler := { r.scheduler with dispatcher := { r.scheduler.dispatcher with pool } }, workers := [] } :=
    h.of_sublist rfl rfl rfl (List.Sublist.refl _) (List.nil_sublist _)
  unfold Run.interrupt
  simp only [hpool]
  exact { hnone with live := fun _ => hlive, cleared := rfl, served := fun _ => hserved }

theorem Regular.finish (h : r.Regular) (hl : r.loop = .closing) : r.finish.Regular := by
  have hserved := h.served (by rw [hl]; exact fun h => by cases h)
  have hcleared : r.workers = [] := by
    have := h.cleared
    unfold isCleared at this
    rwa [hl] at this
  unfold Run.finish
  split
  · exact { h with live := fun hover => (by cases hover), cleared := hcleared, served := fun _ => hserved }
  · have haborted (l : Lifecycle) : l.finish.aborted = l.aborted := by
      unfold Lifecycle.finish
      split <;> rfl
    exact { h with
      unaborted := (haborted _).trans h.unaborted, live := fun hover => (by cases hover), cleared := hcleared
      served := fun _ => hserved }

theorem Regular.proceed (h : r.Regular) : r.proceed.Regular := by
  have hp := r.proceeds
  generalize r.proceed = r' at hp ⊢
  cases hp with
  | stay => exact h
  | drain hl hdone =>
    rcases hdone with haborted | ⟨hempty, hover⟩
    · rw [h.unaborted] at haborted; cases haborted
    · exact h.drain hl hempty hover
  | accept hl _ e rest hq => exact h.accept hl hq
  | drained deadline hl hw =>
    have hserved := h.served (by rw [hl]; exact fun h => by cases h)
    exact { h with live := fun _ => h.live (by rw [hl]; rfl), cleared := hw, served := fun _ => hserved }
  | interrupt deadline hl => exact h.interrupt hl
  | close hl => exact h.of_sublist rfl rfl rfl (List.nil_sublist _) (List.Sublist.refl _)
  | finish hl => exact h.finish hl

/-! ## The workers -/

theorem forall_mem_replace {P : Worker → Prop} {rest : Option Worker} (h : ∀ v ∈ before ++ w :: after, P v)
    (hrest : ∀ v ∈ rest, P v) : ∀ v ∈ before ++ rest.toList ++ after, P v := by
  rw [List.forall_mem_append, List.forall_mem_cons] at h
  rw [List.forall_mem_append, List.forall_mem_append]
  exact ⟨⟨h.1, fun v hv => hrest v (Option.mem_toList.1 hv)⟩, h.2.2⟩

theorem pairwise_replace {R : Worker → Worker → Prop} {rest : Option Worker} (h : (before ++ w :: after).Pairwise R)
    (hbefore : ∀ v ∈ rest, ∀ b ∈ before, R b v) (hafter : ∀ v ∈ rest, ∀ a ∈ after, R v a) :
    (before ++ rest.toList ++ after).Pairwise R := by
  obtain ⟨hb, hwa, hba⟩ := List.pairwise_append.1 h
  obtain ⟨hw, ha⟩ := List.pairwise_cons.1 hwa
  have hskip : ∀ b ∈ before, ∀ a ∈ after, R b a := fun b hb a ha => hba b hb a (List.mem_cons_of_mem w ha)
  cases rest with
  | none =>
    rw [Option.toList_none, List.append_nil]
    exact List.pairwise_append.2 ⟨hb, ha, hskip⟩
  | some v =>
    rw [Option.toList_some, List.append_assoc, List.singleton_append]
    refine List.pairwise_append.2 ⟨hb, List.pairwise_cons.2 ⟨hafter v rfl, ha⟩, fun b hmem => ?_⟩
    exact List.forall_mem_cons.2 ⟨hbefore v rfl b hmem, hskip b hmem⟩

theorem Times.due {d : Duration} (h : r.Times w) (hd : w.due? = some d) : ∃ request startedAt,
    r.scenario.requestFor? w.dispatch.seq = some request ∧ startedAt ≤ r.now ∧
      d = startedAt + (r.scenario.exchange r.peer w.dispatch.seq request).1 := by
  unfold Times at h
  unfold Worker.due? at hd
  cases ha : w.activity with
  | fresh | thinking => rw [ha] at hd; cases hd
  | requesting request startedAt deadline x =>
    rw [ha] at h hd
    cases hd
    exact ⟨request, startedAt, h.1, h.2.1, h.2.2.2⟩

variable {o : Option Metrics.Outcome} {rest : Option Worker}

/-- what a worker turns into has begun, is on time, and stays at its iteration -/
theorem Moves.stays (h : r.Moves w o rest) : ∀ v ∈ rest, v.dispatch = w.dispatch ∧ v.isFresh = false ∧ r.Times v := by
  intro v hv
  cases h with
  | send fresh request found =>
    cases hv
    exact ⟨rfl, rfl, found, Nat.le_refl _, r.now.le_add_right _, rfl⟩
  | lose => cases hv
  | settle request startedAt deadline x activity late pause =>
    obtain ⟨d, -, rfl⟩ := Option.map_eq_some_iff.1 hv
    exact ⟨rfl, rfl, r.now.le_add_right d⟩
  | leave => cases hv

/-- an exchange that begins now ends after those that have begun before -/
theorem Moves.endsBefore (h : r.Regular) (hturn : r.scenario.IsInTurn r.peer)
    (hsplit : r.workers = before ++ w :: after) (hmoves : r.Moves w o rest) :
    ∀ v ∈ rest, (∀ b ∈ before, b.EndsBefore v) ∧ ∀ a ∈ after, v.EndsBefore a := by
  intro v hv
  cases hmoves with
  | send fresh request found =>
    cases hv
    have hbegun := h.begun
    have hnumbered := (List.pairwise_append.1 h.numbered).1
    rw [List.pairwise_map, hsplit] at hnumbered
    rw [hsplit] at hbegun
    refine ⟨fun b hb d hd e he => ?_, fun a ha d hd e he => ?_⟩
    · obtain ⟨q, startedAt, hq, hstarted, rfl⟩ := (h.times b (by rw [hsplit]; exact List.mem_append_left _ hb)).due hd
      cases he
      have hseq := (List.pairwise_append.1 hnumbered).2.2 b hb w List.mem_cons_self
      have hlatency := hturn _ _ (Nat.le_of_lt hseq) q request hq found
      exact Duration.add_le_add hstarted hlatency
    · -- only workers that have not begun are behind one that begins
      have hfresh := (List.pairwise_cons.1 (List.pairwise_append.1 hbegun).2.1).1 a ha (Worker.isFresh_iff.2 fresh)
      rw [Worker.due?_of_isFresh hfresh] at he
      cases he
  | lose => cases hv
  | settle request startedAt deadline x activity late pause =>
    obtain ⟨d, -, rfl⟩ := Option.map_eq_some_iff.1 hv
    exact ⟨fun _ _ _ _ _ he => (by cases he), fun _ _ _ hd => (by cases hd)⟩
  | leave => cases hv

/-- the workers may have changed, if those that are new fit in -/
theorem Regular.replace (h : r.Regular) (hsplit : r.workers = before ++ w :: after)
    (hwaiting : ∀ v ∈ before, v.isReady r.now = false) (hmoves : r.Moves w o rest) :
    Regular { r with workers := before ++ rest.toList ++ after } := by
  have hstays := hmoves.stays
  have hdispatches : (rest.toList.map Worker.dispatch).Sublist [w.dispatch] := by
    cases rest with
    | none => exact List.nil_sublist _
    | some v => rw [Option.toList_some, List.map_singleton, (hstays v rfl).1]
  have hstarted : (started { r with workers := before ++ rest.toList ++ after }).Sublist r.started := by
    simp only [started, hsplit, List.append_assoc, List.map_append, List.map_cons]
    exact (List.Sublist.refl _).append (hdispatches.append (List.Sublist.refl _))
  have hbegun := h.begun
  rw [hsplit] at hbegun
  refine { h with
    cleared := ?_, times := forall_mem_replace (hsplit ▸ h.times) fun v hv => (hstays v hv).2.2
    numbered := h.numbered.sublist hstarted
    ahead := fun hover e he => h.ahead hover e (hstarted.subset he)
    begun := pairwise_replace hbegun (fun v _ b hb hfresh => ?_) fun v hv a _ hfresh => ?_, inTurn := fun hturn => ?_ }
  · have hcleared := h.cleared
    unfold isCleared at hcleared ⊢
    cases hl : r.loop with
    | dispatching | draining => trivial
    | closing | finished | failed =>
      rw [hl] at hcleared
      rw [show r.workers = [] from hcleared] at hsplit
      exact absurd hsplit.symm (by simp)
  · have hready := Worker.isReady_of_isFresh hfresh r.now
    rw [hwaiting b hb] at hready
    cases hready
  · rw [(hstays v hv).2.1] at hfresh
    cases hfresh
  · have hends := h.inTurn hturn
    rw [hsplit] at hends
    have hnew := hmoves.endsBefore h hturn hsplit
    exact pairwise_replace hends (fun v hv => (hnew v hv).1) fun v hv => (hnew v hv).2

theorem Regular.work (h : r.Regular) (hsplit : r.workers = before ++ w :: after)
    (hwaiting : ∀ v ∈ before, v.isReady r.now = false) (hready : w.isReady r.now = true) :
    (r.work before.length).Regular := by
  obtain ⟨rest, hmoves, hworkers⟩ := work_moves hsplit hready
  obtain ⟨pool, workers, random, hframe⟩ := r.work_frame before.length
  rw [hframe] at hworkers ⊢
  simp only at hworkers
  subst hworkers
  have hemit (o : Metrics.Outcome) :
      (r.life.emit o).aborted = r.life.aborted ∧ (r.life.emit o).phase = r.life.phase :=
    ⟨(r.life.aborted_step (.emit o)).trans (Bool.or_false _), r.life.phase_step (.emit o)⟩
  have hless : Regular
      { r with
        workers := before ++ rest.toList ++ after
        life := (r.outcome? (.work before.length)).elim r.life r.life.emit } := by
    cases r.outcome? (.work before.length) with
    | none => exact h.replace hsplit hwaiting hmoves
    | some o => exact (h.replace hsplit hwaiting hmoves).life (hemit o).1 (hemit o).2
  exact { hless with }

end Run

namespace Timeline

variable {t : Timeline} {op : RunOp}

/-- **What every step keeps.** Whatever comes next on virtual time, a regular run stays regular. -/
theorem regular_step (h : t.run.Regular) (hop : t.internal? = some op) : (t.step op).run.Regular := by
  have hnext := t.next
  rw [hop] at hnext
  cases hnext with
  | proceed => exact h.proceed
  | schedule => exact h.schedule
  | work before after w split waiting ready => exact h.work split waiting ready
  | idle _ _ passes =>
    obtain ⟨span, instant, rfl, -, hfirst, hnow⟩ := pass?_eq_some passes
    refine h.pass fun w hw d hd => ?_
    have hlate := (h.times w hw).le_timer hd
    have hnext := hfirst d (timer_mem_timers hw hd)
    rw [Duration.le_iff] at hlate hnext ⊢
    omega

end Timeline

theorem Lifecycle.timeline_regular {s : Scenario} {peer : Peer} {calls : List Call} {t : Timeline}
    (ht : (ofScenario s).timeline s peer calls = .ok t) : t.run.Regular := by
  obtain ⟨-, life, hstart, hrun⟩ := timeline_cases ht
  have hlife : life = { ofScenario s with phase := .running, started := true } := by cases hstart; rfl
  have hsource : (Scheduler.ofModel s.model).HandsNext := by
    unfold Scheduler.ofModel Source.ofModel
    split
    · exact (Scheduler.feeds_ofNext _ _ _).2
    · exact fun _ _ h => by cases h
  rw [hrun, hlife]
  exact
    { unaborted := rfl
      live := fun _ => rfl
      cleared := trivial
      room := Nat.lt_of_lt_of_le Nat.one_pos (Nat.le_max_left _ _)
      served := fun h => absurd rfl h
      handsNext := hsource
      times := fun w hw => by cases hw
      numbered := .nil
      ahead := fun _ e he => by cases he
      begun := .nil
      inTurn := fun _ => .nil }

end LoadGen
