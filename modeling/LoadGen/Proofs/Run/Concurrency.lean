/-
Closed loops follow their ramp. A closed loop claims a slot below a target that it looked at some time before, and it
looks again when the target may have changed. On virtual time the clock does not pass over the instant at which it
does, so the target was the ramp's at some instant of the last 50 ms, whenever iterations end and whenever a stop
comes.

- `isOnTime`: time passes no further than to the instant at which the scheduler goes on.
- `claims`, `dispatches`: the iterations that get a slot, each with the number of slots that are active then, and those
  that enter the queue.
- `Turns`: the invariant of a closed loop, where it is and what it knows of its ramp.
- `Advances`: what one step claims and queues.
- `claims_follow_ramp`: what holds of all the iterations of a closed loop.
- `Timeline.exists_isOnTime`: a run on virtual time is on time.
-/
import LoadGen.Proofs.Arrival.Targets
import LoadGen.Proofs.Run.Listening
import LoadGen.Proofs.Run.Turns

namespace LoadGen

namespace Delivery

/-! ## What is observed -/

/-- time passes no further than to the instant at which the scheduler goes on -/
def admits (d : Delivery) : Op → Bool
  | .pass span => d.scheduler.timer?.all (d.now + span ≤ ·)
  | _ => true

/-- steps on virtual time -/
def isOnTime (d : Delivery) : List Op → Bool
  | [] => true
  | op :: ops => d.admits op && (d.step op).isOnTime ops

/-- the iterations that a step gives a slot to, with the number of slots that are active then -/
def claimed (d : Delivery) : Op → List (Dispatch × Nat)
  | .schedule => ((d.step .schedule).scheduler.pending.drop d.scheduler.pending.length).map
    fun e => (e, (d.step .schedule).pool.active)
  | _ => []

/-- the iterations that some steps give a slot to -/
def claims (d : Delivery) : List Op → List (Dispatch × Nat)
  | [] => []
  | op :: ops => d.claimed op ++ (d.step op).claims ops

/-- the iterations that enter the queue in a step -/
def queued (d : Delivery) : Op → List Dispatch
  | .schedule => (d.step .schedule).queue.drop d.queue.length
  | _ => []

/-- the iterations that enter the queue in some steps -/
def dispatches (d : Delivery) : List Op → List Dispatch
  | [] => []
  | op :: ops => d.queued op ++ (d.step op).dispatches ops

/-- the number of iterations that entered the queue -/
def dispatched (d : Delivery) : Nat :=
  d.scheduler.dispatcher.arrived.dispatched

/-! ## A closed loop -/

/-- where a closed loop is -/
inductive Turns (ramp : Ramp) (d : Delivery) : Prop where
  | look (source : d.scheduler.source = .closed ramp .look)
  /-- it waits for a slot, and does not have to look at the ramp again yet -/
  | claim (looked : Duration)
      (source : d.scheduler.source =
        .closed ramp (.claim (ramp.targetAt looked) (looked + ramp.recheckIn looked)))
      (past : looked ≤ d.now) (soon : d.now ≤ looked + ramp.recheckIn looked)
  /-- the next iteration waits for room -/
  | hand (e : Dispatch) (source : d.scheduler.source = .closed ramp (.hand e)) (next : e.seq = d.dispatched)
  | ended (source : d.scheduler.source = .exhausted)

/-- an iteration that starts before the ramp is over, with no more active slots than a target of the last 50 ms -/
structure Follows (ramp : Ramp) (c : Dispatch × Nat) : Prop where
  live : ramp.isDone c.1.due = false
  below : ∃ x, c.1.due - Ramp.lookInterval ≤ x ∧ x ≤ c.1.due ∧ c.2 ≤ ramp.targetAt x

/-- a step that claims and queues these iterations -/
structure Advances (ramp : Ramp) (d d' : Delivery) (claimed : List (Dispatch × Nat)) (queued : List Dispatch) :
    Prop where
  turns : d'.Turns ramp
  dispatched : d'.dispatched = d.dispatched + queued.length
  /-- what is claimed is queued, or waits for room until the loop is over -/
  order : d.scheduler.waiting?.toList ++ claimed.map Prod.fst = queued ++ d'.scheduler.waiting?.toList ∨
    d'.scheduler.source = .exhausted ∧ claimed = [] ∧ queued = []
  numbered : claimed.map (·.1.seq) =
    List.range' (d.dispatched + d.scheduler.waiting?.toList.length) claimed.length
  due : ∀ c ∈ claimed, c.1.due = d.now
  follows : ∀ c ∈ claimed, Follows ramp c

variable {ramp ramp' : Ramp} {d : Delivery} {turn : Turn} {target slot : Nat} {deadline : Duration} {pool : Pool}

theorem Turns.ramp_eq (h : d.Turns ramp) (source : d.scheduler.source = .closed ramp' turn) : ramp' = ramp := by
  cases h with
  | look hs | claim _ hs | hand _ hs =>
    rw [source] at hs
    cases hs
    rfl
  | ended hs =>
    rw [source] at hs
    cases hs

theorem Turns.not_open (h : d.Turns ramp) {due : Duration} {rest : Arrivals} {seq : Nat} :
    d.scheduler.source ≠ .open due rest seq := by
  intro source
  cases h with
  | look hs | claim _ hs | hand _ hs | ended hs =>
    rw [source] at hs
    cases hs

/-- the scheduler goes on by the instant that it waits for -/
theorem Turns.now_le (h : d.Turns ramp) (timer : d.scheduler.timer? = some deadline) : d.now ≤ deadline := by
  unfold Scheduler.timer? at timer
  cases h with
  | look hs | hand _ hs | ended hs =>
    rw [hs] at timer
    cases timer
  | claim looked hs _ soon =>
    rw [hs] at timer
    cases timer
    exact soon

/-- a slot is claimed below the target that was looked at, and that is one of the last 50 ms -/
theorem Turns.follows (h : d.Turns ramp) (source : d.scheduler.source = .closed ramp' (.claim target deadline))
    (live : ramp'.isDone d.now = false) (acquired : d.pool.acquireBelow? target = some (slot, pool)) (seq : Nat) :
    Follows ramp (⟨seq, d.now, slot⟩, pool.active) := by
  cases h with
  | look hs | hand _ hs | ended hs =>
    rw [source] at hs
    cases hs
  | claim looked hs past soon =>
    rw [source] at hs
    cases hs
    obtain ⟨hroom, -, hactive, -⟩ := Pool.acquireBelow?_cases acquired
    obtain ⟨x, hafter, hbefore, htarget⟩ := Ramp.exists_targetAt_eq past soon live
    refine ⟨live, x, hafter, hbefore, ?_⟩
    show pool.active ≤ ramp.targetAt x
    omega

/-! ## What a step claims and queues -/

section

variable {s' : Scheduler} (hs' : d.scheduler.step d.now d.stopped = s')
include hs'

/-- what is claimed comes after what was pending, and what is queued after what was in the queue -/
theorem advances_of_append (es qs : List Dispatch) (turns : Turns ramp { d with scheduler := s' })
    (pending : s'.pending = d.scheduler.pending ++ es) (queue : s'.dispatcher.queue = d.queue ++ qs)
    (dispatched : s'.dispatcher.arrived.dispatched = d.dispatched + qs.length)
    (numbered : es.map Dispatch.seq = List.range' (d.dispatched + d.scheduler.waiting?.toList.length) es.length)
    (follows : ∀ e ∈ es, e.due = d.now ∧ Follows ramp (e, s'.dispatcher.pool.active)) :
    d.Advances ramp (d.step .schedule) (d.claimed .schedule) (d.queued .schedule) := by
  have hstep : d.step .schedule = { d with scheduler := s' } := by rw [step, hs']
  have hclaimed : d.claimed .schedule = es.map fun e => (e, s'.dispatcher.pool.active) := by
    rw [claimed, hstep, pending, List.drop_left]
    rfl
  have hqueued : d.queued .schedule = qs := by
    rw [queued, hstep]
    show s'.dispatcher.queue.drop d.queue.length = qs
    rw [queue, List.drop_left]
  have horder : d.scheduler.waiting?.toList ++ es = qs ++ s'.waiting?.toList := by
    have hqueue : d.queue ++ (d.scheduler.waiting?.toList ++ es) = d.queue ++ (qs ++ s'.waiting?.toList) := by
      rw [← List.append_assoc, ← List.append_assoc, ← queue]
      exact pending.symm
    exact List.append_cancel_left hqueue
  rw [hclaimed, hqueued, hstep]
  refine ⟨turns, dispatched, .inl ?_, ?_, fun c hc => ?_, fun c hc => ?_⟩
  · rw [List.map_map, show Prod.fst ∘ (fun e => (e, s'.dispatcher.pool.active)) = id from rfl, List.map_id]
    exact horder
  · rw [List.map_map, List.length_map]
    exact numbered
  · obtain ⟨e, he, rfl⟩ := List.mem_map.1 hc
    exact (follows e he).1
  · obtain ⟨e, he, rfl⟩ := List.mem_map.1 hc
    exact (follows e he).2

/-- nothing is claimed or queued -/
theorem advances_rest (turns : Turns ramp { d with scheduler := s' }) (pending : s'.pending = d.scheduler.pending)
    (queue : s'.dispatcher.queue = d.queue) (dispatched : s'.dispatcher.arrived.dispatched = d.dispatched) :
    d.Advances ramp (d.step .schedule) (d.claimed .schedule) (d.queued .schedule) :=
  advances_of_append hs' [] [] turns (pending.trans (List.append_nil _).symm) (queue.trans (List.append_nil _).symm)
    dispatched rfl fun _ he => (by cases he)

/-- what waited for room is given up, and the loop is over -/
theorem advances_withdraw (e : Dispatch) (source : s'.source = .exhausted)
    (pending : d.scheduler.pending = s'.pending ++ [e])
    (queue : s'.dispatcher.queue = d.queue) (dispatched : s'.dispatcher.arrived.dispatched = d.dispatched) :
    d.Advances ramp (d.step .schedule) (d.claimed .schedule) (d.queued .schedule) := by
  have hstep : d.step .schedule = { d with scheduler := s' } := by rw [step, hs']
  have hclaimed : d.claimed .schedule = [] := by
    rw [claimed, hstep, pending, List.drop_eq_nil_of_le (by rw [List.length_append]; exact Nat.le_add_right _ _)]
    rfl
  have hqueued : d.queued .schedule = [] := by
    rw [queued, hstep]
    show s'.dispatcher.queue.drop d.queue.length = []
    rw [queue, List.drop_length]
  rw [hclaimed, hqueued, hstep]
  exact ⟨.ended source, dispatched, .inr ⟨source, rfl, rfl⟩, rfl, fun _ hc => (by cases hc), fun _ hc => (by cases hc)⟩

/-- a slot is claimed for an iteration, which is queued or waits for room -/
theorem advances_claim (qs : List Dispatch) (h : d.Turns ramp)
    (source : d.scheduler.source = .closed ramp' (.claim target deadline)) (live : ramp'.isDone d.now = false)
    (acquired : d.pool.acquireBelow? target = some (slot, pool)) (hpool : s'.dispatcher.pool = pool)
    (turns : Turns ramp { d with scheduler := s' })
    (pending : s'.pending = d.scheduler.pending ++ [⟨d.dispatched, d.now, slot⟩])
    (queue : s'.dispatcher.queue = d.queue ++ qs)
    (dispatched : s'.dispatcher.arrived.dispatched = d.dispatched + qs.length) :
    d.Advances ramp (d.step .schedule) (d.claimed .schedule) (d.queued .schedule) := by
  have handless : d.scheduler.waiting? = none := by rw [Scheduler.waiting?, source]
  refine advances_of_append hs' _ qs turns pending queue dispatched ?_ fun e he => ?_
  · rw [handless]
    rfl
  · cases List.mem_singleton.1 he
    rw [hpool]
    exact ⟨rfl, h.follows source live acquired d.dispatched⟩

end

/-- **A step of a closed loop** claims and queues in order, below a target of the last 50 ms. -/
theorem Turns.advances_schedule (h : d.Turns ramp) :
    d.Advances ramp (d.step .schedule) (d.claimed .schedule) (d.queued .schedule) := by
  have hacts := d.scheduler.acts_step d.now d.stopped
  generalize hs' : d.scheduler.step d.now d.stopped = s' at hacts
  cases hacts with
  | stay => exact advances_rest hs' h rfl rfl rfl
  | halt handless => exact advances_rest hs' (.ended rfl) (Scheduler.pending_eq handless rfl rfl) rfl rfl
  | look ramp' source =>
    have handless : d.scheduler.waiting? = none := by rw [Scheduler.waiting?, source]
    cases h.ramp_eq source
    exact advances_rest hs' (.claim d.now rfl (Nat.le_refl _) (Duration.le_add_right _ _))
      (Scheduler.pending_eq handless rfl rfl) rfl rfl
  | again ramp' target deadline source =>
    have handless : d.scheduler.waiting? = none := by rw [Scheduler.waiting?, source]
    cases h.ramp_eq source
    exact advances_rest hs' (.look rfl) (Scheduler.pending_eq handless rfl rfl) rfl rfl
  | lose due rest seq source => exact absurd source h.not_open
  | overflow due rest seq source => exact absurd source h.not_open
  | serve due rest seq source => exact absurd source h.not_open
  | decline handless limit slot pool acquired =>
    exact advances_rest hs' (.ended rfl) (Scheduler.pending_eq handless rfl rfl) rfl rfl
  | claim ramp' target deadline source running live slot pool acquired =>
    have handless : d.scheduler.waiting? = none := by rw [Scheduler.waiting?, source]
    refine advances_claim hs' [⟨d.dispatched, d.now, slot⟩] h source live acquired rfl ?_
      (Scheduler.pending_append handless rfl rfl) rfl rfl
    cases h.ramp_eq source
    exact .look rfl
  | hold ramp' target deadline source running live slot pool acquired =>
    have handless : d.scheduler.waiting? = none := by rw [Scheduler.waiting?, source]
    refine advances_claim hs' [] h source live acquired rfl ?_ ?_ (List.append_nil _).symm rfl
    · cases h.ramp_eq source
      exact .hand _ rfl rfl
    · rw [Scheduler.pending_of_handless handless, Scheduler.pending_of_hand rfl]
      rfl
  | hand ramp' e source =>
    cases h.ramp_eq source
    refine advances_of_append hs' [] [e] (.look rfl) ?_ rfl rfl rfl fun _ he => (by cases he)
    rw [Scheduler.pending_of_hand source, Scheduler.pending_of_handless rfl, List.append_nil]
    rfl
  | withdraw ramp' e source =>
    refine advances_withdraw hs' e rfl ?_ rfl rfl
    rw [Scheduler.pending_of_hand source, Scheduler.pending_of_handless rfl]
    rfl

variable {op : Op} {ops : List Op}

/-- the other parts leave the source as it is -/
theorem frame_of_idle (hop : op ≠ .schedule) : (d.step op).scheduler.source = d.scheduler.source ∧
    (d.step op).dispatched = d.dispatched ∧ d.claimed op = [] ∧ d.queued op = [] := by
  cases op with
  | schedule => exact absurd rfl hop
  | receive =>
    cases hq : d.scheduler.dispatcher.queue with
    | nil => rw [step_receive_nil hq]; exact ⟨rfl, rfl, rfl, rfl⟩
    | cons e rest => rw [step_receive_cons hq]; exact ⟨rfl, rfl, rfl, rfl⟩
  | release i =>
    cases hi : d.held[i]? with
    | none => rw [step_release_none hi]; exact ⟨rfl, rfl, rfl, rfl⟩
    | some e => rw [step_release_some hi]; exact ⟨rfl, rfl, rfl, rfl⟩
  | pass | stop | close => exact ⟨rfl, rfl, rfl, rfl⟩

/-- only time moves the clock -/
theorem now_step (d : Delivery) (op : Op) : (d.step op).now = d.now ∨ ∃ span, op = .pass span := by
  cases op with
  | pass span => exact .inr ⟨span, rfl⟩
  | receive =>
    simp only [step]
    split <;> exact .inl rfl
  | release i =>
    simp only [step]
    split <;> exact .inl rfl
  | stop | schedule | close => exact .inl rfl

theorem le_now_step (d : Delivery) (op : Op) : d.now ≤ (d.step op).now := by
  rcases d.now_step op with hnow | ⟨span, rfl⟩
  · rw [hnow]
    exact Nat.le_refl _
  · exact Duration.le_add_right _ _

/-- the clock does not pass over what the scheduler waits for -/
theorem Turns.now_step_le (h : d.Turns ramp) (admitted : d.admits op = true)
    (timer : d.scheduler.timer? = some deadline) : (d.step op).now ≤ deadline := by
  rcases d.now_step op with hnow | ⟨span, rfl⟩
  · rw [hnow]
    exact h.now_le timer
  · rw [admits, timer] at admitted
    exact of_decide_eq_true admitted

theorem Turns.advances_idle (h : d.Turns ramp) (hop : op ≠ .schedule) (admitted : d.admits op = true) :
    d.Advances ramp (d.step op) (d.claimed op) (d.queued op) := by
  obtain ⟨hsource, hdispatched, hclaimed, hqueued⟩ := frame_of_idle (d := d) hop
  have hwaiting : (d.step op).scheduler.waiting? = d.scheduler.waiting? := by
    rw [Scheduler.waiting?, Scheduler.waiting?, hsource]
  rw [hclaimed, hqueued]
  refine ⟨?_, hdispatched, .inl ?_, rfl, fun _ hc => (by cases hc), fun _ hc => (by cases hc)⟩
  · cases h with
    | look hs => exact .look (hsource.trans hs)
    | claim looked hs past soon =>
      have hsoon := now_step_le (.claim looked hs past soon) admitted (by rw [Scheduler.timer?, hs])
      exact .claim looked (hsource.trans hs) (Nat.le_trans past (d.le_now_step op)) hsoon
    | hand e hs next => exact .hand e (hsource.trans hs) (next.trans hdispatched.symm)
    | ended hs => exact .ended (hsource.trans hs)
  · rw [hwaiting, List.map_nil, List.append_nil, List.nil_append]

/-- **A step on virtual time** claims and queues in order, below a target of the last 50 ms. -/
theorem Turns.advances (h : d.Turns ramp) (admitted : d.admits op = true) :
    d.Advances ramp (d.step op) (d.claimed op) (d.queued op) := by
  by_cases hop : op = .schedule
  · rw [hop]
    exact h.advances_schedule
  · exact h.advances_idle hop admitted

/-! ## Any steps -/

/-- after the end nothing is claimed or queued -/
theorem logs_of_over (ended : d.scheduler.source = .exhausted) (ops : List Op) :
    d.claims ops = [] ∧ d.dispatches ops = [] := by
  induction ops generalizing d with
  | nil => exact ⟨rfl, rfl⟩
  | cons op ops ih =>
    obtain ⟨hsource, hclaimed, hqueued⟩ : (d.step op).scheduler.source = d.scheduler.source ∧
        d.claimed op = [] ∧ d.queued op = [] := by
      by_cases hop : op = .schedule
      · have hstay : d.scheduler.step d.now d.stopped = d.scheduler := by rw [Scheduler.step, ended]
        have hstep : d.step .schedule = d := by rw [step, hstay]
        rw [hop, claimed, queued, hstep, List.drop_length, List.drop_length]
        exact ⟨rfl, rfl, rfl⟩
      · obtain ⟨hsource, -, hclaimed, hqueued⟩ := frame_of_idle (d := d) hop
        exact ⟨hsource, hclaimed, hqueued⟩
    obtain ⟨hclaims, hdispatches⟩ := ih (hsource.trans ended)
    rw [claims, dispatches, hclaimed, hqueued, hclaims, hdispatches]
    exact ⟨rfl, rfl⟩

/-- what steps on virtual time claim and queue, from any state of a closed loop -/
theorem Turns.logs (h : d.Turns ramp) (onTime : d.isOnTime ops = true) :
    (d.claims ops).map (·.1.seq) =
      List.range' (d.dispatched + d.scheduler.waiting?.toList.length) (d.claims ops).length ∧
    d.dispatches ops <+: d.scheduler.waiting?.toList ++ (d.claims ops).map Prod.fst ∧
    (d.claims ops).Pairwise (fun a b => a.1.due ≤ b.1.due) ∧
    ∀ c ∈ d.claims ops, d.now ≤ c.1.due ∧ Follows ramp c := by
  induction ops generalizing d with
  | nil => exact ⟨rfl, List.nil_prefix, .nil, fun _ hc => (by cases hc)⟩
  | cons op ops ih =>
    obtain ⟨hadmitted, hrest⟩ := Bool.and_eq_true_iff.1 onTime
    have hadvances := h.advances hadmitted
    obtain ⟨hnumbered, hfirst, hordered, hfollows⟩ := ih hadvances.turns hrest
    rcases hadvances.order with horder | ⟨hover, hclaimed, hqueued⟩
    · have hcount : (d.step op).dispatched + (d.step op).scheduler.waiting?.toList.length =
          d.dispatched + d.scheduler.waiting?.toList.length + (d.claimed op).length := by
        have hlength := congrArg List.length horder
        have hdispatched := hadvances.dispatched
        rw [List.length_append, List.length_append, List.length_map] at hlength
        omega
      rw [claims, dispatches]
      refine ⟨?_, ?_, ?_, fun c hc => ?_⟩
      · rw [List.map_append, List.length_append, hadvances.numbered, hnumbered, hcount, List.range'_append_1]
      · rw [List.map_append, ← List.append_assoc, horder, List.append_assoc]
        exact (List.prefix_append_right_inj _).2 hfirst
      · refine List.pairwise_append.2 ⟨?_, hordered, fun a ha b hb => ?_⟩
        · refine List.pairwise_iff_forall_sublist.2 fun {a b} hab => ?_
          rw [hadvances.due a (hab.subset List.mem_cons_self),
            hadvances.due b (hab.subset (List.mem_cons_of_mem a List.mem_cons_self))]
          exact Nat.le_refl _
        · rw [hadvances.due a ha]
          exact Nat.le_trans (d.le_now_step op) (hfollows b hb).1
      · rcases List.mem_append.1 hc with hc | hc
        · rw [hadvances.due c hc]
          exact ⟨Nat.le_refl _, hadvances.follows c hc⟩
        · exact ⟨Nat.le_trans (d.le_now_step op) (hfollows c hc).1, (hfollows c hc).2⟩
    · obtain ⟨hclaims, hdispatches⟩ := logs_of_over hover ops
      rw [claims, dispatches, hclaimed, hqueued, hclaims, hdispatches]
      exact ⟨rfl, List.nil_prefix, .nil, fun _ hc => (by cases hc)⟩

/-- however many iterations are claimed, their slots are within the pool -/
theorem claims_le (m : ArrivalModel) (ops : List Op) : ∀ c ∈ (start m).claims ops, c.2 ≤ m.poolBounds.2 := by
  suffices h : ∀ {d : Delivery}, d.Owned m.poolBounds.1 m.poolBounds.2 →
      ∀ c ∈ d.claims ops, c.2 ≤ m.poolBounds.2 from h (owned_start m)
  induction ops with
  | nil => exact fun _ _ hc => (by cases hc)
  | cons op ops ih =>
    intro d hd c hc
    rcases List.mem_append.1 hc with hc | hc
    · cases op with
      | schedule =>
        obtain ⟨e, -, rfl⟩ := List.mem_map.1 hc
        exact (hd.step .schedule).active_le
      | _ => cases hc
    · exact ih (hd.step op) c hc

/-! ## Steps on virtual time -/

theorem isOnTime_of_timeless (timeless : ops.all Op.isTimeless = true) : d.isOnTime ops = true := by
  induction ops generalizing d with
  | nil => rfl
  | cons op ops ih =>
    rw [List.all_cons, Bool.and_eq_true] at timeless
    have hadmits : d.admits op = true := by
      cases op with
      | pass span => cases timeless.1
      | _ => rfl
    rw [isOnTime, hadmits, Bool.true_and]
    exact ih timeless.2

theorem isOnTime_append (d : Delivery) (ops ops' : List Op) :
    d.isOnTime (ops ++ ops') = (d.isOnTime ops && (d.run ops).isOnTime ops') := by
  induction ops generalizing d with
  | nil => rfl
  | cons op ops ih =>
    rw [List.cons_append, isOnTime, isOnTime, ih (d.step op), Bool.and_assoc]
    rfl

/-- what enters the queue is what is counted as dispatched -/
theorem Turns.dispatched_run (h : d.Turns ramp) (onTime : d.isOnTime ops = true) :
    (d.run ops).dispatched = d.dispatched + (d.dispatches ops).length := by
  induction ops generalizing d with
  | nil => rfl
  | cons op ops ih =>
    obtain ⟨hadmitted, hrest⟩ := Bool.and_eq_true_iff.1 onTime
    have hadvances := h.advances hadmitted
    rw [run_cons, ih hadvances.turns hrest, hadvances.dispatched, dispatches, List.length_append, Nat.add_assoc]

theorem Turns.run (h : d.Turns ramp) (onTime : d.isOnTime ops = true) : (d.run ops).Turns ramp := by
  induction ops generalizing d with
  | nil => exact h
  | cons op ops ih =>
    obtain ⟨hadmitted, hrest⟩ := Bool.and_eq_true_iff.1 onTime
    exact ih (h.advances hadmitted).turns hrest

end Delivery

/-! ## Runs on virtual time -/

namespace Timeline

open Delivery

variable {t : Timeline} {ramp : Ramp}

/-- time passes where nobody calls and no part goes on -/
theorem pass?_of_nextOp? {span : Duration} (hop : t.nextOp? = some (.pass span)) : t.pass? = some (.pass span) := by
  have hinternal : t.internal? = some (.pass span) := by
    unfold nextOp? at hop
    split at hop
    · cases hop
    · split at hop
      · rename_i c _ _
        split at hop
        · unfold Call.op at hop
          split at hop <;> cases hop
        · exact hop
      · exact hop
  have hnext := t.next
  rw [hinternal] at hnext
  cases hnext with
  | idle _ _ passes => exact passes

/-- time passes up to the first of the instants that are waited for, the scheduler's among them -/
theorem admits_pass (h : (ofRun t.run).Turns ramp) {span : Duration} (hop : t.nextOp? = some (.pass span)) :
    (ofRun t.run).admits (.pass span) = true := by
  obtain ⟨span', instant, heq, -, hfirst, hnow⟩ := pass?_eq_some (pass?_of_nextOp? hop)
  cases heq
  show t.run.scheduler.timer?.all (t.run.now + span ≤ ·) = true
  cases htimer : t.run.scheduler.timer? with
  | none => rfl
  | some deadline =>
    have hmem : deadline ∈ t.timers := by
      simp only [timers, List.mem_append, htimer, Option.toList_some, List.mem_singleton]
      exact .inl (.inl (.inl (.inr trivial)))
    have hinstant := hfirst deadline hmem
    have hdeadline : t.run.now ≤ deadline := h.now_le htimer
    refine decide_eq_true ?_
    rw [Duration.le_iff] at hinstant hdeadline ⊢
    omega

/-- **A run on virtual time is on time**: it is a delivery in which the clock never passes over the instant at which the
scheduler goes on. -/
theorem exists_isOnTime (h : (ofRun t.run).Turns ramp) (fuel : Nat) :
    ∃ ops, (ofRun t.run).isOnTime ops = true ∧ (ofRun t.run).run ops = ofRun (t.advance fuel).run := by
  induction fuel generalizing t with
  | zero => exact ⟨[], rfl, rfl⟩
  | succ fuel ih =>
    cases hop : t.nextOp? with
    | none =>
      rw [advance_of_none hop]
      exact ⟨[], rfl, rfl⟩
    | some op =>
      obtain ⟨first, honTime, hfirst⟩ : ∃ first, (ofRun t.run).isOnTime first = true ∧
          (ofRun t.run).run first = ofRun (t.step op).run := by
        by_cases hpass : ∃ span, op = .pass span
        · obtain ⟨span, rfl⟩ := hpass
          refine ⟨[.pass span], ?_, rfl⟩
          rw [isOnTime, admits_pass h hop]
          rfl
        · obtain ⟨first, htimeless, hfirst⟩ := settles_part t.run fun span heq => hpass ⟨span, heq⟩
          exact ⟨first, isOnTime_of_timeless htimeless, hfirst⟩
      obtain ⟨rest, hrestOnTime, hrest⟩ := ih (t := t.step op) (hfirst ▸ h.run honTime)
      refine ⟨first ++ rest, ?_, ?_⟩
      · rw [isOnTime_append, honTime, hfirst, hrestOnTime]
        rfl
      · rw [run_append, hfirst, hrest, advance_succ hop]

end Timeline

/-! ## Closed-loop models -/

namespace Ramp

/-- the target does not fall between two instants -/
def IsRising (r : Ramp) (a b : Duration) : Prop :=
  ∀ x y, a ≤ x → x ≤ y → y ≤ b → r.targetAt x ≤ r.targetAt y

end Ramp

namespace Delivery

theorem totalDuration_ramp {m : ArrivalModel} (closed : Arrivals.ofModel? m = none) :
    (Source.ramp m).totalDuration = m.totalDuration := by
  cases m with
  | constantArrivalRate | rampingArrivalRate => cases closed
  | rampingVus => rfl
  | constantVus vus duration =>
    apply Duration.eq_of_nanos
    show min (0 + duration.nanos) maxNanos = duration.nanos
    have := duration.le_max
    omega

theorem source_start {m : ArrivalModel} (closed : Arrivals.ofModel? m = none) :
    (start m).scheduler.source = .closed (Source.ramp m) .look := by
  show Source.ofModel m = _
  rw [Source.ofModel, closed]

/-- the run of a closed-loop scenario on virtual time is on time, whatever its peer and its callers do -/
theorem timeline_isOnTime {l : Lifecycle} {s : Scenario} {peer : Peer} {calls : List Call} {t : Timeline}
    (closed : Arrivals.ofModel? s.model = none) (ht : l.timeline s peer calls = .ok t) (fuel : Nat) :
    ∃ ops, (start s.model).isOnTime ops = true ∧ (start s.model).run ops = ofRun (t.advance fuel).run := by
  obtain ⟨-, life, -, hrun⟩ := Lifecycle.timeline_cases ht
  obtain ⟨first, honTime, hfirst⟩ : ∃ first, (start s.model).isOnTime first = true ∧
      (start s.model).run first = ofRun t.run := by
    rw [hrun]
    cases hstopped : life.stopped with
    | false => exact ⟨[], rfl, by simp only [ofRun, Run.init, hstopped]; rfl⟩
    | true => exact ⟨[.stop], rfl, by simp only [ofRun, Run.init, hstopped]; rfl⟩
  have hturns := (Turns.look (source_start closed)).run honTime
  rw [hfirst] at hturns
  obtain ⟨rest, hrestOnTime, hrest⟩ := Timeline.exists_isOnTime hturns fuel
  refine ⟨first ++ rest, ?_, ?_⟩
  · rw [isOnTime_append, honTime, hfirst, hrestOnTime]
    rfl
  · rw [run_append, hfirst, hrest]

/-- **Closed-loop concurrency follows the ramp.** On virtual time, whenever iterations are received and end, and
whenever a stop comes: the iterations that enter the queue, as many as were counted, are the first of those that get a
slot, are numbered from zero on without gaps, and are due one after another, before the model's end. When an iteration
gets its slot, there are no more active slots than the ramp's target at some instant of the last 50 ms, nor than the
pool's bound; where the ramp did not fall meanwhile, no more than the target right then; with a constant number of
virtual users, no more than these. All runs on virtual time are among these. -/
theorem claims_follow_ramp (m : ArrivalModel) (closed : Arrivals.ofModel? m = none) :
    (∀ ops, (start m).isOnTime ops = true →
      let claims := (start m).claims ops
      let events := (start m).dispatches ops
      events.length = ((start m).run ops).dispatched ∧
      events <+: claims.map Prod.fst ∧
      events.map Dispatch.seq = List.range events.length ∧
      events.Pairwise (fun a b => a.due ≤ b.due) ∧
      ∀ e active, (e, active) ∈ claims →
        e.due < m.totalDuration ∧ active ≤ m.poolBounds.2 ∧
        (∃ x, e.due - Ramp.lookInterval ≤ x ∧ x ≤ e.due ∧ active ≤ (Source.ramp m).targetAt x) ∧
        ((Source.ramp m).IsRising (e.due - Ramp.lookInterval) e.due → active ≤ (Source.ramp m).targetAt e.due) ∧
        ∀ vus duration, m = .constantVus vus duration → active ≤ vus) ∧
    ∀ (l : Lifecycle) (s : Scenario) (peer : Peer) (calls : List Call) (t : Timeline) (fuel : Nat),
      s.model = m → l.timeline s peer calls = .ok t →
      ∃ ops, (start m).isOnTime ops = true ∧ (start m).run ops = ofRun (t.advance fuel).run := by
  refine ⟨fun ops onTime => ?_, ?_⟩
  · intro claims events
    have hsource := source_start closed
    have hwaiting : (start m).scheduler.waiting?.toList = [] := by rw [Scheduler.waiting?, hsource]; rfl
    have hlogs := (Turns.look hsource).logs onTime
    rw [hwaiting] at hlogs
    obtain ⟨hnumbered, hfirst, hordered, hfollows⟩ := hlogs
    refine ⟨?_, hfirst, ?_, ?_, fun e active hc => ?_⟩
    · rw [(Turns.look hsource).dispatched_run onTime]
      exact (Nat.zero_add _).symm
    · have hseqs : events.map Dispatch.seq <+: List.range claims.length := by
        have hmap := hfirst.map Dispatch.seq
        rw [List.nil_append, List.map_map] at hmap
        rw [List.range_eq_range']
        exact hnumbered ▸ hmap
      have hlength := hseqs.length_le
      rw [List.length_map, List.length_range] at hlength
      rw [List.prefix_iff_eq_take.1 hseqs, List.length_map, List.take_range, Nat.min_eq_left hlength]
    · have hmap : (claims.map Prod.fst).Pairwise fun a b => a.due ≤ b.due := List.pairwise_map.2 hordered
      exact hmap.sublist hfirst.sublist
    · obtain ⟨-, hlive, x, hafter, hbefore, hbelow⟩ := hfollows (e, active) hc
      have hpool : active ≤ m.poolBounds.2 := claims_le m ops (e, active) hc
      refine ⟨?_, hpool, ⟨x, hafter, hbefore, hbelow⟩, fun hrising => ?_, ?_⟩
      · rw [← totalDuration_ramp closed]
        exact Nat.lt_of_not_le (of_decide_eq_false hlive)
      · exact Nat.le_trans hbelow (hrising x e.due hafter hbefore (Nat.le_refl _))
      · rintro vus duration rfl
        exact hpool
  · rintro l s peer calls t fuel rfl ht
    exact timeline_isOnTime closed ht fuel

/-- from one virtual user to three in a tenth of a second -/
def climbing : ArrivalModel :=
  .rampingVus 1 [⟨.ofMillis 100, 3⟩]

/-- the first iteration starts at once, the second one after half of the climb, and both go on -/
def climb : List Op :=
  [.schedule, .schedule, .receive, .schedule, .pass (.ofMillis 50), .schedule, .schedule, .schedule, .receive]

/-- the general theorem at these steps -/
theorem claims_follow_ramp_climbing :
    (start climbing).isOnTime climb = true ∧ ((start climbing).claims climb).map Prod.snd = [1, 2] ∧
      ((start climbing).dispatches climb).map Dispatch.seq = [0, 1] ∧
      ∀ e active, (e, active) ∈ (start climbing).claims climb →
        ∃ x, e.due - Ramp.lookInterval ≤ x ∧ x ≤ e.due ∧ active ≤ (Source.ramp climbing).targetAt x := by
  have honTime : (start climbing).isOnTime climb = true := by decide
  obtain ⟨-, -, -, -, hclaims⟩ := (claims_follow_ramp climbing rfl).1 climb honTime
  exact ⟨honTime, by decide, by decide, fun e active hc => (hclaims e active hc).2.2.1⟩

end Delivery

end LoadGen
