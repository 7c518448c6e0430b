/-
What every step keeps of the scheduler of an open loop and a reader that holds slots for given times. Slots, queue and
clock are bookkeeping: the iterations that were read and not given back, and those in the queue, are the arrivals whose
departure is still to come.

- `Next`: what may happen next, with all that is known when it does.
- `Tracks`: the arrivals settled so far are the first of those that come, and the ones delivered are those that the loss
  system serves. `step` keeps it, one lemma for each thing that may happen, and `advance` keeps it over a run.
- `schedules`: going on, the scheduler stops, serves the next arrival or loses it, as the loss system does.
-/
import Mathlib.Data.List.Perm.Basic
import LoadGen.Proofs.Run.LossSystem
import LoadGen.Run.Holding

namespace LoadGen.Holding

variable {h : Holding} {op : Op}

/-! ## What happens next -/

/-- at this instant no stop is due and no slot is to be given back -/
structure IsCalm (h : Holding) : Prop where
  cancel : ∀ c ∈ h.cancelTimer?, h.now < c
  held : ∀ s ∈ h.held, h.now < s.1

/-- the instants after which something else than the scheduler may happen -/
def alarms (h : Holding) : List Duration :=
  h.cancelTimer?.toList ++ h.held.map Prod.fst

theorem cancelTimer?_eq_some {c : Duration} : h.cancelTimer? = some c ↔ h.stopped = false ∧ h.cancelAt = some c := by
  unfold cancelTimer?
  cases h.stopped <;> simp

/-- the order of what happens at one instant -/
inductive Next (h : Holding) : Option Op → Prop where
  | cancel (c : Duration) (pending : h.cancelTimer? = some c) (late : c ≤ h.now) : Next h (some .cancel)
  | giveBack (i : Nat) (s : Duration × Nat) (held : h.held[i]? = some s) (late : s.1 ≤ h.now) :
      Next h (some (.giveBack i))
  | close (sated : h.isSated = true) : Next h (some .close)
  | schedule (calm : h.IsCalm) (ready : h.scheduler.isReady h.now h.stopped = true) : Next h (some .schedule)
  | read (e : Dispatch) (rest : List Dispatch) (queue : h.scheduler.dispatcher.queue = e :: rest) : Next h (some .read)
  | pass (calm : h.IsCalm) (idle : h.scheduler.isReady h.now h.stopped = false)
      (empty : h.scheduler.dispatcher.queue = []) (due : Duration) (timer : h.scheduler.timer? = some due) :
      Next h (some (.pass (h.alarms.foldl Duration.least due)))
  | rest (empty : h.scheduler.dispatcher.queue = []) (timer : h.scheduler.timer? = none) : Next h none

theorem next (h : Holding) : h.Next h.nextOp? := by
  unfold nextOp?
  split
  · rename_i hc
    obtain ⟨c, hc, hlate⟩ := (Option.any_eq_true _ _).1 hc
    exact .cancel c hc (by simpa using hlate)
  · rename_i hc
    split
    · rename_i i hi
      obtain ⟨hlt, hlate, -⟩ := List.findIdx?_eq_some_iff_getElem.1 hi
      exact .giveBack i _ (List.getElem?_eq_getElem hlt) (by simpa using hlate)
    · rename_i hheld
      have hcalm : h.IsCalm := by
        refine ⟨fun c hmem => ?_, fun s hs => ?_⟩
        · rw [Option.mem_def] at hmem
          simpa [hmem, Duration.lt_iff, Duration.le_iff] using hc
        · have := List.findIdx?_eq_none_iff.1 hheld s hs
          simpa [Duration.lt_iff, Duration.le_iff] using this
      split
      · rename_i hs
        rw [Bool.and_eq_true] at hs
        exact .close hs.1
      · split
        · rename_i hr
          exact .schedule hcalm hr
        · rename_i hr
          rw [Bool.not_eq_true] at hr
          split
          · rename_i hq
            cases hqueue : h.scheduler.dispatcher.queue with
            | nil => rw [hqueue] at hq; cases hq
            | cons e rest => exact .read e rest hqueue
          · rename_i hq
            have hempty : h.scheduler.dispatcher.queue = [] := by simpa using hq
            unfold timer?
            cases ht : h.scheduler.timer? with
            | none => exact .rest hempty ht
            | some due => exact .pass hcalm hr hempty due ht

/-! ## What the steps do -/

theorem recordDropped_zero (m : Metrics.Aggregate) : m.recordDropped 0 = m := rfl

theorem step_giveBack {i : Nat} {s : Duration × Nat} (hi : h.held[i]? = some s) :
    h.step (.giveBack i) = { h with held := h.held.eraseIdx i, scheduler := h.scheduler.release s.2 } := by
  simp only [step, hi]

theorem step_read {e : Dispatch} {rest : List Dispatch} (hq : h.scheduler.dispatcher.queue = e :: rest) :
    h.step .read = { h with
      scheduler := { h.scheduler with dispatcher := { h.scheduler.dispatcher with queue := rest } }
      held := h.held ++ [(e.due + h.holdOf e.seq, e.slot)]
      taken := e :: h.taken } := by
  simp only [step, read, Dispatcher.receive?, hq]

/-! ## The invariant -/

/-- arrivals that were dispatched or dropped -/
def settled (h : Holding) : Nat :=
  h.scheduler.dispatcher.arrived.dispatched + h.scheduler.dispatcher.arrived.dropped

/-- iterations in the order in which they were delivered: those that were read, and those still in the queue -/
def delivered (h : Holding) : List Dispatch :=
  h.taken.reverse ++ h.scheduler.dispatcher.queue

/-- the scheduler is stopped -/
def halt (h : Holding) : Holding :=
  { h with scheduler := { h.scheduler with source := .exhausted } }

/-- the next arrival gets a slot -/
def serve (h : Holding) (due : Duration) (rest : Arrivals) (slot : Nat) (pool : Pool) : Holding :=
  { h with
    scheduler :=
      ⟨.ofNext (h.settled + 1) rest.pop, { h.scheduler.dispatcher with pool }.enqueue ⟨h.settled, due, slot⟩⟩ }

/-- the next arrival is dropped -/
def lose (h : Holding) (rest : Arrivals) : Holding :=
  { h with
    scheduler := ⟨.ofNext (h.settled + 1) rest.pop, h.scheduler.dispatcher.drop⟩
    metrics := h.metrics.recordDropped 1 }

@[simp] theorem settled_serve (h : Holding) (due : Duration) (rest : Arrivals) (slot : Nat) (pool : Pool) :
    (h.serve due rest slot pool).settled = h.settled + 1 := by
  simp only [settled, serve, Dispatcher.enqueue]; omega

@[simp] theorem settled_lose (h : Holding) (rest : Arrivals) : (h.lose rest).settled = h.settled + 1 := by
  simp only [settled, lose, Dispatcher.drop]; omega

theorem delivered_serve (h : Holding) (due : Duration) (rest : Arrivals) (slot : Nat) (pool : Pool) :
    (h.serve due rest slot pool).delivered = h.delivered ++ [⟨h.settled, due, slot⟩] := by
  simp only [delivered, serve, Dispatcher.enqueue, List.append_assoc]

/-- what the scheduler waits for -/
inductive Awaits (a : Arrivals) (cancelAt : Option Duration) (h : Holding) : Prop where
  | arrival (due : Duration) (rest : Arrivals) (next : a.nth h.settled = .due due rest)
      (source : h.scheduler.source = .open due rest h.settled) (ahead : h.now ≤ a.instant h.settled) :
      Awaits a cancelAt h
  | nothing (ended : h.scheduler.isOver = true) (last : ¬ a.Comes cancelAt h.settled) : Awaits a cancelAt h

/-- what every step keeps of a run over the arrivals `a` -/
structure Tracks (a : Arrivals) (slots : Nat) (holdOf : Nat → Duration) (cancelAt : Option Duration) (h : Holding) :
    Prop where
  holdOf_eq : h.holdOf = holdOf
  cancelAt_eq : h.cancelAt = cancelAt
  endless : h.limit = none
  listening : h.scheduler.dispatcher.isClosed = false
  slots_eq : h.scheduler.dispatcher.pool.maxVus = slots
  room : slots ≤ h.scheduler.dispatcher.capacity
  /-- a slot is with an iteration in the queue or with one that was read -/
  active : h.scheduler.dispatcher.pool.active = h.scheduler.dispatcher.queue.length + h.held.length
  awaits : Awaits a cancelAt h
  stop : h.stopped = true → ∃ c ∈ cancelAt, c ≤ h.now
  past : ∀ k < h.settled, a.instant k ≤ h.now
  comes : ∀ k < h.settled, a.Comes cancelAt k
  served : h.delivered.map Dispatch.seq = (a.lossSystem slots holdOf).served h.settled
  due : ∀ e ∈ h.delivered, a.offset? e.seq = some e.due
  /-- the queue is read before time passes -/
  fresh : ∀ e ∈ h.scheduler.dispatcher.queue, a.instant e.seq = h.now
  /-- at any later instant as many slots are still held as iterations that were read are still to end -/
  holding : ∀ x, h.now ≤ x →
    h.taken.countP (fun e => x < e.due + holdOf e.seq) = h.held.countP (fun s => x < s.1)
  dispatched : h.scheduler.dispatcher.arrived.dispatched = h.delivered.length
  dropped : h.metrics.dropped = h.scheduler.dispatcher.arrived.dropped

/-- the arrivals of a run are tie-free: none comes at the instant at which a slot is given back -/
def TieFree (a : Arrivals) (slots : Nat) (holdOf : Nat → Duration) (cancelAt : Option Duration) : Prop :=
  ∀ k, a.Comes cancelAt k → ∀ j ∈ (a.lossSystem slots holdOf).served k,
    (a.lossSystem slots holdOf).departure j ≠ a.instant k

variable {a : Arrivals} {slots : Nat} {holdOf : Nat → Duration} {cancelAt : Option Duration}

/-- what comes after the last arrival that was settled -/
theorem awaits_ofNext (rest : Arrivals) (hnext : a.nth h.settled = rest.pop)
    (hsource : h.scheduler.source = .ofNext h.settled rest.pop) (hnow : h.now ≤ a.instant h.settled) :
    Awaits a cancelAt h := by
  have hnone (hlast : a.offset? h.settled = none) : ¬ a.Comes cancelAt h.settled := fun hc => by
    have := hc.1; rw [hlast] at this; cases this
  cases hp : rest.pop with
  | due due rest' =>
    rw [hp] at hnext hsource
    exact .arrival due rest' hnext hsource hnow
  | finished rest' =>
    rw [hp] at hnext hsource
    exact .nothing (by rw [Scheduler.isOver, hsource]; rfl) (hnone (by rw [Arrivals.offset?, hnext]))
  | unrepresentable =>
    rw [hp] at hnext hsource
    exact .nothing (by rw [Scheduler.isOver, hsource]; rfl) (hnone (by rw [Arrivals.offset?, hnext]))

/-- the scheduler still waits for the same, if nothing was settled and no time passed -/
theorem Awaits.congr {h' : Holding} (hw : Awaits a cancelAt h) (hsettled : h'.settled = h.settled)
    (hsource : h'.scheduler.source = h.scheduler.source) (hnow : h'.now = h.now) : Awaits a cancelAt h' := by
  cases hw with
  | arrival due rest next source ahead =>
    exact .arrival due rest (by rw [hsettled, next]) (by rw [hsource, hsettled, source])
      (by rw [hnow, hsettled]; exact ahead)
  | nothing ended last =>
    exact .nothing (by rw [Scheduler.isOver, hsource]; exact ended) (by rw [hsettled]; exact last)

theorem tracks_start {m : ArrivalModel} (hm : Arrivals.ofModel? m = some a)
    (hmax : m.poolBounds.2 ≤ Dispatcher.queueMax) (holdOf : Nat → Duration) (cancelAt : Option Duration) :
    (start m holdOf cancelAt none).Tracks a m.poolBounds.2 holdOf cancelAt := by
  have hsource : (start m holdOf cancelAt none).scheduler.source = .ofNext 0 a.pop := by
    simp only [start, Scheduler.ofModel, Source.ofModel, hm]
  have hnone (k : Nat) : ¬ k < (start m holdOf cancelAt none).settled := Nat.not_lt_zero k
  have hroom : m.poolBounds.2 ≤ max 1 (min m.poolBounds.2 Dispatcher.queueMax) := by omega
  exact
    { holdOf_eq := rfl
      cancelAt_eq := rfl
      endless := rfl
      listening := rfl
      slots_eq := rfl
      room := hroom
      active := rfl
      awaits := awaits_ofNext a rfl hsource (Nat.zero_le _)
      stop := fun h => by cases h
      past := fun k hk => absurd hk (hnone k)
      comes := fun k hk => absurd hk (hnone k)
      served := rfl
      due := fun e he => by cases he
      fresh := fun e he => by cases he
      holding := fun _ _ => rfl
      dispatched := rfl
      dropped := rfl }

namespace Tracks

/-- the arrivals that were delivered were settled -/
theorem seq_lt (ht : h.Tracks a slots holdOf cancelAt) {e : Dispatch} (he : e ∈ h.delivered) : e.seq < h.settled := by
  have hmem : e.seq ∈ h.delivered.map Dispatch.seq := List.mem_map_of_mem he
  rw [ht.served] at hmem
  exact LossSystem.lt_of_mem_served hmem

/-- an arrival is got to now if it is due and those before it were settled -/
theorem instant_le (ht : h.Tracks a slots holdOf cancelAt) (hdue : a.offset h.settled ≤ h.now) :
    a.instant h.settled ≤ h.now := by
  cases hk : h.settled with
  | zero => rwa [hk] at hdue
  | succ k =>
    have hpast := ht.past k (by omega)
    rw [hk] at hdue
    rw [Duration.le_iff] at hpast hdue ⊢
    rw [Arrivals.instant, Duration.nanos_greatest]
    omega

/-- without ties every iteration in the queue is still to depart: its arrival came at this very instant -/
theorem countP_queue (ht : h.Tracks a slots holdOf cancelAt)
    (hties : ∀ j ∈ (a.lossSystem slots holdOf).served h.settled, (a.lossSystem slots holdOf).departure j ≠ h.now) :
    h.scheduler.dispatcher.queue.countP (fun e => h.now < (a.lossSystem slots holdOf).departure e.seq) =
      h.scheduler.dispatcher.queue.length := by
  refine List.countP_eq_length.2 fun e he => ?_
  have hne := hties e.seq (by rw [← ht.served]; exact List.mem_map_of_mem (List.mem_append_right _ he))
  have hge : h.now ≤ (a.lossSystem slots holdOf).departure e.seq := by
    rw [← ht.fresh e he]
    simp only [Arrivals.lossSystem, Duration.le_iff, Duration.nanos_greatest]
    omega
  exact decide_eq_true (Nat.lt_of_le_of_ne hge fun heq => hne (Duration.eq_of_nanos heq.symm))

/-- the iterations that were read and are still to depart are those whose slots are held -/
theorem countP_taken (ht : h.Tracks a slots holdOf cancelAt) (hcalm : h.IsCalm) :
    h.taken.countP (fun e => h.now < (a.lossSystem slots holdOf).departure e.seq) = h.held.length := by
  have hheld : h.held.countP (fun s => h.now < s.1) = h.held.length :=
    List.countP_eq_length.2 fun s hs => by simpa using hcalm.held s hs
  rw [← hheld, ← ht.holding h.now (Nat.le_refl _)]
  refine List.countP_congr fun e he => ?_
  have hmem : e ∈ h.delivered := List.mem_append_left _ (List.mem_reverse.2 he)
  have hpast := ht.past e.seq (ht.seq_lt hmem)
  simp only [Arrivals.lossSystem, Arrivals.offset_eq (ht.due e hmem), decide_eq_true_eq, Duration.lt_iff,
    Duration.nanos_greatest]
  rw [Duration.le_iff] at hpast
  omega

/-- **The slots that are busy.** When an arrival comes, the slots in use are those of the arrivals that are still to
depart. -/
theorem busy_eq (ht : h.Tracks a slots holdOf cancelAt) (hcalm : h.IsCalm)
    (hinstant : a.instant h.settled = h.now)
    (hties : ∀ j ∈ (a.lossSystem slots holdOf).served h.settled, (a.lossSystem slots holdOf).departure j ≠ h.now) :
    (a.lossSystem slots holdOf).busy ((a.lossSystem slots holdOf).served h.settled) h.settled =
      h.scheduler.dispatcher.pool.active := by
  have harrival : (a.lossSystem slots holdOf).arrival h.settled = h.now := hinstant
  rw [LossSystem.busy, ← ht.served, List.countP_map, harrival, ht.active, ← ht.countP_queue hties,
    ← ht.countP_taken hcalm, delivered, List.countP_append, List.countP_reverse, Nat.add_comm]
  rfl

/-! ## Steps of the caller and the reader -/

theorem cancel (ht : h.Tracks a slots holdOf cancelAt) {c : Duration} (hc : h.cancelTimer? = some c)
    (hlate : c ≤ h.now) : (h.step .cancel).Tracks a slots holdOf cancelAt := by
  have hcancel : c ∈ cancelAt := by rw [← ht.cancelAt_eq]; exact (cancelTimer?_eq_some.1 hc).2
  exact { ht with awaits := ht.awaits.congr rfl rfl rfl, stop := fun _ => ⟨c, hcancel, hlate⟩ }

/-- a slot that is given back was not to be held any longer -/
theorem giveBack (ht : h.Tracks a slots holdOf cancelAt) {i : Nat} {s : Duration × Nat} (hi : h.held[i]? = some s)
    (hlate : s.1 ≤ h.now) : (h.step (.giveBack i)).Tracks a slots holdOf cancelAt := by
  obtain ⟨hlt, hs⟩ := List.getElem?_eq_some_iff.1 hi
  rw [step_giveBack hi]
  have hactive := ht.active
  have hlen := List.length_eraseIdx_of_lt hlt
  refine { ht with awaits := ht.awaits.congr rfl rfl rfl, active := ?_, holding := fun x hx => ?_ }
  · simp only [Scheduler.release, Dispatcher.release, Pool.release, hlen]
    omega
  · have hcount := (List.getElem_cons_eraseIdx_perm hlt).countP_eq fun s => decide (x < s.1)
    have hover : ¬ x < s.1 := by
      simp only [Duration.lt_iff, Duration.le_iff] at hlate ⊢
      have : h.now.nanos ≤ x.nanos := hx
      omega
    rw [hs, List.countP_cons_of_neg (by simpa using hover)] at hcount
    rw [ht.holding x hx, ← hcount]

/-- an iteration that is read is still delivered, and its slot is still held -/
theorem read (ht : h.Tracks a slots holdOf cancelAt) {e : Dispatch} {rest : List Dispatch}
    (hq : h.scheduler.dispatcher.queue = e :: rest) : (h.step .read).Tracks a slots holdOf cancelAt := by
  have hdelivered : (h.step .read).delivered = h.delivered := by
    simp only [step_read hq, delivered, hq, List.reverse_cons, List.append_assoc, List.singleton_append]
  have hserved := ht.served
  have hdue := ht.due
  have hdispatched := ht.dispatched
  rw [← hdelivered] at hserved hdue hdispatched
  rw [step_read hq] at hserved hdue hdispatched ⊢
  have hactive := ht.active
  refine { ht with
    awaits := ht.awaits.congr rfl rfl rfl, active := ?_, served := hserved, due := hdue, dispatched := hdispatched
    fresh := fun e' he' => ht.fresh e' (by rw [hq]; exact List.mem_cons_of_mem _ he')
    holding := fun x hx => ?_ }
  · simp only [hactive, hq, List.length_cons, List.length_append, List.length_nil]
    omega
  · simp only [List.countP_cons, List.countP_append, List.countP_nil, ht.holding x hx, ht.holdOf_eq]
    omega

/-! ## Steps of the scheduler -/

/-- what the scheduler does when it goes on: it is stopped, or the next arrival gets a slot or is dropped -/
inductive Schedules (a : Arrivals) (L : LossSystem) (cancelAt : Option Duration) (h : Holding) : Holding → Prop where
  | halt (last : ¬ a.Comes cancelAt h.settled) : Schedules a L cancelAt h h.halt
  | serve (due : Duration) (rest : Arrivals) (next : a.nth h.settled = .due due rest)
      (instant : a.instant h.settled = h.now) (comes : a.Comes cancelAt h.settled)
      (free : L.busy (L.served h.settled) h.settled < L.slots) (slot : Nat) (pool : Pool)
      (active : pool.active = h.scheduler.dispatcher.pool.active + 1) (slots : pool.maxVus = L.slots) :
      Schedules a L cancelAt h (h.serve due rest slot pool)
  | lose (due : Duration) (rest : Arrivals) (next : a.nth h.settled = .due due rest)
      (instant : a.instant h.settled = h.now) (comes : a.Comes cancelAt h.settled)
      (full : L.slots ≤ L.busy (L.served h.settled) h.settled) : Schedules a L cancelAt h (h.lose rest)

/-- an arrival that is due while the run goes on comes now -/
theorem comes_now (ht : h.Tracks a slots holdOf cancelAt) (hcalm : h.IsCalm) (hstop : h.stopped = false)
    {due : Duration} (hoffset : a.offset? h.settled = some due) (hdue : due ≤ h.now)
    (hahead : h.now ≤ a.instant h.settled) : a.instant h.settled = h.now ∧ a.Comes cancelAt h.settled := by
  have hle := ht.instant_le (by rw [Arrivals.offset_eq hoffset]; exact hdue)
  have hinstant : a.instant h.settled = h.now := Duration.eq_of_nanos (Nat.le_antisymm hle hahead)
  refine ⟨hinstant, by rw [hoffset]; rfl, fun c hc => ?_⟩
  rw [hinstant]
  exact hcalm.cancel c (cancelTimer?_eq_some.2 ⟨hstop, by rw [ht.cancelAt_eq]; exact hc⟩)

/-- the slots in use decide what becomes of an arrival; the queue always has room for one that gets a slot -/
theorem schedules_arrival (ht : h.Tracks a slots holdOf cancelAt) (hties : TieFree a slots holdOf cancelAt)
    (hcalm : h.IsCalm) (hstop : h.stopped = false) {due : Duration} {rest : Arrivals}
    (hnext : a.nth h.settled = .due due rest) (hsource : h.scheduler.source = .open due rest h.settled)
    (hdue : due ≤ h.now) (hinstant : a.instant h.settled = h.now) (hcomes : a.Comes cancelAt h.settled) :
    Schedules a (a.lossSystem slots holdOf) cancelAt h (h.step .schedule) := by
  have hbusy := ht.busy_eq hcalm hinstant (hinstant ▸ hties _ hcomes)
  have hslots := ht.slots_eq
  have hactive := ht.active
  have hroom := ht.room
  have hsystem : (a.lossSystem slots holdOf).slots = slots := rfl
  rcases Nat.lt_or_ge h.scheduler.dispatcher.pool.active slots with hfree | hfull
  · obtain ⟨slot, pool, hoffer, hpool, hmax⟩ := Dispatcher.offer_of_lt (d := h.scheduler.dispatcher)
      (by omega) ht.listening (by omega) h.settled due
    have hstep : h.step .schedule = h.serve due rest slot pool := by
      simp only [step, schedule, serve, Scheduler.step, hsource, hstop, Bool.false_eq_true, if_false, if_pos hdue,
        Scheduler.arrive, hoffer, Dispatcher.enqueue, Nat.sub_self, recordDropped_zero]
    rw [hstep]
    exact .serve due rest hnext hinstant hcomes (by omega) slot pool hpool (hmax.trans hslots)
  · have hoffer := Dispatcher.offer_of_le (d := h.scheduler.dispatcher) (by omega) h.settled due
    have hstep : h.step .schedule = h.lose rest := by
      simp only [step, schedule, lose, Scheduler.step, hsource, hstop, Bool.false_eq_true, if_false, if_pos hdue,
        Scheduler.arrive, hoffer, Dispatcher.drop, Nat.add_sub_cancel_left]
    rw [hstep]
    exact .lose due rest hnext hinstant hcomes (by omega)

theorem schedules (ht : h.Tracks a slots holdOf cancelAt) (hties : TieFree a slots holdOf cancelAt)
    (hcalm : h.IsCalm) (hready : h.scheduler.isReady h.now h.stopped = true) :
    Schedules a (a.lossSystem slots holdOf) cancelAt h (h.step .schedule) := by
  cases ht.awaits with
  | nothing ended last =>
    rw [Scheduler.isOver_of_isReady hready] at ended
    cases ended
  | arrival due rest next source ahead =>
    cases hstop : h.stopped with
    | true =>
      have hstep : h.step .schedule = h.halt := by
        simp only [step, schedule, halt, Scheduler.step, source, hstop, if_true, Nat.sub_self, recordDropped_zero]
      rw [hstep]
      -- the stop was due before the scheduler got to this arrival
      refine .halt fun hc => ?_
      obtain ⟨c, hmem, hlate⟩ := ht.stop hstop
      have hbefore := hc.2 c hmem
      simp only [Duration.le_iff, Duration.lt_iff] at hlate hbefore ahead
      omega
    | false =>
      have hdue : due ≤ h.now := by
        simpa [Scheduler.isReady, source, hstop] using hready
      have hoffset : a.offset? h.settled = some due := Arrivals.offset?_eq_some.2 ⟨rest, next⟩
      obtain ⟨hinstant, hcomes⟩ := ht.comes_now hcalm hstop hoffset hdue ahead
      exact ht.schedules_arrival hties hcalm hstop next source hdue hinstant hcomes

theorem schedule (ht : h.Tracks a slots holdOf cancelAt) {h' : Holding}
    (hs : Schedules a (a.lossSystem slots holdOf) cancelAt h h') : h'.Tracks a slots holdOf cancelAt := by
  cases hs with
  | halt last => exact { ht with awaits := .nothing rfl last }
  | serve due rest next instant comes free slot pool active slots =>
    have hactive := ht.active
    refine { ht with
      slots_eq := slots, active := ?_, awaits := ?_, past := ?_, comes := ?_, served := ?_, due := ?_, fresh := ?_
      dispatched := ?_ }
    · simp only [serve, Dispatcher.enqueue, List.length_append, List.length_singleton]; omega
    · refine awaits_ofNext rest ?_ ?_ ?_ <;> rw [settled_serve]
      · exact Arrivals.nth_succ next
      · rfl
      · exact instant ▸ a.instant_le_succ _
    · rw [settled_serve]; exact Nat.forall_lt_succ_right.2 ⟨ht.past, instant ▸ Nat.le_refl _⟩
    · rw [settled_serve]; exact Nat.forall_lt_succ_right.2 ⟨ht.comes, comes⟩
    · rw [settled_serve, delivered_serve, List.map_append, ht.served, LossSystem.served_succ_of_lt free]; rfl
    · rw [delivered_serve]
      intro e he
      rcases List.mem_append.1 he with he | he
      · exact ht.due e he
      · rw [List.mem_singleton.1 he]
        exact Arrivals.offset?_eq_some.2 ⟨rest, next⟩
    · intro e he
      rcases List.mem_append.1 he with he | he
      · exact ht.fresh e he
      · rw [List.mem_singleton.1 he]
        exact instant
    · rw [delivered_serve, List.length_append, List.length_singleton, ← ht.dispatched]; rfl
  | lose due rest next instant comes full =>
    have hdropped := ht.dropped
    refine { ht with past := ?_, comes := ?_, served := ?_, awaits := ?_, dropped := ?_ }
    · refine awaits_ofNext rest ?_ ?_ ?_ <;> rw [settled_lose]
      · exact Arrivals.nth_succ next
      · rfl
      · exact instant ▸ a.instant_le_succ _
    · rw [settled_lose]; exact Nat.forall_lt_succ_right.2 ⟨ht.past, instant ▸ Nat.le_refl _⟩
    · rw [settled_lose]; exact Nat.forall_lt_succ_right.2 ⟨ht.comes, comes⟩
    · rw [settled_lose, LossSystem.served_succ_of_le full]; exact ht.served
    · simp only [lose, Metrics.Aggregate.recordDropped, Dispatcher.drop, hdropped]

/-! ## Time -/

/-- while nothing is to be done the next arrival is ahead -/
theorem lt_due (ht : h.Tracks a slots holdOf cancelAt) (hidle : h.scheduler.isReady h.now h.stopped = false)
    {due : Duration} (htimer : h.scheduler.timer? = some due) : h.now < due ∧ a.offset? h.settled = some due := by
  cases ht.awaits with
  | nothing ended last =>
    rw [Scheduler.timer?_of_isOver ended] at htimer
    cases htimer
  | arrival due' rest next source ahead =>
    simp only [Scheduler.timer?, source, Option.some.injEq] at htimer
    subst htimer
    simp only [Scheduler.isReady, source, Bool.or_eq_false_iff, decide_eq_false_iff_not] at hidle
    refine ⟨?_, Arrivals.offset?_eq_some.2 ⟨rest, next⟩⟩
    rw [Duration.lt_iff]
    rw [Duration.le_iff] at hidle
    omega

/-- time passes to the next arrival, or before it to a stop or to the end of a hold -/
theorem alarm (ht : h.Tracks a slots holdOf cancelAt) (hcalm : h.IsCalm)
    (hidle : h.scheduler.isReady h.now h.stopped = false) {due : Duration} (htimer : h.scheduler.timer? = some due) :
    h.now < h.alarms.foldl Duration.least due ∧ h.alarms.foldl Duration.least due ≤ due := by
  refine ⟨?_, Duration.foldl_least_le due h.alarms⟩
  rcases Duration.foldl_least_eq_or_mem due h.alarms with heq | hmem
  · rw [heq]; exact (ht.lt_due hidle htimer).1
  · rcases List.mem_append.1 hmem with hmem | hmem
    · exact hcalm.cancel _ (Option.mem_toList.1 hmem)
    · obtain ⟨s, hs, hlast⟩ := List.mem_map.1 hmem
      rw [← hlast]
      exact hcalm.held s hs

theorem pass (ht : h.Tracks a slots holdOf cancelAt) (hcalm : h.IsCalm)
    (hidle : h.scheduler.isReady h.now h.stopped = false) (hempty : h.scheduler.dispatcher.queue = [])
    {due : Duration} (htimer : h.scheduler.timer? = some due) :
    (h.step (.pass (h.alarms.foldl Duration.least due))).Tracks a slots holdOf cancelAt := by
  obtain ⟨hnow, hle⟩ := ht.alarm hcalm hidle htimer
  have hafter {x : Duration} (hx : x ≤ h.now) : x ≤ h.alarms.foldl Duration.least due :=
    Nat.le_trans hx (Nat.le_of_lt hnow)
  refine { ht with
    awaits := ?_
    stop := fun hs => ?_
    past := fun k hk => hafter (ht.past k hk)
    fresh := fun e he => ?_
    holding := fun x hx => ht.holding x (Nat.le_trans (Nat.le_of_lt hnow) hx) }
  · cases ht.awaits with
    | nothing ended last => exact .nothing ended last
    | arrival due' rest next source ahead =>
      refine .arrival due' rest next source ?_
      have hdue := Arrivals.offset_eq (ht.lt_due hidle htimer).2
      exact Nat.le_trans hle (hdue ▸ a.offset_le_instant h.settled)
  · obtain ⟨c, hc, hlate⟩ := ht.stop hs
    exact ⟨c, hc, hafter hlate⟩
  · have hmem : e ∈ h.scheduler.dispatcher.queue := he
    rw [hempty] at hmem
    cases hmem

/-! ## Runs -/

theorem step (ht : h.Tracks a slots holdOf cancelAt) (hties : TieFree a slots holdOf cancelAt)
    (hop : h.nextOp? = some op) : (h.step op).Tracks a slots holdOf cancelAt := by
  have hnext := h.next
  rw [hop] at hnext
  cases hnext with
  | cancel c pending late => exact ht.cancel pending late
  | giveBack i s held late => exact ht.giveBack held late
  | close sated => simp only [isSated, ht.endless] at sated; cases sated
  | schedule calm ready => exact ht.schedule (ht.schedules hties calm ready)
  | read e rest queue => exact ht.read queue
  | pass calm idle empty due timer => exact ht.pass calm idle empty timer

theorem advance (ht : h.Tracks a slots holdOf cancelAt) (hties : TieFree a slots holdOf cancelAt) (fuel : Nat) :
    (Holding.advance fuel h).Tracks a slots holdOf cancelAt := by
  induction fuel generalizing h with
  | zero => exact ht
  | succ fuel ih =>
    unfold Holding.advance
    cases hop : h.nextOp? with
    | none => exact ht
    | some op => exact ih (ht.step hties hop)

/-- when nothing happens any more, every arrival that comes was settled and everything delivered was read -/
theorem done (ht : h.Tracks a slots holdOf cancelAt) (hdone : h.nextOp? = none) :
    h.scheduler.dispatcher.queue = [] ∧ ∀ k, a.Comes cancelAt k → k < h.settled := by
  have hnext := h.next
  rw [hdone] at hnext
  cases hnext with
  | rest empty timer =>
    refine ⟨empty, fun k hk => ?_⟩
    cases ht.awaits with
    | arrival due rest next source ahead => rw [Scheduler.timer?, source] at timer; cases timer
    | nothing ended last => exact Nat.lt_of_not_le fun hle => last (hk.of_le hle)

end Tracks

end LoadGen.Holding
