/-
The scheduler of an open loop and a reader that holds slots for given times are a loss system.

- `potential`: every step settles an arrival or lowers the potential, so a run ends when no more arrivals come.
- `advance_lossSystem`: at any moment of a run the scheduler has done what the loss system does, and when nothing happens
  any more it has settled all arrivals that come.
-/
import LoadGen.Proofs.Arrival.Walking
import LoadGen.Proofs.Run.Tracking

namespace LoadGen.Holding

variable {h : Holding} {op : Op} {a : Arrivals} {slots : Nat} {holdOf : Nat → Duration} {cancelAt : Option Duration}

/-! ## The end of a run -/

/-- the next thing to happen is that time passes -/
def waits (h : Holding) : Bool :=
  match h.nextOp? with
  | some (.pass _) => true
  | _ => false

/-- a stop that is still to come -/
def stopsToCome (h : Holding) : Nat :=
  if h.cancelTimer?.isSome then 1 else 0

/-- the scheduler is still to end -/
def endsToCome (h : Holding) : Nat :=
  if h.scheduler.isOver then 0 else 1

/-- what may happen before the next arrival, by weight: an iteration in the queue is read and then given back -/
def chores (h : Holding) : Nat :=
  4 * h.scheduler.dispatcher.queue.length + 2 * h.held.length + 2 * h.stopsToCome + 2 * h.endsToCome

/-- the chores, and the time that passes before the first of them -/
def potential (h : Holding) : Nat :=
  h.chores + if h.waits then 1 else 0

theorem endsToCome_le (h : Holding) : h.endsToCome ≤ 1 := by
  unfold endsToCome; split <;> omega

theorem potential_le (h : Holding) : h.potential ≤ h.chores + 1 := by
  unfold potential; split <;> omega

namespace Tracks

/-- time does not pass twice without anything in between -/
theorem waits_pass (ht : h.Tracks a slots holdOf cancelAt) (hcalm : h.IsCalm)
    (hidle : h.scheduler.isReady h.now h.stopped = false) (hempty : h.scheduler.dispatcher.queue = [])
    {due : Duration} (htimer : h.scheduler.timer? = some due) :
    (h.step (.pass (h.alarms.foldl Duration.least due))).waits = false := by
  have ht' := ht.pass hcalm hidle hempty htimer
  have hnext := (h.step (.pass (h.alarms.foldl Duration.least due))).next
  unfold waits
  split
  · rename_i t hop
    rw [hop] at hnext
    cases hnext with
    | pass calm idle _ due' timer =>
      have hdue : due' = due := Option.some.inj (timer.symm.trans htimer)
      have hlt : h.alarms.foldl Duration.least due < due := hdue ▸ (ht'.lt_due idle timer).1
      -- the clock stands at the arrival, at the stop or at the end of a hold, and none of these is still ahead
      rcases Duration.foldl_least_eq_or_mem due h.alarms with heq | hmem
      · rw [heq] at hlt
        exact absurd hlt (Nat.lt_irrefl _)
      · rcases List.mem_append.1 hmem with hmem | hmem
        · exact absurd (calm.cancel _ (Option.mem_toList.1 hmem)) (Nat.lt_irrefl _)
        · obtain ⟨s, hs, hlast⟩ := List.mem_map.1 hmem
          have hlt' : h.alarms.foldl Duration.least due < s.1 := calm.held s hs
          rw [hlast] at hlt'
          exact absurd hlt' (Nat.lt_irrefl _)
  · rfl

/-- every step but the passing of time settles an arrival or does a chore -/
theorem chores_step (ht : h.Tracks a slots holdOf cancelAt) (hties : TieFree a slots holdOf cancelAt)
    (hop : h.nextOp? = some op) (hpass : ∀ t, op ≠ .pass t) :
    6 * h.settled + (h.step op).chores + 2 ≤ 6 * (h.step op).settled + h.chores := by
  have hnext := h.next
  rw [hop] at hnext
  cases hnext with
  | cancel c pending late =>
    have hstops : h.stopsToCome = 1 := by rw [stopsToCome, pending]; rfl
    have hchores : (h.step .cancel).chores =
      4 * h.scheduler.dispatcher.queue.length + 2 * h.held.length + 2 * 0 + 2 * h.endsToCome := rfl
    have hsettled : (h.step .cancel).settled = h.settled := rfl
    rw [hsettled, hchores, chores, hstops]
    omega
  | giveBack i s held late =>
    obtain ⟨hlt, -⟩ := List.getElem?_eq_some_iff.1 held
    have hlen := List.length_eraseIdx_of_lt hlt
    rw [step_giveBack held]
    have hchores : chores { h with held := h.held.eraseIdx i, scheduler := h.scheduler.release s.2 } =
      4 * h.scheduler.dispatcher.queue.length + 2 * (h.held.eraseIdx i).length + 2 * h.stopsToCome +
        2 * h.endsToCome := rfl
    have hsettled : settled { h with held := h.held.eraseIdx i, scheduler := h.scheduler.release s.2 } =
      h.settled := rfl
    rw [hsettled, hchores, chores]
    omega
  | close sated => simp only [isSated, ht.endless] at sated; cases sated
  | schedule calm ready =>
    have hends : h.endsToCome = 1 := by rw [endsToCome, Scheduler.isOver_of_isReady ready]; rfl
    have hs := ht.schedules hties calm ready
    generalize h.step .schedule = h' at hs ⊢
    cases hs with
    | halt last =>
      have hchores : h.halt.chores =
        4 * h.scheduler.dispatcher.queue.length + 2 * h.held.length + 2 * h.stopsToCome + 2 * 0 := rfl
      have hsettled : h.halt.settled = h.settled := rfl
      rw [hsettled, hchores, chores, hends]
      omega
    | serve due rest next instant comes free slot pool active slots =>
      have hchores : (h.serve due rest slot pool).chores =
        4 * (h.scheduler.dispatcher.queue ++ [(⟨h.settled, due, slot⟩ : Dispatch)]).length + 2 * h.held.length +
          2 * h.stopsToCome + 2 * (h.serve due rest slot pool).endsToCome := rfl
      have hends' := (h.serve due rest slot pool).endsToCome_le
      rw [settled_serve, hchores, chores, hends, List.length_append, List.length_singleton]
      omega
    | lose due rest next instant comes full =>
      have hchores : (h.lose rest).chores =
        4 * h.scheduler.dispatcher.queue.length + 2 * h.held.length + 2 * h.stopsToCome +
          2 * (h.lose rest).endsToCome := rfl
      have hends' := (h.lose rest).endsToCome_le
      rw [settled_lose, hchores, chores, hends]
      omega
  | read e rest queue =>
    have hchores : (h.step .read).chores =
        4 * rest.length + 2 * (h.held.length + 1) + 2 * h.stopsToCome + 2 * h.endsToCome := by
      rw [step_read queue, chores, List.length_append, List.length_singleton]
      rfl
    have hsettled : (h.step .read).settled = h.settled := by rw [step_read queue]; rfl
    rw [hsettled, hchores, chores, queue, List.length_cons]
    omega
  | pass calm idle empty due timer => exact absurd rfl (hpass _)

/-- every step settles an arrival or lowers the potential -/
theorem potential_step (ht : h.Tracks a slots holdOf cancelAt) (hties : TieFree a slots holdOf cancelAt)
    (hop : h.nextOp? = some op) :
    6 * h.settled + (h.step op).potential + 1 ≤ 6 * (h.step op).settled + h.potential := by
  have hle := (h.step op).potential_le
  have hge : h.chores ≤ h.potential := Nat.le_add_right _ _
  have hnext := h.next
  rw [hop] at hnext
  cases hnext with
  | pass calm idle empty due timer =>
    have hwaits : h.waits = true := by rw [waits, hop]
    have hpot : h.potential = h.chores + 1 := by rw [potential, hwaits]; rfl
    have hpot' : (h.step (.pass (h.alarms.foldl Duration.least due))).potential = h.chores := by
      rw [potential, ht.waits_pass calm idle empty timer]; rfl
    have hsettled : (h.step (.pass (h.alarms.foldl Duration.least due))).settled = h.settled := rfl
    omega
  | _ =>
    have hchores := ht.chores_step hties hop (fun t => by simp)
    omega

/-- a run that has not ended has settled an arrival in every six steps -/
theorem potential_advance (ht : h.Tracks a slots holdOf cancelAt) (hties : TieFree a slots holdOf cancelAt) (fuel : Nat)
    (hrun : (Holding.advance fuel h).nextOp? ≠ none) :
    6 * h.settled + fuel ≤ 6 * (Holding.advance fuel h).settled + h.potential := by
  induction fuel generalizing h with
  | zero => exact Nat.le_add_right _ _
  | succ fuel ih =>
    unfold Holding.advance at hrun ⊢
    cases hop : h.nextOp? with
    | none => rw [hop] at hrun; exact absurd hop hrun
    | some op =>
      rw [hop] at hrun
      have hstep := ht.potential_step hties hop
      have hrest := ih (ht.step hties hop) hrun
      simp only
      omega

/-- **A run ends.** It settles at most `n` arrivals if arrival `n` does not come, so it cannot go on for more steps than
these and the potential at its start allow. -/
theorem ends (ht : h.Tracks a slots holdOf cancelAt) (hties : TieFree a slots holdOf cancelAt) {n fuel : Nat}
    (hn : ¬ a.Comes cancelAt n) (hfuel : 6 * n + h.potential < 6 * h.settled + fuel) :
    (Holding.advance fuel h).nextOp? = none := by
  by_contra hrun
  have hpot := ht.potential_advance hties fuel hrun
  have hlt : n < (Holding.advance fuel h).settled := by omega
  exact hn ((ht.advance hties fuel).comes n hlt)

/-! ## The rule of the loss system -/

/-- an arrival was delivered if it found a slot among those delivered before it -/
theorem delivered_iff (ht : h.Tracks a slots holdOf cancelAt) {k : Nat} (hk : k < h.settled) :
    k ∈ h.delivered.map Dispatch.seq ↔
      (a.lossSystem slots holdOf).busy ((h.delivered.map Dispatch.seq).filter (· < k)) k < slots := by
  rw [ht.served, LossSystem.filter_served (Nat.le_of_lt hk), LossSystem.mem_served]
  exact and_iff_right hk

/-- for an arrival in order, the busy slots can be told from the due times and the holding times -/
theorem busy_of_inOrder (ht : h.Tracks a slots holdOf cancelAt) {k : Nat} (horder : a.InOrder k) :
    (a.lossSystem slots holdOf).busy ((h.delivered.map Dispatch.seq).filter (· < k)) k =
      h.delivered.countP fun e => e.seq < k ∧ a.offset k < e.due + holdOf e.seq := by
  rw [LossSystem.busy, List.countP_filter, List.countP_map]
  refine List.countP_congr fun e he => ?_
  have harrival : (a.lossSystem slots holdOf).arrival k = a.offset k := Arrivals.instant_eq_offset horder
  by_cases hlt : e.seq < k
  · have hdeparture : (a.lossSystem slots holdOf).departure e.seq = e.due + holdOf e.seq := by
      rw [← Arrivals.offset_eq (ht.due e he)]
      exact Arrivals.departure_eq (horder.of_le (Nat.le_of_lt hlt))
    simp only [Function.comp, harrival, hdeparture, hlt, decide_true, Bool.and_true, true_and]
  · simp only [Function.comp, hlt, decide_false, Bool.and_false, false_and]

end Tracks

theorem potential_start (m : ArrivalModel) (holdOf : Nat → Duration) (cancelAt : Option Duration) :
    (start m holdOf cancelAt none).potential ≤ 5 := by
  have hstops : (start m holdOf cancelAt none).stopsToCome ≤ 1 := by unfold stopsToCome; split <;> omega
  have hends := (start m holdOf cancelAt none).endsToCome_le
  have hchores : (start m holdOf cancelAt none).chores =
    4 * 0 + 2 * 0 + 2 * (start m holdOf cancelAt none).stopsToCome +
      2 * (start m holdOf cancelAt none).endsToCome := rfl
  have hle := (start m holdOf cancelAt none).potential_le
  omega

/-- **The open loop is a loss system.** Slots are held for any times, the run may be stopped, and no arrival comes at
the instant at which a slot is given back. After any number of steps the arrivals that were settled, dispatched or
dropped, are the first of those that come before the stop. Arrival `k` was delivered, with its number and its due time,
exactly if fewer than `maxVus` of the arrivals delivered before it were still to depart. An arrival in order comes when
it is due and departs a holding time later; at a constant rate they all are, and the first `2 ^ 48` at a ramping one.
Once nothing happens any more all that come were settled, and if arrival `n` does not come that takes `6 (n + 1)` steps
at most. -/
theorem advance_lossSystem {m : ArrivalModel} (hm : Arrivals.ofModel? m = some a)
    (hmax : m.poolBounds.2 ≤ Dispatcher.queueMax) (hties : TieFree a m.poolBounds.2 holdOf cancelAt) (fuel : Nat) :
    let h := advance fuel (start m holdOf cancelAt none)
    let L := a.lossSystem m.poolBounds.2 holdOf
    (∀ k < h.settled, a.Comes cancelAt k) ∧
    (h.delivered.map Dispatch.seq).Pairwise (· < ·) ∧
    (∀ e ∈ h.delivered, e.seq < h.settled ∧ a.offset? e.seq = some e.due) ∧
    (∀ k < h.settled, k ∈ h.delivered.map Dispatch.seq ↔
      L.busy ((h.delivered.map Dispatch.seq).filter (· < k)) k < m.poolBounds.2) ∧
    (∀ k, a.InOrder k →
      (a.Comes cancelAt k ↔ (a.offset? k).isSome ∧ ∀ c ∈ cancelAt, a.offset k < c) ∧
      (k < h.settled → (k ∈ h.delivered.map Dispatch.seq ↔
        h.delivered.countP (fun e => e.seq < k ∧ a.offset k < e.due + holdOf e.seq) < m.poolBounds.2))) ∧
    (∀ k, (a.offset? k).isSome → (∀ startRate timeUnit stages preAllocated most,
      m = .rampingArrivalRate startRate timeUnit stages preAllocated most →
        (Ramp.mk startRate stages).InWords ∧ k ≤ 2 ^ 48) → a.InOrder k) ∧
    h.scheduler.dispatcher.arrived.dispatched = h.delivered.length ∧
    h.metrics.dropped = h.scheduler.dispatcher.arrived.dropped ∧
    (h.nextOp? = none → h.scheduler.dispatcher.queue = [] ∧ ∀ k, a.Comes cancelAt k ↔ k < h.settled) ∧
    (∀ n, ¬ a.Comes cancelAt n → 6 * (n + 1) ≤ fuel → h.nextOp? = none) := by
  intro h L
  have hstart := tracks_start hm hmax holdOf cancelAt
  have ht : h.Tracks a m.poolBounds.2 holdOf cancelAt := hstart.advance hties fuel
  have hpot := potential_start m holdOf cancelAt
  refine ⟨ht.comes, ?_, fun e he => ⟨ht.seq_lt he, ht.due e he⟩, fun k hk => ht.delivered_iff hk,
    fun k horder => ⟨Arrivals.comes_iff horder, fun hk => ?_⟩,
    fun k hsome hramp => Arrivals.inOrder_ofModel hm hramp hsome, ht.dispatched, ht.dropped, fun hdone => ?_,
    fun n hn hfuel => hstart.ends hties hn (by omega)⟩
  · rw [ht.served]
    exact L.pairwise_served h.settled
  · rw [← ht.busy_of_inOrder horder]
    exact ht.delivered_iff hk
  · obtain ⟨hempty, hall⟩ := ht.done hdone
    exact ⟨hempty, fun k => ⟨hall k, ht.comes k⟩⟩

/-- an arrival every half second, for two seconds -/
def everyHalfSecond : Arrivals :=
  .constant ⟨2, .ofSecs 1, .ofSecs 2, 0⟩

/-- **One slot, held for 700 ms, and a stop after 1200 ms**: of three arrivals the second is dropped. -/
theorem advance_lossSystem_everyHalfSecond :
    let h := advance 24 (start (.constantArrivalRate 2 (.ofSecs 1) (.ofSecs 2) 1 1) (fun _ => .ofMillis 700)
      (some (.ofMillis 1200)) none)
    h.nextOp? = none ∧ h.delivered.map Dispatch.seq = [0, 2] ∧ h.settled = 3 ∧
    ∀ k < h.settled, k ∈ h.delivered.map Dispatch.seq ↔
      h.delivered.countP (fun e => e.seq < k ∧ everyHalfSecond.offset k < e.due + .ofMillis 700) < 1 := by
  have hthree : ¬ everyHalfSecond.Comes (some (.ofMillis 1200)) 3 := fun hc =>
    absurd (hc.2 _ rfl) (by decide +kernel)
  have hties : TieFree everyHalfSecond 1 (fun _ => .ofMillis 700) (some (.ofMillis 1200)) := by
    intro k hk
    have hlt : k < 3 := Nat.lt_of_not_le fun hle => hthree (hk.of_le hle)
    have hall : ∀ k < 3, ∀ j ∈ (everyHalfSecond.lossSystem 1 fun _ => .ofMillis 700).served k,
        (everyHalfSecond.lossSystem 1 fun _ => .ofMillis 700).departure j ≠ everyHalfSecond.instant k := by
      decide +kernel
    exact hall k hlt
  intro h
  obtain ⟨hcomes, -, -, -, hrule, hordered, -, -, -, hends⟩ :=
    advance_lossSystem (m := .constantArrivalRate 2 (.ofSecs 1) (.ofSecs 2) 1 1) rfl (by decide) hties 24
  refine ⟨hends 3 hthree (by decide), by decide +kernel, by decide +kernel, fun k hk => ?_⟩
  exact (hrule k (hordered k (hcomes k hk).1 nofun)).2 hk

end LoadGen.Holding
