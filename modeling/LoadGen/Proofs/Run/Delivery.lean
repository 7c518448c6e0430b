/-
Who holds the slots. A slot that is handed out goes with one iteration: into the queue, to the place where one iteration
waits for room, on to the listener, and from there back to the pool. Nothing else holds a slot, whatever order the parts
go on in.

- `Owned`: the pool has lent its slots to the iterations that are queued, wait for room or were received, one to each.
- `owned_run`: this holds after any steps.
-/
import Mathlib.Data.List.Perm.Basic
import LoadGen.Proofs.Pool.Representation
import LoadGen.Proofs.Run.Scheduling

namespace LoadGen

/-! ## Steps of the listener -/

namespace Delivery

variable {d : Delivery} {e : Dispatch} {rest : List Dispatch} {i : Nat}

theorem run_cons (d : Delivery) (op : Op) (ops : List Op) : d.run (op :: ops) = (d.step op).run ops := rfl

theorem run_append (d : Delivery) (ops ops' : List Op) : d.run (ops ++ ops') = (d.run ops).run ops' :=
  List.foldl_append

theorem step_receive_nil (h : d.scheduler.dispatcher.queue = []) : d.step .receive = d := by
  simp only [step, Dispatcher.receive?, h]

theorem step_receive_cons (h : d.scheduler.dispatcher.queue = e :: rest) : d.step .receive =
    { d with
      scheduler := { d.scheduler with dispatcher := { d.scheduler.dispatcher with queue := rest } }
      held := d.held ++ [e] } := by
  simp only [step, Dispatcher.receive?, h]

theorem step_release_none (h : d.held[i]? = none) : d.step (.release i) = d := by
  simp only [step, h]

theorem step_release_some (h : d.held[i]? = some e) : d.step (.release i) =
    { d with scheduler := d.scheduler.release e.slot, held := d.held.eraseIdx i } := by
  simp only [step, h]

end Delivery

/-! ## Who holds the slots -/

namespace Pool.Lent

variable {warm slot : Nat} {held : List Nat} {p : Pool}

/-- a slot is given back by whoever holds it -/
theorem giveBack (h : p.Lent warm (slot :: held)) : (p.release slot).Lent warm held := by
  have hback := h.release List.mem_cons_self
  rwa [List.erase_cons_head] at hback

/-- slots are given back one after another -/
theorem giveBackAll {es : List Dispatch} (h : p.Lent warm (es.map Dispatch.slot ++ held)) :
    (es.foldl (fun p e => p.release e.slot) p).Lent warm held := by
  induction es generalizing p with
  | nil => exact h
  | cons e es ih => exact ih h.giveBack

end Pool.Lent

namespace Delivery

/-- the pool has lent its slots to the iterations that are queued, wait for room or were received, one to each; the
queue has room for all of them if it is as long as the pool -/
structure Owned (warm most : Nat) (d : Delivery) : Prop where
  lent : d.pool.Lent warm (d.events.map Dispatch.slot)
  slots : d.pool.maxVus = most
  capacity : d.scheduler.dispatcher.capacity = max 1 (min most Dispatcher.queueMax)
  closed : d.scheduler.dispatcher.isClosed = true → d.queue = []
  handless : most ≤ Dispatcher.queueMax → d.scheduler.waiting? = none

variable {warm most : Nat} {d : Delivery}

theorem owned_start (m : ArrivalModel) : (start m).Owned m.poolBounds.1 m.poolBounds.2 := by
  have hwaiting : (Scheduler.ofModel m).waiting? = none := by
    unfold Scheduler.ofModel Source.ofModel
    cases Arrivals.ofModel? m with
    | none => rfl
    | some arrivals => exact Scheduler.waiting?_ofNext _ _ _
  have hevents : (start m).events = [] := by
    show ([] ++ (Scheduler.ofModel m).waiting?.toList) ++ [] = []
    rw [hwaiting]
    rfl
  refine ⟨?_, rfl, rfl, fun _ => rfl, fun _ => hwaiting⟩
  rw [hevents]
  exact Pool.lent_init _ _

namespace Owned

theorem queue_length_le (h : d.Owned warm most) : d.queue.length ≤ d.pool.active := by
  rw [h.lent.active, List.length_map, events, Scheduler.pending, List.length_append, List.length_append]
  show d.queue.length ≤ d.queue.length + _ + _
  omega

theorem active_le (h : d.Owned warm most) : d.pool.active ≤ most := by
  rw [← h.slots]
  exact Nat.le_trans h.lent.active_le h.lent.peak_le

/-- where the queue is as long as the pool it has room for whatever has a slot -/
theorem room (h : d.Owned warm most) (small : most ≤ Dispatcher.queueMax) (free : d.pool.active < most) :
    d.scheduler.dispatcher.isFull = false := by
  have hqueue := h.queue_length_le
  have hcapacity := h.capacity
  have hlength : d.scheduler.dispatcher.queue.length = d.queue.length := rfl
  simp only [Dispatcher.isFull, decide_eq_false_iff_not]
  omega

/-- a step of the scheduler -/
theorem schedule (h : d.Owned warm most) : (d.step .schedule).Owned warm most := by
  have hacts := d.scheduler.acts_step d.now d.stopped
  have hlent := h.lent
  have hslots := h.slots
  have hfollows := hacts.follows
  have hheld : (d.step .schedule).events = (d.scheduler.step d.now d.stopped).pending ++ d.held := rfl
  have hfree {limit slot : Nat} {pool : Pool} (ha : d.pool.acquireBelow? limit = some (slot, pool)) :
      d.pool.active < most ∧ pool.maxVus = most := by
    obtain ⟨hroom, hmax, -⟩ := Pool.acquireBelow?_cases ha
    omega
  suffices hpool : (d.step .schedule).pool.Lent warm ((d.step .schedule).events.map Dispatch.slot) ∧
      (d.step .schedule).pool.maxVus = most by
    refine ⟨hpool.1, hpool.2, hfollows.capacity.trans h.capacity, fun hc => ?_, fun small => ?_⟩
    · have hc' : d.scheduler.dispatcher.isClosed = true := hfollows.isClosed ▸ hc
      exact (hfollows.closed hc').trans (h.closed hc')
    · exact hacts.handless (h.handless small) fun _ _ _ ha => h.room small (hfree ha).1
  rw [hheld]
  rw [events] at hlent
  cases hacts.transfers with
  | keep pool pending =>
    rw [pending, show (d.step .schedule).pool = d.pool from pool]
    exact ⟨hlent, hslots⟩
  | take running limit e acquired pending =>
    have hmore := hlent.acquire acquired
    refine ⟨hmore.perm ?_, (hfree acquired).2⟩
    rw [pending, List.append_assoc, List.singleton_append]
    exact (List.perm_middle.symm.map Dispatch.slot)
  | bounce limit slot pool acquired released pending =>
    rw [pending, show (d.step .schedule).pool = pool.release slot from released]
    exact ⟨(hlent.acquire acquired).giveBack, (hfree acquired).2⟩
  | withdraw e pool pending =>
    rw [pending, List.append_assoc, List.singleton_append] at hlent
    rw [show (d.step .schedule).pool = d.pool.release e.slot from pool]
    exact ⟨(hlent.perm (List.perm_middle.map Dispatch.slot)).giveBack, hslots⟩

/-- an iteration that is received takes its slot along -/
theorem receive (h : d.Owned warm most) : (d.step .receive).Owned warm most := by
  cases hq : d.scheduler.dispatcher.queue with
  | nil =>
    rw [step_receive_nil hq]
    exact h
  | cons e rest =>
    rw [step_receive_cons hq]
    refine ⟨h.lent.perm (List.Perm.map Dispatch.slot ?_), h.slots, h.capacity, fun hc => ?_, h.handless⟩
    · have hpending : d.scheduler.pending = e :: (rest ++ d.scheduler.waiting?.toList) := by
        rw [Scheduler.pending, hq, List.cons_append]
      rw [events, hpending, List.cons_append]
      show (e :: (rest ++ d.scheduler.waiting?.toList ++ d.held)).Perm
        (rest ++ d.scheduler.waiting?.toList ++ (d.held ++ [e]))
      rw [← List.append_assoc]
      exact (List.perm_append_singleton e _).symm
    · have hempty := h.closed hc
      rw [queue, hq] at hempty
      cases hempty

/-- an iteration that was received gives its slot back -/
theorem release (h : d.Owned warm most) (i : Nat) : (d.step (.release i)).Owned warm most := by
  cases hi : d.held[i]? with
  | none =>
    rw [step_release_none hi]
    exact h
  | some e =>
    rw [step_release_some hi]
    obtain ⟨hlt, he⟩ := List.getElem?_eq_some_iff.1 hi
    have hheld : (e :: d.held.eraseIdx i).Perm d.held := he ▸ List.getElem_cons_eraseIdx_perm hlt
    have hevents : d.events.Perm (e :: (d.scheduler.pending ++ d.held.eraseIdx i)) :=
      (hheld.symm.append_left d.scheduler.pending).trans List.perm_middle
    exact ⟨(h.lent.perm (hevents.map Dispatch.slot)).giveBack, h.slots, h.capacity, h.closed, h.handless⟩

/-- a queue that is closed gives all its slots back -/
theorem close (h : d.Owned warm most) : (d.step .close).Owned warm most := by
  have hlent := h.lent
  rw [events, Scheduler.pending, List.append_assoc, List.map_append] at hlent
  have hmax (es : List Dispatch) (p : Pool) : (es.foldl (fun p e => p.release e.slot) p).maxVus = p.maxVus := by
    induction es generalizing p with
    | nil => rfl
    | cons e es ih => exact ih (p.release e.slot)
  exact ⟨hlent.giveBackAll, (hmax _ _).trans h.slots, h.capacity, fun _ => rfl, h.handless⟩

/-- **A step keeps every slot with one iteration.** -/
theorem step (h : d.Owned warm most) (op : Op) : (d.step op).Owned warm most := by
  cases op with
  | pass span => exact ⟨h.lent, h.slots, h.capacity, h.closed, h.handless⟩
  | stop => exact ⟨h.lent, h.slots, h.capacity, h.closed, h.handless⟩
  | schedule => exact h.schedule
  | receive => exact h.receive
  | release i => exact h.release i
  | close => exact h.close

theorem run (h : d.Owned warm most) (ops : List Op) : (d.run ops).Owned warm most := by
  induction ops generalizing d with
  | nil => exact h
  | cons op ops ih => exact ih (h.step op)

end Owned

/-- **Every slot is with one iteration**, after any steps. -/
theorem owned_run (m : ArrivalModel) (ops : List Op) : ((start m).run ops).Owned m.poolBounds.1 m.poolBounds.2 :=
  (owned_start m).run ops

end Delivery

end LoadGen
