/-
The queue never limits a pool that it is as long as. Every iteration in the queue holds a slot of its own, so the queue
is never longer than the number of active slots: whoever has just got a slot finds room. In a larger pool the queue may
be full, and then a slot that could not be used is back in the pool before anything else is decided.

- `Pool.IsActive`: a slot that is handed out; these are the slots of the iterations that hold one (`isActive_iff`).
- `Acts.busy_of_dropped`: an arrival is dropped because every slot is busy, or because the queue is full.
- `offer_gives_back`: an arrival that is not queued leaves the pool with as many slots as before, its own among them.
- `run_hasRoom`: what holds of a delivery after any steps.
-/
import LoadGen.Proofs.Run.Delivery

namespace LoadGen

/-! ## Active slots -/

namespace Pool

/-- there is such a slot, and it is handed out -/
def IsActive (p : Pool) (slot : Nat) : Prop :=
  slot < p.allocated ∧ slot ∉ p.idle

variable {warm slot limit : Nat} {held : List Nat} {p q : Pool}

theorem Lent.isActive_iff (h : p.Lent warm held) : p.IsActive slot ↔ slot ∈ held := by
  obtain ⟨-, -, hdisjoint⟩ := List.nodup_append.1 (h.ids.nodup_iff.2 List.nodup_range)
  have hmem : slot ∈ held ∨ slot ∈ p.idle ↔ slot < p.allocated := by
    rw [← List.mem_append, h.ids.mem_iff, List.mem_range]
  constructor
  · rintro ⟨hlt, hbusy⟩
    exact (hmem.2 hlt).resolve_right hbusy
  · intro hheld
    exact ⟨hmem.1 (.inl hheld), fun hidle => hdisjoint slot hheld slot hidle rfl⟩

theorem not_isActive_release (p : Pool) (slot : Nat) : ¬ (p.release slot).IsActive slot :=
  fun h => h.2 List.mem_cons_self

/-- a slot that is given back at once leaves as many active as before -/
theorem active_release_of_acquire (h : p.acquireBelow? limit = some (slot, q)) :
    (q.release slot).active = p.active := by
  obtain ⟨-, -, hactive, -⟩ := acquireBelow?_cases h
  show q.active - 1 = p.active
  omega

end Pool

/-- an arrival that gets a slot and is not queued gives it back -/
theorem Dispatcher.offer_gives_back {d : Dispatcher} {slot : Nat} {pool : Pool}
    (acquired : d.pool.acquire? = some (slot, pool)) {seq : Nat} {due : Duration}
    (unqueued : (d.offer seq due).2 ≠ .queued) :
    (d.offer seq due).1.pool.active = d.pool.active ∧ ¬ (d.offer seq due).1.pool.IsActive slot := by
  have hback : (d.offer seq due).1.pool = pool.release slot := by
    cases hclosed : d.isClosed with
    | true =>
      rw [offer_of_closed acquired hclosed]
      rfl
    | false =>
      cases hfull : d.isFull with
      | true =>
        rw [offer_of_full acquired hclosed hfull]
        rfl
      | false =>
        rw [offer_of_room acquired hclosed hfull] at unqueued
        exact absurd rfl unqueued
  rw [hback]
  exact ⟨Pool.active_release_of_acquire acquired, Pool.not_isActive_release _ _⟩

/-- an arrival is dropped where every slot is busy, or where there is a slot and the queue is full -/
theorem Scheduler.Acts.busy_of_dropped {s s' : Scheduler} {now : Duration} {stopped : Bool} (h : s.Acts now stopped s')
    (dropped : s'.dispatcher.arrived.dropped ≠ s.dispatcher.arrived.dropped) :
    s.dispatcher.pool.maxVus ≤ s.dispatcher.pool.active ∨
      s.dispatcher.pool.acquire?.isSome = true ∧ s.dispatcher.isFull = true := by
  cases h with
  | lose due rest seq source busy => exact .inl busy
  | overflow due rest seq source slot pool acquired listening full =>
    refine .inr ⟨?_, full⟩
    rw [acquired]
    rfl
  | _ => exact absurd rfl dropped

/-! ## Deliveries -/

namespace Delivery

/-- **The queue never limits a pool that it is as long as.** After any steps of the scheduler and its listener: every
iteration that is queued, waits for room or was received holds an active slot of its own, and nothing else does; so the
queue is never longer than the number of active slots, which never exceeds the pool's bound. If the bound is within the
longest queue, then whoever gets a slot finds room in the queue: an arrival is dropped only while every slot is busy,
and no iteration waits for room. In any pool an arrival that gets a slot and is refused has given it back when it is
decided on; and when the scheduler has gone on after the queue was closed, only the iterations that were received hold
slots. -/
theorem run_hasRoom (m : ArrivalModel) (ops : List Op) :
    let d := (start m).run ops
    (d.events.map Dispatch.slot).Nodup ∧
    (∀ slot, d.pool.IsActive slot ↔ ∃ e ∈ d.events, e.slot = slot) ∧
    d.pool.active = d.events.length ∧ d.queue.length ≤ d.pool.active ∧ d.pool.active ≤ m.poolBounds.2 ∧
    (m.poolBounds.2 ≤ Dispatcher.queueMax →
      (∀ limit slot pool, d.pool.acquireBelow? limit = some (slot, pool) → d.scheduler.dispatcher.isFull = false) ∧
      ((d.step .schedule).scheduler.dispatcher.arrived.dropped ≠ d.scheduler.dispatcher.arrived.dropped →
        d.pool.active = m.poolBounds.2) ∧
      d.scheduler.waiting? = none) ∧
    (∀ slot pool, d.pool.acquire? = some (slot, pool) → ∀ seq due,
      (d.scheduler.dispatcher.offer seq due).2 ≠ .queued →
      (d.scheduler.dispatcher.offer seq due).1.pool.active = d.pool.active ∧
        ¬ (d.scheduler.dispatcher.offer seq due).1.pool.IsActive slot) ∧
    (d.scheduler.dispatcher.isClosed = true → (d.step .schedule).events = d.held ∧
      (d.step .schedule).pool.active = d.held.length) := by
  intro d
  have h : d.Owned m.poolBounds.1 m.poolBounds.2 := owned_run m ops
  have hacts := d.scheduler.acts_step d.now d.stopped
  have hactive := h.lent.active
  rw [List.length_map] at hactive
  have hroom (hsmall : m.poolBounds.2 ≤ Dispatcher.queueMax) {limit slot : Nat} {pool : Pool}
      (acquired : d.pool.acquireBelow? limit = some (slot, pool)) : d.scheduler.dispatcher.isFull = false := by
    obtain ⟨hfree, -⟩ := Pool.acquireBelow?_cases acquired
    have hslots := h.slots
    exact h.room hsmall (by omega)
  refine ⟨h.lent.nodup, fun slot => ?_, hactive, h.queue_length_le, h.active_le, fun hsmall => ?_,
    fun slot pool acquired seq due unqueued => Dispatcher.offer_gives_back acquired unqueued, fun hclosed => ?_⟩
  · rw [h.lent.isActive_iff, List.mem_map]
  · refine ⟨fun limit slot pool => hroom hsmall, fun hdropped => ?_, h.handless hsmall⟩
    rcases hacts.busy_of_dropped hdropped with hbusy | ⟨hfree, hfull⟩
    · have hslots : d.scheduler.dispatcher.pool.maxVus = m.poolBounds.2 := h.slots
      exact Nat.le_antisymm h.active_le (hslots ▸ hbusy)
    · obtain ⟨⟨slot, pool⟩, acquired⟩ := Option.isSome_iff_exists.1 hfree
      rw [hroom hsmall acquired] at hfull
      cases hfull
  · have hnext : (d.step .schedule).Owned m.poolBounds.1 m.poolBounds.2 := h.step .schedule
    have hempty : (d.step .schedule).queue = [] := hnext.closed (hacts.follows.isClosed.trans hclosed)
    have hevents : (d.step .schedule).events = d.held := by
      show (d.step .schedule).queue ++ (d.scheduler.step d.now d.stopped).waiting?.toList ++ d.held = d.held
      rw [hempty, hacts.handless_of_closed hclosed]
      rfl
    refine ⟨hevents, ?_⟩
    rw [hnext.lent.active, hevents, List.length_map]

end Delivery

end LoadGen
