/-
What the scheduler may do in one step. An arrival or a claim of a closed loop takes a slot, and then it is queued, waits
for room, or gives the slot back; a stop, the end of the ramp or a closed queue ends the iterations.

- `Scheduler.Acts`: everything that a step may do, each with what led to it (`acts_step`).
- `Transfers`: what that does to the pool and to the iterations that nobody has received.
- `Dispatcher.Follows`: what it does to the queue and its counters.
-/
import LoadGen.Run.Delivery

namespace LoadGen

/-! ## The dispatcher -/

namespace Dispatcher

/-! ### An arrival that gets a slot -/

variable {d : Dispatcher} {slot : Nat} {pool : Pool}

/-- nobody listens: the slot is given back -/
theorem offer_of_closed (acquired : d.pool.acquire? = some (slot, pool)) (closed : d.isClosed = true) (seq : Nat)
    (due : Duration) : d.offer seq due = ({ d with pool }.release slot, .refused) := by
  simp only [offer, acquired]
  rw [if_pos closed]

/-- the queue has no room: the slot is given back -/
theorem offer_of_full (acquired : d.pool.acquire? = some (slot, pool)) (listening : d.isClosed = false)
    (full : d.isFull = true) (seq : Nat) (due : Duration) :
    d.offer seq due = (({ d with pool }.release slot).drop, .dropped) := by
  have hfull : isFull { d with pool } = true := full
  simp only [offer, acquired]
  rw [if_neg (by rw [listening]; decide), if_pos hfull]

theorem offer_of_room (acquired : d.pool.acquire? = some (slot, pool)) (listening : d.isClosed = false)
    (room : d.isFull = false) (seq : Nat) (due : Duration) :
    d.offer seq due = ({ d with pool }.enqueue ⟨seq, due, slot⟩, .queued) := by
  have hroom : ¬ isFull { d with pool } = true := by
    rw [show isFull { d with pool } = d.isFull from rfl, room]
    decide
  simp only [offer, acquired]
  rw [if_neg (by rw [listening]; decide), if_neg hroom]

/-! ### The queue and its counters -/

/-- `d'` comes after `d` by steps of the scheduler alone: it hands out and drops, and takes nothing back -/
structure Follows (d d' : Dispatcher) : Prop where
  /-- what left the queue is what was dispatched and is not in it -/
  handed : d.arrived.dispatched + d'.queue.length = d'.arrived.dispatched + d.queue.length
  undelivered : d'.arrived.undelivered = d.arrived.undelivered
  dropped : d.arrived.dropped ≤ d'.arrived.dropped
  capacity : d'.capacity = d.capacity
  isClosed : d'.isClosed = d.isClosed
  /-- nothing enters a queue that nobody reads -/
  closed : d.isClosed = true → d'.queue = d.queue

/-- only the pool changes -/
theorem follows_pool (d : Dispatcher) (pool : Pool) : d.Follows { d with pool } :=
  ⟨rfl, rfl, Nat.le_refl _, rfl, rfl, fun _ => rfl⟩

theorem follows_drop (d : Dispatcher) (pool : Pool) : d.Follows { d with pool }.drop :=
  ⟨rfl, rfl, Nat.le_succ _, rfl, rfl, fun _ => rfl⟩

theorem follows_enqueue (d : Dispatcher) (pool : Pool) (e : Dispatch) (listening : d.isClosed = false) :
    d.Follows ({ d with pool }.enqueue e) := by
  refine ⟨?_, rfl, Nat.le_refl _, rfl, rfl, fun hc => ?_⟩
  · simp only [enqueue, List.length_append, List.length_singleton]
    omega
  · rw [listening] at hc
    cases hc

end Dispatcher

/-! ## What the scheduler does -/

namespace Scheduler

/-- everything that a step of the scheduler may do -/
inductive Acts (s : Scheduler) (now : Duration) (stopped : Bool) : Scheduler → Prop where
  /-- there is nothing to do; an iteration may wait for room as long as somebody listens -/
  | stay (waits : ∀ e, s.waiting? = some e → s.dispatcher.isClosed = false) : Acts s now stopped s
  /-- nothing comes any more -/
  | halt (handless : s.waiting? = none) : Acts s now stopped { s with source := .exhausted }
  /-- a closed loop looks at its ramp -/
  | look (ramp : Ramp) (source : s.source = .closed ramp .look) (running : stopped = false)
      (live : ramp.isDone now = false) :
      Acts s now stopped { s with source := .closed ramp (.claim (ramp.targetAt now) (now + ramp.recheckIn now)) }
  /-- a closed loop has waited for a slot in vain -/
  | again (ramp : Ramp) (target : Nat) (deadline : Duration)
      (source : s.source = .closed ramp (.claim target deadline)) :
      Acts s now stopped { s with source := .closed ramp .look }
  /-- an arrival finds every slot busy -/
  | lose (due : Duration) (rest : Arrivals) (seq : Nat) (source : s.source = .open due rest seq)
      (busy : s.dispatcher.pool.maxVus ≤ s.dispatcher.pool.active) :
      Acts s now stopped ⟨.ofNext (seq + 1) rest.pop, s.dispatcher.drop⟩
  /-- an arrival finds a slot, and no room in the queue -/
  | overflow (due : Duration) (rest : Arrivals) (seq : Nat) (source : s.source = .open due rest seq) (slot : Nat)
      (pool : Pool) (acquired : s.dispatcher.pool.acquire? = some (slot, pool))
      (listening : s.dispatcher.isClosed = false) (full : s.dispatcher.isFull = true) :
      Acts s now stopped ⟨.ofNext (seq + 1) rest.pop, ({ s.dispatcher with pool }.release slot).drop⟩
  /-- an arrival finds a slot, and room in the queue -/
  | serve (due : Duration) (rest : Arrivals) (seq : Nat) (source : s.source = .open due rest seq)
      (running : stopped = false) (slot : Nat) (pool : Pool)
      (acquired : s.dispatcher.pool.acquire? = some (slot, pool)) (listening : s.dispatcher.isClosed = false) :
      Acts s now stopped
        ⟨.ofNext (seq + 1) rest.pop, { s.dispatcher with pool }.enqueue ⟨seq, due, slot⟩⟩
  /-- a slot is given back at once, as nobody listens or the ramp is over -/
  | decline (handless : s.waiting? = none) (limit slot : Nat) (pool : Pool)
      (acquired : s.dispatcher.pool.acquireBelow? limit = some (slot, pool)) :
      Acts s now stopped ⟨.exhausted, { s.dispatcher with pool }.release slot⟩
  /-- a closed loop finds a slot, and room in the queue -/
  | claim (ramp : Ramp) (target : Nat) (deadline : Duration) (source : s.source = .closed ramp (.claim target deadline))
      (running : stopped = false) (live : ramp.isDone now = false) (slot : Nat) (pool : Pool)
      (acquired : s.dispatcher.pool.acquireBelow? target = some (slot, pool))
      (listening : s.dispatcher.isClosed = false) :
      Acts s now stopped
        ⟨.closed ramp .look, { s.dispatcher with pool }.enqueue ⟨s.dispatcher.arrived.dispatched, now, slot⟩⟩
  /-- a closed loop finds a slot, and waits for room in the queue -/
  | hold (ramp : Ramp) (target : Nat) (deadline : Duration) (source : s.source = .closed ramp (.claim target deadline))
      (running : stopped = false) (live : ramp.isDone now = false) (slot : Nat) (pool : Pool)
      (acquired : s.dispatcher.pool.acquireBelow? target = some (slot, pool))
      (listening : s.dispatcher.isClosed = false) (full : s.dispatcher.isFull = true) :
      Acts s now stopped
        ⟨.closed ramp (.hand ⟨s.dispatcher.arrived.dispatched, now, slot⟩), { s.dispatcher with pool }⟩
  /-- there is room for the iteration that waits -/
  | hand (ramp : Ramp) (e : Dispatch) (source : s.source = .closed ramp (.hand e))
      (listening : s.dispatcher.isClosed = false) :
      Acts s now stopped ⟨.closed ramp .look, s.dispatcher.enqueue e⟩
  /-- nobody listens any more to the iteration that waits -/
  | withdraw (ramp : Ramp) (e : Dispatch) (source : s.source = .closed ramp (.hand e))
      (closed : s.dispatcher.isClosed = true) :
      Acts s now stopped ⟨.exhausted, s.dispatcher.release e.slot⟩

variable {s : Scheduler} {now : Duration} {stopped : Bool}

theorem waiting?_eq_some {e : Dispatch} : s.waiting? = some e ↔ ∃ ramp, s.source = .closed ramp (.hand e) := by
  unfold waiting?
  constructor
  · intro h
    split at h
    · rename_i ramp f hsource
      cases h
      exact ⟨ramp, hsource⟩
    · cases h
  · rintro ⟨ramp, hsource⟩
    rw [hsource]

theorem waiting?_ofNext (seq : Nat) (next : NextArrival Arrivals) (d : Dispatcher) :
    waiting? ⟨.ofNext seq next, d⟩ = none := by
  cases next <;> rfl

theorem stays_of_handless (handless : s.waiting? = none) (e : Dispatch) (h : s.waiting? = some e) :
    s.dispatcher.isClosed = false := by
  rw [handless] at h
  cases h

theorem acts_arrive {due : Duration} {rest : Arrivals} {seq : Nat} (source : s.source = .open due rest seq)
    (running : stopped = false) : s.Acts now stopped (s.arrive due rest seq) := by
  cases hacquire : s.dispatcher.pool.acquire? with
  | none =>
    have hbusy : s.dispatcher.pool.maxVus ≤ s.dispatcher.pool.active := by
      refine Nat.le_of_not_lt fun hfree => ?_
      have hsome := (s.dispatcher.pool.acquireBelow?_isSome s.dispatcher.pool.maxVus).2 (by omega)
      unfold Pool.acquire? at hacquire
      rw [hacquire] at hsome
      cases hsome
    rw [arrive, Dispatcher.offer_of_le hbusy]
    exact .lose due rest seq source hbusy
  | some taken =>
    obtain ⟨slot, pool⟩ := taken
    cases hclosed : s.dispatcher.isClosed with
    | true =>
      rw [arrive, Dispatcher.offer_of_closed hacquire hclosed]
      exact .decline (by rw [waiting?, source]) _ slot pool hacquire
    | false =>
      cases hfull : s.dispatcher.isFull with
      | true =>
        rw [arrive, Dispatcher.offer_of_full hacquire hclosed hfull]
        exact .overflow due rest seq source slot pool hacquire hclosed hfull
      | false =>
        rw [arrive, Dispatcher.offer_of_room hacquire hclosed hfull]
        exact .serve due rest seq source running slot pool hacquire hclosed

theorem acts_claim {ramp : Ramp} {target : Nat} {deadline : Duration}
    (source : s.source = .closed ramp (.claim target deadline)) (running : stopped = false) :
    s.Acts now stopped (s.claim ramp target deadline now) := by
  unfold claim
  split
  · rename_i slot pool hacquire
    have handless : s.waiting? = none := by rw [waiting?, source]
    simp only
    split
    · exact .decline handless target slot pool hacquire
    · rename_i hlive
      rw [Bool.not_eq_true] at hlive
      unfold hand
      split
      · exact .decline handless target slot pool hacquire
      · rename_i hopen
        have hlistening : s.dispatcher.isClosed = false := Bool.not_eq_true _ ▸ hopen
        split
        · rename_i hfull
          exact .hold ramp target deadline source running hlive slot pool hacquire hlistening hfull
        · exact .claim ramp target deadline source running hlive slot pool hacquire hlistening
  · split
    · exact .again ramp target deadline source
    · exact .stay (stays_of_handless (by rw [waiting?, source]))

theorem acts_hand {ramp : Ramp} {e : Dispatch} (source : s.source = .closed ramp (.hand e)) :
    s.Acts now stopped (s.hand ramp e) := by
  unfold hand
  split
  · rename_i hclosed
    exact .withdraw ramp e source hclosed
  · rename_i hopen
    have hlistening : s.dispatcher.isClosed = false := Bool.not_eq_true _ ▸ hopen
    split
    · rw [← source]
      exact .stay fun _ _ => hlistening
    · exact .hand ramp e source hlistening

/-- **A step of the scheduler** does one of these. -/
theorem acts_step (s : Scheduler) (now : Duration) (stopped : Bool) : s.Acts now stopped (s.step now stopped) := by
  unfold step
  split
  · rename_i hsource
    exact .stay (stays_of_handless (by rw [waiting?, hsource]))
  · rename_i hsource
    exact .stay (stays_of_handless (by rw [waiting?, hsource]))
  · rename_i due rest seq hsource
    split
    · exact .halt (by rw [waiting?, hsource])
    · rename_i hrunning
      split
      · exact acts_arrive hsource (Bool.not_eq_true _ ▸ hrunning)
      · exact .stay (stays_of_handless (by rw [waiting?, hsource]))
  · rename_i ramp hsource
    split
    · exact .halt (by rw [waiting?, hsource])
    · rename_i hrunning
      rw [Bool.not_eq_true, Bool.or_eq_false_iff] at hrunning
      exact .look ramp hsource hrunning.1 hrunning.2
  · rename_i ramp target deadline hsource
    split
    · exact .halt (by rw [waiting?, hsource])
    · rename_i hrunning
      exact acts_claim hsource (Bool.not_eq_true _ ▸ hrunning)
  · rename_i ramp e hsource
    exact acts_hand hsource

/-! ### What that does to the slots -/

/-- what a step does to the pool and to the iterations that nobody has received -/
inductive Transfers (s s' : Scheduler) (stopped : Bool) : Prop where
  | keep (pool : s'.dispatcher.pool = s.dispatcher.pool) (pending : s'.pending = s.pending)
  /-- one more iteration, with a slot of its own -/
  | take (running : stopped = false) (limit : Nat) (e : Dispatch)
      (acquired : s.dispatcher.pool.acquireBelow? limit = some (e.slot, s'.dispatcher.pool))
      (pending : s'.pending = s.pending ++ [e])
  /-- a slot is taken and given back at once -/
  | bounce (limit slot : Nat) (pool : Pool) (acquired : s.dispatcher.pool.acquireBelow? limit = some (slot, pool))
      (released : s'.dispatcher.pool = pool.release slot) (pending : s'.pending = s.pending)
  /-- the iteration that waited for room gives its slot back -/
  | withdraw (e : Dispatch) (pool : s'.dispatcher.pool = s.dispatcher.pool.release e.slot)
      (pending : s.pending = s'.pending ++ [e])

theorem pending_of_handless (handless : s.waiting? = none) : s.pending = s.dispatcher.queue := by
  rw [pending, handless, Option.toList_none, List.append_nil]

/-- where nothing waits for room, before and after, what is pending is what is in the queue -/
theorem pending_append {s' : Scheduler} {more : List Dispatch} (handless : s.waiting? = none)
    (handless' : s'.waiting? = none) (queue : s'.dispatcher.queue = s.dispatcher.queue ++ more) :
    s'.pending = s.pending ++ more := by
  rw [pending_of_handless handless, pending_of_handless handless', queue]

theorem pending_eq {s' : Scheduler} (handless : s.waiting? = none) (handless' : s'.waiting? = none)
    (queue : s'.dispatcher.queue = s.dispatcher.queue) : s'.pending = s.pending := by
  rw [pending_of_handless handless, pending_of_handless handless', queue]

theorem pending_of_hand {ramp : Ramp} {e : Dispatch} (source : s.source = .closed ramp (.hand e)) :
    s.pending = s.dispatcher.queue ++ [e] := by
  rw [pending, waiting?_eq_some.2 ⟨ramp, source⟩, Option.toList_some]

theorem Acts.transfers {s' : Scheduler} (h : s.Acts now stopped s') : s.Transfers s' stopped := by
  cases h with
  | stay => exact .keep rfl rfl
  | halt handless => exact .keep rfl (pending_eq handless rfl rfl)
  | look ramp source =>
    have handless : s.waiting? = none := by rw [waiting?, source]
    exact .keep rfl (pending_eq handless rfl rfl)
  | again ramp target deadline source =>
    have handless : s.waiting? = none := by rw [waiting?, source]
    exact .keep rfl (pending_eq handless rfl rfl)
  | lose due rest seq source =>
    have handless : s.waiting? = none := by rw [waiting?, source]
    exact .keep rfl (pending_eq handless (waiting?_ofNext _ _ _) rfl)
  | overflow due rest seq source slot pool acquired =>
    have handless : s.waiting? = none := by rw [waiting?, source]
    exact .bounce _ slot pool acquired rfl (pending_eq handless (waiting?_ofNext _ _ _) rfl)
  | serve due rest seq source running slot pool acquired =>
    have handless : s.waiting? = none := by rw [waiting?, source]
    exact .take running _ ⟨seq, due, slot⟩ acquired (pending_append handless (waiting?_ofNext _ _ _) rfl)
  | decline handless limit slot pool acquired =>
    exact .bounce limit slot pool acquired rfl (pending_eq handless rfl rfl)
  | claim ramp target deadline source running live slot pool acquired =>
    have handless : s.waiting? = none := by rw [waiting?, source]
    exact .take running target ⟨s.dispatcher.arrived.dispatched, now, slot⟩ acquired (pending_append handless rfl rfl)
  | hold ramp target deadline source running live slot pool acquired =>
    have handless : s.waiting? = none := by rw [waiting?, source]
    refine .take running target ⟨s.dispatcher.arrived.dispatched, now, slot⟩ acquired ?_
    rw [pending_of_handless handless, pending_of_hand rfl]
  | hand ramp e source =>
    refine .keep rfl ?_
    rw [pending_of_hand source, pending_of_handless rfl]
    rfl
  | withdraw ramp e source =>
    refine .withdraw e rfl ?_
    rw [pending_of_hand source, pending_of_handless rfl]
    rfl

/-- only where the queue is full does an iteration begin to wait for room -/
theorem Acts.handless {s' : Scheduler} (h : s.Acts now stopped s') (handless : s.waiting? = none)
    (room : ∀ limit slot pool, s.dispatcher.pool.acquireBelow? limit = some (slot, pool) →
      s.dispatcher.isFull = false) : s'.waiting? = none := by
  cases h with
  | stay => exact handless
  | lose | overflow | serve => exact waiting?_ofNext _ _ _
  | hold ramp target deadline source running live slot pool acquired listening full =>
    rw [room _ _ _ acquired] at full
    cases full
  | _ => rfl

/-- nothing waits for room in a queue that is closed -/
theorem Acts.handless_of_closed {s' : Scheduler} (h : s.Acts now stopped s') (closed : s.dispatcher.isClosed = true) :
    s'.waiting? = none := by
  cases h with
  | stay waits =>
    cases hw : s.waiting? with
    | none => rfl
    | some e =>
      have hlistening := waits e hw
      rw [closed] at hlistening
      cases hlistening
  | lose | overflow | serve => exact waiting?_ofNext _ _ _
  | hold _ _ _ _ _ _ _ _ _ listening =>
    rw [closed] at listening
    cases listening
  | _ => rfl

/-! ### What that does to the queue -/

theorem Acts.follows {s' : Scheduler} (h : s.Acts now stopped s') : s.dispatcher.Follows s'.dispatcher := by
  cases h with
  | stay | halt | look | again => exact s.dispatcher.follows_pool s.dispatcher.pool
  | lose => exact s.dispatcher.follows_drop s.dispatcher.pool
  | overflow _ _ _ _ slot pool => exact s.dispatcher.follows_drop (pool.release slot)
  | serve _ _ _ _ _ _ pool _ listening => exact s.dispatcher.follows_enqueue pool _ listening
  | claim _ _ _ _ _ _ _ pool _ listening => exact s.dispatcher.follows_enqueue pool _ listening
  | hand _ _ _ listening => exact s.dispatcher.follows_enqueue s.dispatcher.pool _ listening
  | decline _ _ slot pool => exact s.dispatcher.follows_pool (pool.release slot)
  | hold _ _ _ _ _ _ _ pool => exact s.dispatcher.follows_pool pool
  | withdraw _ e => exact s.dispatcher.follows_pool (s.dispatcher.pool.release e.slot)

theorem follows_step (s : Scheduler) (now : Duration) (stopped : Bool) :
    s.dispatcher.Follows (s.step now stopped).dispatcher :=
  (s.acts_step now stopped).follows

end Scheduler

end LoadGen
