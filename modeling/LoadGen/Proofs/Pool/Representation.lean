/-
What a pool knows of its slots. The slots held and the idle ones are together exactly those that were ever created, each
once, and the three counters say what they are named for: how many are held, how many were held at the most, and how
many there are.

- `Lent`: the invariant, of a pool and the slots that it has handed out, whoever holds them.
- `run_represents`: it holds after any calls of any tenants; the peak is the largest number ever active, a slot is
  created only while every other one is held, and an attempt below a limit succeeds exactly while fewer are active.
-/
import Mathlib.Data.List.Perm.Basic
import Mathlib.Data.List.Range
import Mathlib.Data.List.Induction
import LoadGen.Pool.Tenancy

namespace LoadGen

/-! ## A pool and the slots it has lent -/

namespace Pool

/-- `held` are the slots that the pool has handed out; `warm` of them it was asked to start with -/
structure Lent (warm : Nat) (held : List Nat) (p : Pool) : Prop where
  /-- held or idle, every slot there is stands once -/
  ids : (held ++ p.idle).Perm (List.range p.allocated)
  active : p.active = held.length
  active_le : p.active ≤ p.peak
  peak_le : p.peak ≤ p.maxVus
  allocated : p.allocated = max (min warm p.maxVus) p.peak

theorem lent_init (preAllocated maxVus : Nat) : (init preAllocated maxVus).Lent preAllocated [] where
  ids := List.Perm.refl _
  active := rfl
  active_le := Nat.le_refl 0
  peak_le := Nat.zero_le _
  allocated := by simp [init]

namespace Lent

variable {warm limit id : Nat} {held : List Nat} {p q : Pool}

theorem allocated_eq (h : p.Lent warm held) : p.allocated = held.length + p.idle.length := by
  have hl := h.ids.length_eq
  rw [List.length_append, List.length_range] at hl
  exact hl.symm

theorem allocated_le (h : p.Lent warm held) : p.allocated ≤ p.maxVus := by
  have := h.allocated; have := h.peak_le; omega

theorem nodup (h : p.Lent warm held) : held.Nodup :=
  (List.nodup_append.1 (h.ids.nodup_iff.2 List.nodup_range)).1

/-- who holds the slots, and in which order, makes no difference -/
theorem perm (h : p.Lent warm held) {held' : List Nat} (hp : held.Perm held') : p.Lent warm held' :=
  { h with ids := (hp.symm.append_right _).trans h.ids, active := h.active.trans hp.length_eq }

theorem acquire (h : p.Lent warm held) (ha : p.acquireBelow? limit = some (id, q)) : q.Lent warm (id :: held) := by
  obtain ⟨hroom, hmax, hact, hpeak, hcase⟩ := acquireBelow?_cases ha
  have hsize := h.allocated_eq
  have hcount := h.active
  have hle := h.active_le
  have hpm := h.peak_le
  have halloc := h.allocated
  obtain ⟨hidle, hsame⟩ | ⟨hnone, hnone', rfl, hnew⟩ := hcase
  · -- one of the idle slots: there is room below `allocated`, which therefore stays the peak's bound
    have hlen : p.idle.length = q.idle.length + 1 := by rw [hidle]; rfl
    refine ⟨?_, ?_, ?_, ?_, ?_⟩
    · rw [hsame]
      exact (List.perm_middle.symm.trans (by rw [← hidle])).trans h.ids
    · rw [hact, hcount]; rfl
    · omega
    · omega
    · rw [hmax, hsame, hpeak]; omega
  · -- every slot is held, so the number active is the number there are, and the new one is the next number
    have hlen : p.idle.length = 0 := by rw [hnone]; rfl
    refine ⟨?_, ?_, ?_, ?_, ?_⟩
    · have hids := h.ids
      rw [hnone, List.append_nil] at hids
      rw [hnone', List.append_nil, hnew, List.range_succ]
      exact (hids.cons _).trans (List.perm_append_singleton _ _).symm
    · rw [hact, hcount]; rfl
    · omega
    · omega
    · rw [hmax, hnew, hpeak]; omega

theorem release (h : p.Lent warm held) (hid : id ∈ held) : (p.release id).Lent warm (held.erase id) := by
  have hlen : (held.erase id).length = held.length - 1 := List.length_erase_of_mem hid
  have hcount := h.active
  have hle := h.active_le
  refine ⟨?_, ?_, ?_, h.peak_le, h.allocated⟩
  · have hback : (held.erase id ++ id :: p.idle).Perm (held ++ p.idle) :=
      List.perm_middle.trans ((List.perm_cons_erase hid).symm.append_right p.idle)
    exact hback.trans h.ids
  · simp only [Pool.release]; omega
  · simp only [Pool.release]; omega

end Lent

end Pool

/-! ## Tenants -/

namespace Tenancy

theorem run_snoc (t : Tenancy) (ops : List Op) (op : Op) : t.run (ops ++ [op]) = ((t.run ops).step op).1 := by
  simp [run, List.foldl_append]

theorem take_isSome (t : Tenancy) (limit : Nat) :
    (t.take limit).2.isSome ↔ t.pool.active < min limit t.pool.maxVus := by
  rw [← Pool.acquireBelow?_isSome]
  unfold take
  cases t.pool.acquireBelow? limit <;> simp

theorem take_cases (t : Tenancy) (limit : Nat) :
    ((t.take limit).1.pool = t.pool ∧ (t.take limit).1.held = t.held) ∨
    (∃ id, t.pool.acquireBelow? limit = some (id, (t.take limit).1.pool) ∧
      (t.take limit).1.held = id :: t.held) := by
  unfold take
  cases t.pool.acquireBelow? limit with
  | none => exact .inl ⟨rfl, rfl⟩
  | some r => exact .inr ⟨r.1, rfl, rfl⟩

/-- a waiter's attempt is an attempt like any other; it leaves a mark on the waiter only -/
theorem attempt_eq_take (t : Tenancy) (i limit : Nat) :
    (t.attempt i limit).1.pool = (t.take limit).1.pool ∧ (t.attempt i limit).1.held = (t.take limit).1.held ∧
      (t.attempt i limit).2 = (t.take limit).2 := by
  unfold attempt
  split <;> simp [*]

theorem attempt_cases (t : Tenancy) (i limit : Nat) :
    ((t.attempt i limit).1.pool = t.pool ∧ (t.attempt i limit).1.held = t.held) ∨
    (∃ id, t.pool.acquireBelow? limit = some (id, (t.attempt i limit).1.pool) ∧
      (t.attempt i limit).1.held = id :: t.held) := by
  obtain ⟨hpool, hheld, -⟩ := t.attempt_eq_take i limit
  rw [hpool, hheld]
  exact t.take_cases limit

/-- what a call does to the pool and to the slots held: nothing, or a slot is handed out, or one is given back -/
theorem step_cases (t : Tenancy) (op : Op) :
    ((t.step op).1.pool = t.pool ∧ (t.step op).1.held = t.held) ∨
    (∃ limit id, t.pool.acquireBelow? limit = some (id, (t.step op).1.pool) ∧ (t.step op).1.held = id :: t.held) ∨
    (∃ id ∈ t.held, (t.step op).1.pool = t.pool.release id ∧ (t.step op).1.held = t.held.erase id) := by
  cases op with
  | acquire =>
    rcases t.take_cases t.pool.maxVus with h | ⟨id, h⟩
    · exact .inl h
    · exact .inr (.inl ⟨_, id, h⟩)
  | acquireBelow limit =>
    rcases t.take_cases limit with h | ⟨id, h⟩
    · exact .inl h
    · exact .inr (.inl ⟨_, id, h⟩)
  | release id =>
    simp only [step]
    split
    · rename_i h; exact .inr (.inr ⟨id, by simpa using h, rfl, rfl⟩)
    · exact .inl ⟨rfl, rfl⟩
  | wait limit =>
    rcases ({ t with waiters := t.waiters ++ [Waiter.pending limit false] } : Tenancy).attempt_cases
      t.waiters.length limit with h | ⟨id, h⟩
    · exact .inl h
    · exact .inr (.inl ⟨_, id, h⟩)
  | poll i =>
    simp only [step]
    split
    · rcases t.attempt_cases i _ with h | ⟨id, h⟩
      · exact .inl h
      · exact .inr (.inl ⟨_, id, h⟩)
    · exact .inl ⟨rfl, rfl⟩

variable {warm : Nat} {t : Tenancy}

theorem step_lent (h : t.pool.Lent warm t.held) (op : Op) : (t.step op).1.pool.Lent warm (t.step op).1.held := by
  rcases t.step_cases op with ⟨hpool, hheld⟩ | ⟨limit, id, ha, hheld⟩ | ⟨id, hid, hpool, hheld⟩
  · rw [hpool, hheld]; exact h
  · rw [hheld]; exact h.acquire ha
  · rw [hpool, hheld]; exact h.release hid

theorem step_maxVus (t : Tenancy) (op : Op) : (t.step op).1.pool.maxVus = t.pool.maxVus := by
  rcases t.step_cases op with ⟨hpool, -⟩ | ⟨limit, id, ha, -⟩ | ⟨id, -, hpool, -⟩
  · rw [hpool]
  · exact (Pool.acquireBelow?_cases ha).2.1
  · rw [hpool]; rfl

/-- the peak moves with the number active, and only upwards -/
theorem step_peak (h : t.pool.Lent warm t.held) (op : Op) :
    (t.step op).1.pool.peak = max t.pool.peak (t.step op).1.pool.active := by
  have hle := h.active_le
  rcases t.step_cases op with ⟨hpool, -⟩ | ⟨limit, id, ha, -⟩ | ⟨id, -, hpool, -⟩
  · rw [hpool]; omega
  · obtain ⟨-, -, hact, hpeak, -⟩ := Pool.acquireBelow?_cases ha
    rw [hact, hpeak]
  · rw [hpool]; simp only [Pool.release]; omega

/-- a slot is created only while every other one is held -/
theorem step_allocated (h : t.pool.Lent warm t.held) (op : Op)
    (hgrow : t.pool.allocated < (t.step op).1.pool.allocated) : t.held.length = t.pool.allocated := by
  rcases t.step_cases op with ⟨hpool, -⟩ | ⟨limit, id, ha, -⟩ | ⟨id, -, hpool, -⟩
  · rw [hpool] at hgrow; exact absurd hgrow (Nat.lt_irrefl _)
  · obtain ⟨-, -, -, -, ⟨-, hsame⟩ | ⟨hnone, -⟩⟩ := Pool.acquireBelow?_cases ha
    · rw [hsame] at hgrow; exact absurd hgrow (Nat.lt_irrefl _)
    · have := h.allocated_eq; rw [hnone] at this; exact this.symm
  · rw [hpool] at hgrow; exact absurd hgrow (Nat.lt_irrefl _)

/-! ## Any calls -/

theorem run_lent (h : t.pool.Lent warm t.held) (ops : List Op) : (t.run ops).pool.Lent warm (t.run ops).held := by
  induction ops generalizing t with
  | nil => exact h
  | cons op ops ih => exact ih (step_lent h op)

theorem run_maxVus (t : Tenancy) (ops : List Op) : (t.run ops).pool.maxVus = t.pool.maxVus := by
  induction ops generalizing t with
  | nil => rfl
  | cons op ops ih => exact (ih _).trans (t.step_maxVus op)

/-- the peak is the most that were ever active: no call before had more, and one of them had as many -/
theorem run_peak (h : t.pool.Lent warm t.held) (hpeak : t.pool.peak = t.pool.active) (ops : List Op) :
    (∀ past, past <+: ops → (t.run past).pool.active ≤ (t.run ops).pool.peak) ∧
      ∃ past, past <+: ops ∧ (t.run past).pool.active = (t.run ops).pool.peak := by
  induction ops using List.reverseRecOn with
  | nil =>
    refine ⟨fun past hp => ?_, [], List.prefix_rfl, hpeak.symm⟩
    rw [List.prefix_nil.1 hp]
    exact hpeak.ge
  | append_singleton ops op ih =>
    obtain ⟨hall, past, hpast, hmost⟩ := ih
    have hstep := step_peak (run_lent h ops) op
    rw [← run_snoc] at hstep
    refine ⟨fun p hp => ?_, ?_⟩
    · rcases List.prefix_concat_iff.1 hp with rfl | hp
      · rw [hstep]; exact Nat.le_max_right _ _
      · rw [hstep]; exact (hall p hp).trans (Nat.le_max_left _ _)
    · -- either the last call set a new peak, or the old one stands
      by_cases hnew : (t.run ops).pool.peak ≤ (t.run (ops ++ [op])).pool.active
      · exact ⟨ops ++ [op], List.prefix_rfl, by rw [hstep]; omega⟩
      · exact ⟨past, hpast.trans (List.prefix_append _ _), by rw [hstep]; omega⟩

/-- **A pool knows its slots.** After any calls of any tenants: the slots held and the idle ones are those from 0 to
`allocated - 1`, each once; `active` is the number held, and `peak` the largest number that was ever active; there are
as many slots as the pool started with, or as the peak if that is more, and never more than its bound; a call creates a
slot only while every other one is held; and an attempt below a limit succeeds exactly while fewer are active. -/
theorem run_represents (preAllocated maxVus : Nat) (ops : List Op) :
    let t := (init preAllocated maxVus).run ops
    (t.held ++ t.pool.idle).Perm (List.range t.pool.allocated) ∧
    t.pool.active = t.held.length ∧
    t.pool.active ≤ t.pool.peak ∧ t.pool.peak ≤ maxVus ∧
    (∀ past, past <+: ops → ((init preAllocated maxVus).run past).pool.active ≤ t.pool.peak) ∧
    (∃ past, past <+: ops ∧ ((init preAllocated maxVus).run past).pool.active = t.pool.peak) ∧
    t.pool.allocated = max (min preAllocated maxVus) t.pool.peak ∧ t.pool.allocated ≤ maxVus ∧
    (∀ op, t.pool.allocated < (t.step op).1.pool.allocated → t.held.length = t.pool.allocated) ∧
    ((t.step .acquire).2.isSome ↔ t.pool.active < maxVus) ∧
    (∀ limit, (t.step (.acquireBelow limit)).2.isSome ↔ t.pool.active < min limit maxVus) ∧
    (∀ limit, (t.step (.wait limit)).2.isSome ↔ t.pool.active < min limit maxVus) ∧
    (∀ i limit, t.waiters[i]? = some (.pending limit true) →
      ((t.step (.poll i)).2.isSome ↔ t.pool.active < min limit maxVus)) := by
  intro t
  have h0 : (init preAllocated maxVus).pool.Lent preAllocated (init preAllocated maxVus).held :=
    Pool.lent_init preAllocated maxVus
  have h : t.pool.Lent preAllocated t.held := run_lent h0 ops
  have hmax : t.pool.maxVus = maxVus := run_maxVus _ ops
  obtain ⟨hall, hsome⟩ := run_peak h0 rfl ops
  refine ⟨h.ids, h.active, h.active_le, hmax ▸ h.peak_le, hall, hsome, hmax ▸ h.allocated, hmax ▸ h.allocated_le,
    step_allocated h, ?_, fun limit => ?_, fun limit => ?_, fun i limit hi => ?_⟩
  · show (t.take t.pool.maxVus).2.isSome ↔ _
    rw [t.take_isSome, Nat.min_self, hmax]
  · rw [← hmax]; exact t.take_isSome limit
  · simp only [step, attempt_eq_take]
    rw [← hmax]; exact take_isSome _ limit
  · simp only [step, hi, attempt_eq_take]
    rw [← hmax]; exact t.take_isSome limit

end Tenancy

end LoadGen
