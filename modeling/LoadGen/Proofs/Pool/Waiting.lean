/-
Waiting for a slot. A waiter that is polled looks at the pool only if a slot was given back since it last asked, and
yet it misses nothing: it is as if it asked at every poll.

- `retry`: the rule without marks, by which every poll of a waiter is an attempt.
- `Vigilant`: the invariant. A waiter that sleeps has reason to: as many slots are active as its limit allows. Handing
  out slots only adds reasons, and giving one back wakes every waiter.
- `run_wakes`: a poll obtains a slot exactly while fewer are active than the limit allows, and whatever the tenants do
  in whatever order, the two rules agree on every answer.
-/
import LoadGen.Proofs.Pool.Representation

namespace LoadGen

/-- the waiter sleeps only while as many slots are active as its limit allows -/
def Waiter.IsVigilant (p : Pool) : Waiter → Prop
  | pending limit false => min limit p.maxVus ≤ p.active
  | pending _ true | served => True

namespace Waiter

variable {p q : Pool} {w : Waiter}

/-- the more slots are active, the more reason there is to sleep -/
theorem IsVigilant.mono (h : w.IsVigilant p) (hmax : q.maxVus = p.maxVus) (hactive : p.active ≤ q.active) :
    w.IsVigilant q := by
  cases w with
  | served => trivial
  | pending limit woken =>
    cases woken with
    | true => trivial
    | false =>
      have hle : min limit p.maxVus ≤ p.active := h
      show min limit q.maxVus ≤ q.active
      omega

theorem isVigilant_wake (p : Pool) (w : Waiter) : w.wake.IsVigilant p := by
  cases w <;> trivial

end Waiter

namespace Tenancy

variable {t : Tenancy} {i limit : Nat}

/-- a call by the rule that every poll of a waiter is an attempt -/
def retry (t : Tenancy) : Op → Tenancy × Option Nat
  | .poll i =>
    match t.waiters[i]? with
    | some (.pending limit _) => t.attempt i limit
    | _ => (t, none)
  | op => t.step op

/-- what some calls obtain by a rule -/
def answers (rule : Tenancy → Op → Tenancy × Option Nat) (t : Tenancy) : List Op → List (Option Nat)
  | [] => []
  | op :: ops => (rule t op).2 :: answers rule (rule t op).1 ops

/-- no waiter sleeps while there is a slot for it -/
def Vigilant (t : Tenancy) : Prop :=
  ∀ w ∈ t.waiters, w.IsVigilant t.pool

/-! ## Attempts -/

/-- an attempt makes no slot free -/
theorem take_grows (t : Tenancy) (limit : Nat) :
    (t.take limit).1.waiters = t.waiters ∧ (t.take limit).1.pool.maxVus = t.pool.maxVus ∧
      t.pool.active ≤ (t.take limit).1.pool.active := by
  unfold take
  split
  · rename_i id pool ha
    obtain ⟨-, hmax, hactive, -⟩ := Pool.acquireBelow?_cases ha
    exact ⟨rfl, hmax, by simp only [hactive]; omega⟩
  · exact ⟨rfl, rfl, Nat.le_refl _⟩

theorem Vigilant.take (h : t.Vigilant) (limit : Nat) : (t.take limit).1.Vigilant := by
  obtain ⟨hwaiters, hmax, hactive⟩ := t.take_grows limit
  intro w hw
  rw [hwaiters] at hw
  exact (h w hw).mono hmax hactive

/-- an attempt leaves its waiter served, or asleep at a limit that is reached -/
theorem attempt_eq (t : Tenancy) (i limit : Nat) :
    (∃ id, t.attempt i limit = ({ (t.take limit).1 with waiters := t.waiters.set i .served }, some id)) ∨
    (min limit t.pool.maxVus ≤ t.pool.active ∧
      t.attempt i limit = ({ t with waiters := t.waiters.set i (.pending limit false) }, none)) := by
  cases ha : t.pool.acquireBelow? limit with
  | some r =>
    refine .inl ⟨r.1, ?_⟩
    simp only [attempt, take, ha]
  | none =>
    have hfull : ¬ t.pool.active < min limit t.pool.maxVus := by
      rw [← Pool.acquireBelow?_isSome, ha]
      exact Bool.false_ne_true
    refine .inr ⟨Nat.not_lt.1 hfull, ?_⟩
    simp only [attempt, take, ha]

theorem attempt_isSome (t : Tenancy) (i limit : Nat) :
    (t.attempt i limit).2.isSome ↔ t.pool.active < min limit t.pool.maxVus := by
  rw [(t.attempt_eq_take i limit).2.2]
  exact t.take_isSome limit

theorem Vigilant.attempt (h : ∀ j w, j ≠ i → t.waiters[j]? = some w → w.IsVigilant t.pool) (limit : Nat) :
    (t.attempt i limit).1.Vigilant := by
  -- the waiter at place `i` is settled by its own attempt, so nothing is asked of it before
  have hother {w new : Waiter} (hw : w ∈ t.waiters.set i new) : w = new ∨ w.IsVigilant t.pool := by
    obtain ⟨j, hj⟩ := List.mem_iff_getElem?.1 hw
    by_cases hij : j = i
    · subst hij
      rw [List.getElem?_set_self'] at hj
      cases hold : t.waiters[j]? with
      | none => rw [hold] at hj; cases hj
      | some old => rw [hold] at hj; cases hj; exact .inl rfl
    · rw [List.getElem?_set_ne (Ne.symm hij)] at hj
      exact .inr (h j w hij hj)
  obtain ⟨-, hmax, hactive⟩ := t.take_grows limit
  rcases t.attempt_eq i limit with ⟨id, heq⟩ | ⟨hfull, heq⟩ <;> rw [heq] <;> intro w hw
  · rcases hother hw with rfl | hw
    · trivial
    · exact hw.mono hmax hactive
  · rcases hother hw with rfl | hw
    · exact hfull
    · exact hw

/-! ## Calls -/

theorem Vigilant.step (h : t.Vigilant) (op : Op) : (t.step op).1.Vigilant := by
  have hat (j : Nat) (w : Waiter) (hw : t.waiters[j]? = some w) : w.IsVigilant t.pool :=
    h w (List.mem_of_getElem? hw)
  cases op with
  | acquire => exact h.take _
  | acquireBelow limit => exact h.take limit
  | release id =>
    simp only [Tenancy.step]
    split
    · intro w hw
      obtain ⟨v, -, rfl⟩ := List.mem_map.1 hw
      exact Waiter.isVigilant_wake _ v
    · exact h
  | wait limit =>
    refine Vigilant.attempt (fun j w hj hw => ?_) limit
    have hw' : (t.waiters ++ [Waiter.pending limit false])[j]? = some w := hw
    rw [List.getElem?_append] at hw'
    split at hw'
    · exact hat j w hw'
    · rename_i hge
      have hne : j - t.waiters.length ≠ 0 := by omega
      rw [List.getElem?_cons] at hw'
      simp [hne] at hw'
  | poll i =>
    simp only [Tenancy.step]
    split
    · exact Vigilant.attempt (fun j w _ hw => hat j w hw) _
    · exact h

theorem vigilant_init (preAllocated maxVus : Nat) : (init preAllocated maxVus).Vigilant := by
  intro w hw
  cases hw

theorem Vigilant.run (h : t.Vigilant) (ops : List Op) : (t.run ops).Vigilant := by
  induction ops generalizing t with
  | nil => exact h
  | cons op ops ih => exact ih (h.step op)

/-- an attempt that is bound to fail changes nothing, so a waiter that sleeps may as well ask -/
theorem Vigilant.step_eq_retry (h : t.Vigilant) (op : Op) : t.step op = t.retry op := by
  cases op with
  | acquire | acquireBelow | release | wait => rfl
  | poll i =>
    simp only [Tenancy.step, retry]
    cases hi : t.waiters[i]? with
    | none => rfl
    | some w =>
      cases w with
      | served => rfl
      | pending limit woken =>
        cases woken with
        | true => rfl
        | false =>
          have hfull : min limit t.pool.maxVus ≤ t.pool.active := h _ (List.mem_of_getElem? hi)
          rcases t.attempt_eq i limit with ⟨id, heq⟩ | ⟨-, heq⟩
          · have hfree := (t.attempt_isSome i limit).1 (by rw [heq]; rfl)
            omega
          · obtain ⟨hlt, hself⟩ := List.getElem?_eq_some_iff.1 hi
            simp only
            rw [heq, ← hself, List.set_getElem_self]

theorem Vigilant.answers_eq (h : t.Vigilant) (ops : List Op) : answers Tenancy.step t ops = answers retry t ops := by
  induction ops generalizing t with
  | nil => rfl
  | cons op ops ih =>
    simp only [answers]
    rw [← h.step_eq_retry op, ih (h.step op)]

/-- **No wake-up is lost.** After any calls of any tenants, with waiters at any limits and polls in any order: a waiter
that starts, and one that is polled and was not served before, obtains a slot exactly while fewer are active than its
limit and the pool's bound allow. So marking the waiters when a slot is given back is as good as asking at every poll:
every call has the same effect and the same answer by either rule. -/
theorem run_wakes (preAllocated maxVus : Nat) (ops : List Op) :
    let t := (init preAllocated maxVus).run ops
    (∀ i limit woken, t.waiters[i]? = some (.pending limit woken) →
      ((t.step (.poll i)).2.isSome ↔ t.pool.active < min limit maxVus)) ∧
    (∀ limit, (t.step (.wait limit)).2.isSome ↔ t.pool.active < min limit maxVus) ∧
    (∀ op, t.step op = t.retry op) ∧
    answers step (init preAllocated maxVus) ops = answers retry (init preAllocated maxVus) ops := by
  intro t
  have hinit := vigilant_init preAllocated maxVus
  have ht : t.Vigilant := hinit.run ops
  have hmax : t.pool.maxVus = maxVus := run_maxVus _ ops
  refine ⟨fun i limit woken hi => ?_, fun limit => ?_, ht.step_eq_retry, hinit.answers_eq ops⟩
  · rw [ht.step_eq_retry, ← hmax]
    simp only [retry, hi]
    exact t.attempt_isSome i limit
  · rw [← hmax]
    exact attempt_isSome _ _ limit

/-- the general theorem at a waiter that is polled after the only slot was given back -/
theorem run_wakes_released :
    let t := (init 1 1).run [.acquire, .wait 1, .release 0]
    t.waiters[0]? = some (.pending 1 true) ∧ ((t.step (.poll 0)).2.isSome ↔ t.pool.active < min 1 1) ∧
      (t.step (.poll 0)).2 = some 0 := by
  intro t
  have hpending : t.waiters[0]? = some (.pending 1 true) := by decide
  obtain ⟨hpolled, -, -, -⟩ := run_wakes 1 1 [.acquire, .wait 1, .release 0]
  exact ⟨hpending, hpolled 0 1 true hpending, by decide⟩
end Tenancy

end LoadGen
