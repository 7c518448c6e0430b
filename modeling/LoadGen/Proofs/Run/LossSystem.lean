/-
Loss systems: arrivals that find all slots taken are lost, and nobody waits. An arrival that gets a slot keeps it until
its departure, so whether one is lost depends on who was served before it and on nothing else.

- `LossSystem`: the number of slots, and when each arrival comes and would depart.
- `served`: who gets a slot, decided one arrival after another; `mem_served` is the rule for each of them.
- `Arrivals.lossSystem`: the arrivals of an open loop with their holding times; if their offsets are in order, they come
  when they are due and depart a holding time later.
-/
import LoadGen.Proofs.Arrival.Instants

namespace LoadGen

/-- slots, and arrivals that take one for some time or are lost -/
structure LossSystem where
  slots : Nat
  /-- when arrival `k` comes -/
  arrival : Nat → Duration
  /-- when arrival `k` gives its slot back, if it got one -/
  departure : Nat → Duration

namespace LossSystem

variable {L : LossSystem} {k n : Nat}

/-- how many of `served` still have their slots when arrival `k` comes -/
def busy (L : LossSystem) (served : List Nat) (k : Nat) : Nat :=
  served.countP fun j => L.arrival k < L.departure j

/-- the arrivals among the first `n` that get a slot -/
def served (L : LossSystem) : Nat → List Nat
  | 0 => []
  | n + 1 => if L.busy (L.served n) n < L.slots then L.served n ++ [n] else L.served n

theorem served_succ_of_lt (h : L.busy (L.served n) n < L.slots) : L.served (n + 1) = L.served n ++ [n] :=
  if_pos h

theorem served_succ_of_le (h : L.slots ≤ L.busy (L.served n) n) : L.served (n + 1) = L.served n :=
  if_neg (Nat.not_lt.2 h)

theorem lt_of_mem_served (h : k ∈ L.served n) : k < n := by
  induction n with
  | zero => cases h
  | succ n ih =>
    rw [served] at h
    split at h
    · rcases List.mem_append.1 h with h | h
      · have := ih h; omega
      · have := List.mem_singleton.1 h; omega
    · have := ih h; omega

/-- the arrivals that get a slot are in their order -/
theorem pairwise_served (L : LossSystem) (n : Nat) : (L.served n).Pairwise (· < ·) := by
  induction n with
  | zero => exact .nil
  | succ n ih =>
    rw [served]
    split
    · refine List.pairwise_append.2 ⟨ih, List.pairwise_singleton _ _, fun j hj k hk => ?_⟩
      rw [List.mem_singleton.1 hk]
      exact lt_of_mem_served hj
    · exact ih

/-- later arrivals take nothing from those before them -/
theorem filter_served (hkn : k ≤ n) : (L.served n).filter (· < k) = L.served k := by
  induction n with
  | zero => rw [Nat.le_zero.1 hkn]; rfl
  | succ n ih =>
    rcases Nat.le_succ_iff.1 hkn with hkn | rfl
    · have hlast : [n].filter (· < k) = [] := by
        simp only [List.filter_eq_nil_iff, List.mem_singleton, decide_eq_true_eq]
        omega
      rw [served]
      split
      · rw [List.filter_append, ih hkn, hlast, List.append_nil]
      · exact ih hkn
    · exact List.filter_eq_self.2 fun j hj => by simpa using lt_of_mem_served hj

/-- **The rule of a loss system.** An arrival gets a slot if fewer than `slots` of those before it have theirs. -/
theorem mem_served : k ∈ L.served n ↔ k < n ∧ L.busy (L.served k) k < L.slots := by
  induction n with
  | zero => simp only [served, List.not_mem_nil, Nat.not_lt_zero, false_and]
  | succ n ih =>
    rcases Nat.lt_or_ge (L.busy (L.served n) n) L.slots with hlt | hge
    · rw [served_succ_of_lt hlt, List.mem_append, List.mem_singleton, ih]
      constructor
      · rintro (⟨hk, hb⟩ | rfl)
        · exact ⟨by omega, hb⟩
        · exact ⟨by omega, hlt⟩
      · rintro ⟨hk, hb⟩
        rcases Nat.lt_succ_iff_lt_or_eq.1 hk with hk | rfl
        · exact .inl ⟨hk, hb⟩
        · exact .inr rfl
    · rw [served_succ_of_le hge, ih]
      constructor
      · rintro ⟨hk, hb⟩
        exact ⟨by omega, hb⟩
      · rintro ⟨hk, hb⟩
        rcases Nat.lt_succ_iff_lt_or_eq.1 hk with hk | rfl
        · exact ⟨hk, hb⟩
        · omega

end LossSystem

namespace Arrivals

/-- arrivals that hold a slot each, from when the scheduler gets to it until a holding time from its due time is over -/
def lossSystem (a : Arrivals) (slots : Nat) (holdOf : Nat → Duration) : LossSystem where
  slots
  arrival := a.instant
  departure k := (a.instant k).greatest (a.offset k + holdOf k)

/-- in order, a slot is held from the due time on -/
theorem departure_eq {a : Arrivals} {slots k : Nat} {holdOf : Nat → Duration} (h : a.InOrder k) :
    (a.lossSystem slots holdOf).departure k = a.offset k + holdOf k := by
  have hle := (a.offset k).le_max
  simp only [lossSystem, instant_eq_offset h]
  apply Duration.eq_of_nanos
  rw [Duration.nanos_greatest, Duration.nanos_add]
  omega

end Arrivals

end LoadGen
