/-
Worker slots. A pool starts with some warm slots and grows by one whenever every slot it has is busy, up to its bound; a
slot given back is the first to be handed out again.
-/
namespace LoadGen

/-- the slots of a run -/
structure Pool where
  maxVus : Nat
  /-- slots handed out -/
  active : Nat
  /-- slots there are; they are numbered from zero -/
  allocated : Nat
  /-- the most slots ever handed out at once -/
  peak : Nat
  /-- slots to hand out, the next one first -/
  idle : List Nat
  deriving DecidableEq, Repr

namespace Pool

/-- how full a pool is -/
structure Occupancy where
  active : Nat
  allocated : Nat
  peak : Nat
  maxVus : Nat
  deriving DecidableEq, Repr

def occupancy (p : Pool) : Occupancy :=
  ⟨p.active, p.allocated, p.peak, p.maxVus⟩

/-- a pool with warm slots, no more than its bound -/
def init (preAllocated maxVus : Nat) : Pool :=
  let warm := min preAllocated maxVus
  ⟨maxVus, 0, warm, 0, List.range warm⟩

/-- a slot, if fewer than `limit` are active -/
def acquireBelow? (p : Pool) (limit : Nat) : Option (Nat × Pool) :=
  if min limit p.maxVus ≤ p.active then none
  else
    let active := p.active + 1
    let peak := max p.peak active
    match p.idle with
    | id :: idle => some (id, { p with active, peak, idle })
    | [] => some (p.allocated, { p with active, peak, allocated := p.allocated + 1 })

/-- a slot, if one is free -/
def acquire? (p : Pool) : Option (Nat × Pool) :=
  p.acquireBelow? p.maxVus

/-- a slot is given back -/
def release (p : Pool) (id : Nat) : Pool :=
  { p with active := p.active - 1, idle := id :: p.idle }

/-! ## What an attempt comes to -/

theorem acquireBelow?_isSome (p : Pool) (limit : Nat) :
    (p.acquireBelow? limit).isSome ↔ p.active < min limit p.maxVus := by
  unfold acquireBelow?
  split
  · rename_i h; simp only [Option.isSome_none, Bool.false_eq_true, false_iff]; omega
  · rename_i h; cases p.idle <;> simp only [Option.isSome_some, true_iff] <;> omega

/-- a slot that is handed out was idle, or is new because none was -/
theorem acquireBelow?_cases {p q : Pool} {limit id : Nat} (h : p.acquireBelow? limit = some (id, q)) :
    p.active < min limit p.maxVus ∧ q.maxVus = p.maxVus ∧ q.active = p.active + 1 ∧
      q.peak = max p.peak (p.active + 1) ∧
      (p.idle = id :: q.idle ∧ q.allocated = p.allocated ∨
        p.idle = [] ∧ q.idle = [] ∧ id = p.allocated ∧ q.allocated = p.allocated + 1) := by
  have hroom : p.active < min limit p.maxVus := (p.acquireBelow?_isSome limit).1 (by rw [h]; rfl)
  simp only [acquireBelow?, if_neg (Nat.not_le.2 hroom)] at h
  cases hi : p.idle with
  | nil =>
    rw [hi] at h; cases h
    exact ⟨hroom, rfl, rfl, rfl, .inr ⟨rfl, rfl, rfl, rfl⟩⟩
  | cons i rest =>
    rw [hi] at h; cases h
    exact ⟨hroom, rfl, rfl, rfl, .inl ⟨rfl, rfl⟩⟩

end Pool

end LoadGen
