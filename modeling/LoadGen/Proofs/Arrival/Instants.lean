/-
The arrivals of an open loop by their numbers. The scheduler takes them one after another, so it gets to an arrival when
its own offset and those of all arrivals before it have passed. If the offsets are in order, that is when it is due.

- `nth`, `offset?`, `instant`: arrival `k`, when it is due, and when the scheduler gets to it.
- `Comes`: there is an arrival `k`, and the scheduler gets to it before the run is stopped. So do all before it.
- `exists_of_nth_succ`: the arrival before an arrival.
- `nth_due`: every arrival is due before the end.
- `inOrder_constant`: at a constant rate the offsets are in order.
-/
import LoadGen.Arrival.Offsets

namespace LoadGen.Arrivals

/-- arrival `k` with those after it; after the end nothing comes -/
def nth (a : Arrivals) : Nat → NextArrival Arrivals
  | 0 => a.pop
  | k + 1 => match a.nth k with
    | .due _ rest => rest.pop
    | last => last

/-- when arrival `k` is due, if there is one -/
def offset? (a : Arrivals) (k : Nat) : Option Duration :=
  match a.nth k with
  | .due offset _ => some offset
  | .finished _ | .unrepresentable => none

/-- when arrival `k` is due -/
def offset (a : Arrivals) (k : Nat) : Duration :=
  (a.offset? k).getD .zero

/-- when the scheduler gets to arrival `k` -/
def instant (a : Arrivals) : Nat → Duration
  | 0 => a.offset 0
  | k + 1 => (a.instant k).greatest (a.offset (k + 1))

/-- the scheduler gets to arrival `k` before the run is stopped -/
def Comes (a : Arrivals) (cancelAt : Option Duration) (k : Nat) : Prop :=
  (a.offset? k).isSome ∧ ∀ c ∈ cancelAt, a.instant k < c

/-- no arrival up to `k` is due before the one before it -/
def InOrder (a : Arrivals) (k : Nat) : Prop :=
  ∀ i < k, a.offset i ≤ a.offset (i + 1)

instance (a : Arrivals) (k : Nat) : Decidable (a.InOrder k) :=
  inferInstanceAs (Decidable (∀ i < k, a.offset i ≤ a.offset (i + 1)))

variable {a : Arrivals} {i j k : Nat} {d : Duration} {rest : Arrivals}

theorem nth_succ (h : a.nth k = .due d rest) : a.nth (k + 1) = rest.pop := by
  simp only [nth, h]

/-- before an arrival there is another one, and it is the next after that -/
theorem exists_of_nth_succ (h : a.nth (k + 1) = .due d rest) :
    ∃ before here, a.nth k = .due before here ∧ here.pop = .due d rest := by
  cases hk : a.nth k with
  | due before here =>
    rw [nth_succ hk] at h
    exact ⟨before, here, rfl, h⟩
  | finished here => simp only [nth, hk, reduceCtorEq] at h
  | unrepresentable => simp only [nth, hk, reduceCtorEq] at h

theorem offset?_eq_some : a.offset? k = some d ↔ ∃ rest, a.nth k = .due d rest := by
  unfold offset?
  cases a.nth k with
  | due offset rest => simp only [Option.some.injEq, NextArrival.due.injEq, exists_and_left, exists_eq', and_true]
  | finished rest => simp only [reduceCtorEq, exists_false]
  | unrepresentable => simp only [reduceCtorEq, exists_false]

theorem offset_eq (h : a.offset? k = some d) : a.offset k = d := by
  rw [offset, h]; rfl

/-- after the end nothing comes -/
theorem isSome_offset?_of_le (hjk : j ≤ k) (h : (a.offset? k).isSome) : (a.offset? j).isSome := by
  induction k with
  | zero => rwa [Nat.le_zero.1 hjk]
  | succ k ih =>
    rcases Nat.le_succ_iff.1 hjk with hjk | rfl
    · refine ih hjk ?_
      unfold offset? nth at h
      unfold offset?
      cases hk : a.nth k with
      | due offset rest => rfl
      | finished rest => rw [hk] at h; exact h
      | unrepresentable => rw [hk] at h; exact h
    · exact h

/-! ## Instants -/

theorem instant_le_succ (a : Arrivals) (k : Nat) : a.instant k ≤ a.instant (k + 1) := by
  simp only [instant, Duration.le_iff, Duration.nanos_greatest]; omega

theorem instant_mono (a : Arrivals) (hjk : j ≤ k) : a.instant j ≤ a.instant k := by
  induction k with
  | zero => rw [Nat.le_zero.1 hjk]; exact Nat.le_refl _
  | succ k ih =>
    rcases Nat.le_succ_iff.1 hjk with hjk | rfl
    · exact Nat.le_trans (ih hjk) (a.instant_le_succ k)
    · exact Nat.le_refl _

theorem offset_le_instant (a : Arrivals) (k : Nat) : a.offset k ≤ a.instant k := by
  cases k with
  | zero => exact Nat.le_refl _
  | succ k => simp only [instant, Duration.le_iff, Duration.nanos_greatest]; omega

theorem Comes.of_le {cancelAt : Option Duration} (h : a.Comes cancelAt k) (hjk : j ≤ k) : a.Comes cancelAt j :=
  ⟨isSome_offset?_of_le hjk h.1, fun c hc => Nat.lt_of_le_of_lt (a.instant_mono hjk) (h.2 c hc)⟩

/-! ## Offsets in order -/

theorem InOrder.of_le (h : a.InOrder k) (hjk : j ≤ k) : a.InOrder j :=
  fun i hi => h i (Nat.lt_of_lt_of_le hi hjk)

/-- an arrival in order is got to when it is due -/
theorem instant_eq_offset (h : a.InOrder k) : a.instant k = a.offset k := by
  induction k with
  | zero => rfl
  | succ k ih =>
    have hle := h k (Nat.lt_succ_self k)
    rw [instant, ih (h.of_le (Nat.le_succ k))]
    apply Duration.eq_of_nanos
    rw [Duration.le_iff] at hle
    rw [Duration.nanos_greatest]
    omega

/-- arrivals in order come if they are due before the run is stopped -/
theorem comes_iff {cancelAt : Option Duration} (h : a.InOrder k) :
    a.Comes cancelAt k ↔ (a.offset? k).isSome ∧ ∀ c ∈ cancelAt, a.offset k < c := by
  rw [Comes, instant_eq_offset h]

/-! ## The end of the arrivals -/

section

variable {R S : Type} [Add R] [Sub R] [Mul R] [Div R] [RateArithmetic R S]

/-- an arrival that is found is due before the end of the ramp, and the ramp stays -/
theorem seek_due (b : RampingArrivals R) {stages : List Stage} {rate start before : R} {offset : S}
    {next : RampingArrivals R} (h : b.seek stages rate start before = .due offset next) :
    next.total = b.total ∧ RateArithmetic.isOver R b.total offset = false := by
  induction stages generalizing rate start before with
  | nil => cases h
  | cons stage stages ih =>
    simp only [RampingArrivals.seek] at h
    split at h
    · exact ih h
    · split at h
      · cases h
      · split at h
        · cases h
        · rename_i hbefore
          cases h
          exact ⟨rfl, Bool.eq_false_iff.2 hbefore⟩

end

/-- an arrival at a constant rate is due before the end, also where no word holds its offset -/
theorem pop_constant {c : ConstantArrivals} (h : (constant c).pop = .due d rest) :
    c.offsetNanos c.next < c.duration.nanos ∧ d = .ofNanos (min (c.offsetNanos c.next) Decimal.wordMax) ∧
      rest = constant { c with next := c.next + 1 } := by
  simp only [pop, ConstantArrivals.pop?] at h
  split at h <;> cases h
  rename_i hpop
  split at hpop
  · cases hpop
  · split at hpop <;> cases hpop
    rename_i hbefore
    exact ⟨Nat.lt_of_not_le hbefore, rfl, rfl⟩

/-- when the arrivals end -/
def total : Arrivals → Duration
  | constant a => a.duration
  | ramping a => a.total

theorem total_ofModel? {m : ArrivalModel} (h : ofModel? m = some a) : a.total = m.totalDuration := by
  cases m with
  | constantArrivalRate | rampingArrivalRate =>
    cases h
    rfl
  | constantVus | rampingVus => cases h

theorem pop_due (h : a.pop = .due d rest) : rest.total = a.total ∧ d < a.total := by
  cases a with
  | constant c =>
    obtain ⟨hbefore, rfl, rfl⟩ := pop_constant h
    refine ⟨rfl, ?_⟩
    show min (min (c.offsetNanos c.next) Decimal.wordMax) maxNanos < c.duration.nanos
    omega
  | ramping b =>
    simp only [pop] at h
    split at h <;> cases h
    rename_i hpop
    unfold RampingArrivals.pop at hpop
    split at hpop
    · cases hpop
    · obtain ⟨htotal, hbefore⟩ := seek_due b hpop
      exact ⟨htotal, Nat.lt_of_not_le (of_decide_eq_false hbefore)⟩

/-- **Every arrival is due before the end.** -/
theorem nth_due (h : a.nth k = .due d rest) : rest.total = a.total ∧ d < a.total := by
  induction k generalizing d rest with
  | zero => exact pop_due h
  | succ k ih =>
    obtain ⟨before, here, hk, hpop⟩ := exists_of_nth_succ h
    obtain ⟨htotal, -⟩ := ih hk
    obtain ⟨hrest, hbefore⟩ := pop_due hpop
    exact ⟨hrest.trans htotal, htotal ▸ hbefore⟩

/-! ## Arrivals at a constant rate -/

theorem offsetNanos_mono (c : ConstantArrivals) (hij : i ≤ j) : c.offsetNanos i ≤ c.offsetNanos j := by
  have := Nat.mul_le_mul_right c.timeUnit.nanos hij
  exact Nat.div_le_div_right (by omega)

theorem nth_constant (c : ConstantArrivals) (h : (constant c).nth k = .due d rest) :
    d = .ofNanos (min (c.offsetNanos (c.next + k)) Decimal.wordMax) ∧
      rest = constant { c with next := c.next + k + 1 } := by
  induction k generalizing d rest with
  | zero => exact (pop_constant h).2
  | succ k ih =>
    obtain ⟨before, here, hk, hpop⟩ := exists_of_nth_succ h
    obtain ⟨-, rfl⟩ := ih hk
    exact (pop_constant hpop).2

/-- an arrival that comes is due before the end, also where no word holds its offset -/
theorem offsetNanos_lt (c : ConstantArrivals) (h : (constant c).nth k = .due d rest) :
    c.offsetNanos (c.next + k) < c.duration.nanos := by
  cases k with
  | zero => exact (pop_constant h).1
  | succ k =>
    obtain ⟨before, here, hk, hpop⟩ := exists_of_nth_succ h
    obtain ⟨-, rfl⟩ := nth_constant c hk
    exact (pop_constant hpop).1

theorem pop_ramping {b : RampingArrivals Float} (h : (ramping b).pop = .due d rest) :
    ∃ next, rest = ramping next ∧ b.pop = .due d next := by
  simp only [pop] at h
  split at h <;> cases h
  rename_i hpop
  exact ⟨_, rfl, hpop⟩

/-- the arrivals of a ramp stay those of a ramp -/
theorem nth_ramping {b : RampingArrivals Float} (h : (ramping b).nth k = .due d rest) :
    ∃ next, rest = ramping next := by
  induction k generalizing d rest with
  | zero =>
    obtain ⟨next, hrest, -⟩ := pop_ramping h
    exact ⟨next, hrest⟩
  | succ k ih =>
    obtain ⟨before, here, hk, hpop⟩ := exists_of_nth_succ h
    obtain ⟨next, rfl⟩ := ih hk
    obtain ⟨last, hrest, -⟩ := pop_ramping hpop
    exact ⟨last, hrest⟩

/-- **At a constant rate arrivals are in order.** -/
theorem inOrder_constant (c : ConstantArrivals) (hk : ((constant c).offset? k).isSome) : (constant c).InOrder k := by
  intro i hi
  have hoffset (j : Nat) (hj : j ≤ k) :
      (constant c).offset j = .ofNanos (min (c.offsetNanos (c.next + j)) Decimal.wordMax) := by
    obtain ⟨d, hd⟩ := Option.isSome_iff_exists.1 (isSome_offset?_of_le hj hk)
    obtain ⟨rest, hrest⟩ := offset?_eq_some.1 hd
    rw [offset_eq hd]
    exact (nth_constant c hrest).1
  have hmono := offsetNanos_mono c (i := c.next + i) (j := c.next + (i + 1)) (by omega)
  rw [hoffset i (by omega), hoffset (i + 1) hi]
  simp only [Duration.le_iff, Duration.ofNanos]
  omega

end LoadGen.Arrivals
