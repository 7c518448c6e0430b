/-
Arrivals at a constant rate, from the first to the last. Arrival `k` is due after `k` time units over the rate, rounded
down, so it is due before an instant exactly if `k` is below what that instant has room for, rounded up. Everything else
follows from the two: how many there are, how they are spaced, and that a shorter run has the first of them. Products
stop at the longest double word, but only where the run is over.

- `due`, `countBefore`: when arrival `k` is due, and how many are due before an instant.
- `pop?_eq`: the next arrival, without the bounds of words.
- `yields`: a run from its beginning to its end.
- `yields_evenly`: how many arrivals there are, when they are due, and how far apart.
-/
import Mathlib.Algebra.Order.Floor.Div
import LoadGen.Arrival.Offsets

namespace LoadGen.ConstantArrivals

open Decimal

/-- nanoseconds until arrival `k`: as many time units over the rate, rounded down -/
def due (rate : Nat) (timeUnit : Duration) (k : Nat) : Nat :=
  k * timeUnit.nanos / rate

/-- arrivals due before an instant, each of them by its share of a time unit -/
def countBefore (rate : Nat) (timeUnit instant : Duration) : Nat :=
  (instant.nanos * rate) ⌈/⌉ timeUnit.nanos

/-- a run for as long as a word of nanoseconds, at a rate that a word holds -/
structure InWords (rate : Nat) (timeUnit duration : Duration) : Prop where
  rate_pos : 1 ≤ rate
  rate_le : rate ≤ wordMax
  unit_pos : 0 < timeUnit.nanos
  duration_le : duration.nanos ≤ wordMax

variable {rate : Nat} {timeUnit duration t : Duration} {k n : Nat}

/-! ## When arrivals are due -/

theorem due_lt_iff (hrate : 1 ≤ rate) (hunit : 0 < timeUnit.nanos) (t : Duration) :
    due rate timeUnit k < t.nanos ↔ k < countBefore rate timeUnit t := by
  rw [due, countBefore, Nat.div_lt_iff_lt_mul hrate, ← not_le, ← not_le, ceilDiv_le_iff_le_mul hunit,
    Nat.mul_comm timeUnit.nanos]

theorem countBefore_mono (hrate : 1 ≤ rate) (hunit : 0 < timeUnit.nanos) {s : Duration} (h : s ≤ t) :
    countBefore rate timeUnit s ≤ countBefore rate timeUnit t := by
  refine Nat.le_of_not_lt fun hlt => ?_
  have hlate := (due_lt_iff hrate hunit s).2 hlt
  exact Nat.lt_irrefl _ ((due_lt_iff hrate hunit t).1 (Nat.lt_of_lt_of_le hlate h))

/-- from one arrival to the next it takes a time unit over the rate, less than a nanosecond more or less -/
theorem gap_bounds (hrate : 1 ≤ rate) (timeUnit : Duration) (k : Nat) :
    due rate timeUnit k + timeUnit.nanos / rate ≤ due rate timeUnit (k + 1) ∧
      due rate timeUnit (k + 1) ≤ due rate timeUnit k + timeUnit.nanos / rate + 1 := by
  rw [due, due, Nat.add_mul, Nat.one_mul, Nat.add_div hrate]
  split <;> omega

/-- an arrival due before the end is computed without a product that stops -/
theorem product_lt (h : InWords rate timeUnit duration) (hk : due rate timeUnit k < duration.nanos) :
    k * timeUnit.nanos < doubleWordMax :=
  calc k * timeUnit.nanos < duration.nanos * rate := (Nat.div_lt_iff_lt_mul h.rate_pos).1 hk
    _ ≤ wordMax * wordMax := Nat.mul_le_mul h.duration_le h.rate_le
    _ < doubleWordMax := by decide

/-- a product that stops is after the end as well -/
theorem offsetNanos_lt_iff (h : InWords rate timeUnit duration) (k : Nat) :
    offsetNanos ⟨rate, timeUnit, duration, n⟩ k < duration.nanos ↔ due rate timeUnit k < duration.nanos := by
  refine ⟨fun hlt => ?_, fun hlt => ?_⟩
  · rw [offsetNanos, Nat.div_lt_iff_lt_mul h.rate_pos] at hlt
    rw [due, Nat.div_lt_iff_lt_mul h.rate_pos]
    have hwords : duration.nanos * rate ≤ wordMax * wordMax := Nat.mul_le_mul h.duration_le h.rate_le
    have hdouble : wordMax * wordMax ≤ doubleWordMax := by decide
    simp only at hlt
    omega
  · rw [offsetNanos, Nat.min_eq_left (Nat.le_of_lt (product_lt h hlt))]
    exact hlt

/-! ## All arrivals -/

/-- **The next arrival**, as if there were no bounds on words -/
theorem pop?_eq (h : InWords rate timeUnit duration) (k : Nat) :
    pop? ⟨rate, timeUnit, duration, k⟩ =
      if k < countBefore rate timeUnit duration then
        some (.ofNanos (due rate timeUnit k), ⟨rate, timeUnit, duration, k + 1⟩)
      else none := by
  have hrate : ¬rate = 0 := Nat.ne_of_gt h.rate_pos
  have hlt := (offsetNanos_lt_iff (n := k) h k).trans (due_lt_iff h.rate_pos h.unit_pos duration)
  simp only [pop?, hrate, if_false]
  by_cases hk : k < countBefore rate timeUnit duration
  · have hbefore := hlt.2 hk
    have hdue := (due_lt_iff h.rate_pos h.unit_pos duration).2 hk
    have hexact : offsetNanos ⟨rate, timeUnit, duration, k⟩ k = due rate timeUnit k := by
      rw [offsetNanos, Nat.min_eq_left (Nat.le_of_lt (product_lt h hdue)), due]
    have hword : due rate timeUnit k ≤ wordMax := Nat.le_trans (Nat.le_of_lt hdue) h.duration_le
    rw [if_pos hk, if_neg (Nat.not_le.2 hbefore), hexact, Nat.min_eq_left hword]
  · rw [if_neg hk, if_pos (Nat.le_of_not_lt fun hbefore => hk (hlt.1 hbefore))]

/-- the offsets of the first `n` arrivals -/
def offsets (rate : Nat) (timeUnit : Duration) (n : Nat) : List Duration :=
  (List.range n).map fun k => .ofNanos (due rate timeUnit k)

/-- **A run from its beginning to its end**: by induction on the arrivals that are left -/
theorem yields (h : InWords rate timeUnit duration) :
    Yields Arrivals.pop (.constant ⟨rate, timeUnit, duration, 0⟩)
      (offsets rate timeUnit (countBefore rate timeUnit duration)) := by
  suffices hfrom : ∀ left k, k + left = countBefore rate timeUnit duration →
      Yields Arrivals.pop (.constant ⟨rate, timeUnit, duration, k⟩)
        ((List.range' k left).map fun k => Duration.ofNanos (due rate timeUnit k)) by
    rw [offsets, List.range_eq_range']
    exact hfrom _ 0 (Nat.zero_add _)
  intro left
  induction left with
  | zero =>
    intro k hk
    have hend : ¬k < countBefore rate timeUnit duration := by omega
    have hpop : (Arrivals.constant ⟨rate, timeUnit, duration, k⟩).pop =
        .finished (.constant ⟨rate, timeUnit, duration, k⟩) := by
      rw [Arrivals.pop, pop?_eq h, if_neg hend]
    exact .finished hpop
  | succ left ih =>
    intro k hk
    have hlive : k < countBefore rate timeUnit duration := by omega
    rw [List.range'_succ, List.map_cons]
    refine .due ?_ (ih (k + 1) (by omega))
    rw [Arrivals.pop, pop?_eq h, if_pos hlive]

theorem length_offsets (rate : Nat) (timeUnit : Duration) (n : Nat) : (offsets rate timeUnit n).length = n := by
  simp [offsets]

/-- while a run lasts, a span holds the offset as it is -/
theorem nanos_ofNanos_due (h : InWords rate timeUnit duration) (hk : k < countBefore rate timeUnit duration) :
    (Duration.ofNanos (due rate timeUnit k)).nanos = due rate timeUnit k := by
  have hdue := (due_lt_iff h.rate_pos h.unit_pos duration).2 hk
  exact Nat.min_eq_left (Nat.le_trans (Nat.le_of_lt hdue) duration.le_max)

theorem offsets_prefix (rate : Nat) (timeUnit : Duration) {m n : Nat} (h : m ≤ n) :
    offsets rate timeUnit m <+: offsets rate timeUnit n := by
  have htake : (List.range n).take m = List.range m := by rw [List.take_range, Nat.min_eq_left h]
  rw [offsets, offsets, ← htake, List.map_take]
  exact List.take_prefix _ _

/-- of the numbers below `n`, the first `m` are below `m` -/
theorem countP_lt_range {m n : Nat} (h : m ≤ n) : (List.range n).countP (fun k => decide (k < m)) = m := by
  obtain ⟨more, rfl⟩ := Nat.exists_eq_add_of_le h
  have hfirst : (List.range m).countP (fun k => decide (k < m)) = (List.range m).length := by
    refine List.countP_eq_length.2 fun k hk => ?_
    exact decide_eq_true (List.mem_range.1 hk)
  have hmore : ((List.range more).map (m + ·)).countP (fun k => decide (k < m)) = 0 := by
    refine List.countP_eq_zero.2 fun k hk => ?_
    obtain ⟨j, -, rfl⟩ := List.mem_map.1 hk
    simp
  rw [List.range_add, List.countP_append, hfirst, hmore, List.length_range, Nat.add_zero]

theorem countP_offsets (h : InWords rate timeUnit duration) (ht : t ≤ duration) :
    (offsets rate timeUnit (countBefore rate timeUnit duration)).countP (· < t) = countBefore rate timeUnit t := by
  rw [offsets, List.countP_map, ← countP_lt_range (countBefore_mono h.rate_pos h.unit_pos ht)]
  refine List.countP_congr fun k hk => ?_
  rw [Function.comp_apply, decide_eq_true_iff, decide_eq_true_iff, Duration.lt_iff,
    nanos_ofNanos_due h (List.mem_range.1 hk)]
  exact due_lt_iff h.rate_pos h.unit_pos t

/-- the offsets of a whole run, none left out and none shifted by what came before it -/
structure Evenly (rate : Nat) (timeUnit duration : Duration) (offsets : List Duration) : Prop where
  length : offsets.length = (duration.nanos * rate) ⌈/⌉ timeUnit.nanos
  due : ∀ k (hk : k < offsets.length), offsets[k].nanos = k * timeUnit.nanos / rate
  before : ∀ t ≤ duration, offsets.countP (· < t) = (t.nanos * rate) ⌈/⌉ timeUnit.nanos
  /-- no gap is longer than another by more than a nanosecond -/
  gaps : ∀ i j (hi : i + 1 < offsets.length) (hj : j + 1 < offsets.length),
    (offsets[i + 1].nanos - offsets[i].nanos : Int) ≤ offsets[j + 1].nanos - offsets[j].nanos + 1
  /-- neither the number of an arrival nor the product for its offset is more than a double word holds, and its offset
  is a word -/
  words : ∀ k < offsets.length,
    k + 1 ≤ doubleWordMax ∧ k * timeUnit.nanos ≤ doubleWordMax ∧ k * timeUnit.nanos / rate ≤ wordMax

theorem evenly_offsets (h : InWords rate timeUnit duration) :
    Evenly rate timeUnit duration (offsets rate timeUnit (countBefore rate timeUnit duration)) := by
  have hnanos (k : Nat) (hk : k < (offsets rate timeUnit (countBefore rate timeUnit duration)).length) :
      (offsets rate timeUnit (countBefore rate timeUnit duration))[k].nanos = due rate timeUnit k := by
    have hlive : k < countBefore rate timeUnit duration := by rwa [length_offsets] at hk
    simp only [offsets, List.getElem_map, List.getElem_range]
    exact nanos_ofNanos_due h hlive
  constructor
  case length => exact length_offsets _ _ _
  case due => exact hnanos
  case before => exact fun t ht => countP_offsets h ht
  case gaps =>
    intro i j hi hj
    obtain ⟨-, hlonger⟩ := gap_bounds h.rate_pos timeUnit i
    obtain ⟨hshorter, -⟩ := gap_bounds h.rate_pos timeUnit j
    rw [hnanos (i + 1) hi, hnanos (j + 1) hj, hnanos i (Nat.lt_of_succ_lt hi), hnanos j (Nat.lt_of_succ_lt hj)]
    omega
  case words =>
    intro k hk
    rw [length_offsets] at hk
    have hdue := (due_lt_iff h.rate_pos h.unit_pos duration).2 hk
    have hproduct := product_lt h hdue
    have hfactor : k ≤ k * timeUnit.nanos := Nat.le_mul_of_pos_right k h.unit_pos
    exact ⟨Nat.lt_of_le_of_lt hfactor hproduct, Nat.le_of_lt hproduct, Nat.le_trans (Nat.le_of_lt hdue) h.duration_le⟩

/-- **Constant arrivals are exact.** A run ends after as many arrivals as its duration has room for, rounded up. Arrival
`k` is due after `k` time units over the rate, rounded down, so the arrivals before any instant are what that instant
has room for, gaps differ by a nanosecond at most, and nothing of it comes near the bounds of words. A shorter run has
the first of the same offsets. -/
theorem yields_evenly (h : InWords rate timeUnit duration) :
    ∃ offsets, Yields Arrivals.pop (.constant ⟨rate, timeUnit, duration, 0⟩) offsets ∧
      Evenly rate timeUnit duration offsets ∧
      ∀ shorter ≤ duration, ∃ first, Yields Arrivals.pop (.constant ⟨rate, timeUnit, shorter, 0⟩) first ∧
        first <+: offsets := by
  refine ⟨_, yields h, evenly_offsets h, fun shorter hle => ?_⟩
  have hshorter : InWords rate timeUnit shorter := { h with duration_le := Nat.le_trans hle h.duration_le }
  exact ⟨_, yields hshorter, offsets_prefix _ _ (countBefore_mono h.rate_pos h.unit_pos hle)⟩

/-- the largest rate in the longest time unit, for as long as a word of nanoseconds: the product for the next arrival
after the last is the first that a double word does not hold -/
theorem yields_evenly_largest :
    InWords wordMax ⟨maxNanos, Nat.le_refl _⟩ ⟨wordMax, by decide⟩ ∧
      ∃ offsets, Yields Arrivals.pop (.constant ⟨wordMax, ⟨maxNanos, Nat.le_refl _⟩, ⟨wordMax, by decide⟩, 0⟩) offsets ∧
        offsets.length = 18446744074 := by
  have hwords : InWords wordMax ⟨maxNanos, Nat.le_refl _⟩ ⟨wordMax, by decide⟩ := by
    constructor <;> decide
  obtain ⟨offsets, hyields, heven, -⟩ := yields_evenly hwords
  refine ⟨hwords, offsets, hyields, heven.length.trans ?_⟩
  rw [Nat.ceilDiv_eq_add_pred_div]
  decide

end LoadGen.ConstantArrivals
