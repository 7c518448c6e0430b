/-
Ramping arrivals invert the integrated rate, in exact arithmetic: arrival `k` is due when the integral is `k + 1`. At
the end of a stage it may be due although a billionth of an arrival is missing; otherwise it is neither early nor late,
and no arrival is left out.

- `Inverts`: what is asked of the offsets, for any integral.
- `arrivalsBy_le_of_isLeast`: no arrival is late, as the integral does not jump.
- `yields_inverse`: the offsets of all arrivals.
-/
import Mathlib.Topology.Order.IntermediateValue
import LoadGen.Proofs.Arrival.Search

namespace LoadGen.RampingArrivals

open RateArithmetic Set

/-- the ends of stages that miss `m` arrivals, but by no more than the slack, a billionth of one -/
def nearMisses (arrivals : ℝ → ℝ) (ends : List ℝ) (m : ℝ) : Set ℝ :=
  {e | e ∈ ends ∧ arrivals e < m ∧ m ≤ arrivals e + slack}

/-- the offsets of all arrivals before `total`, if there are `arrivals t` in the first `t` seconds and stages end at
`ends` -/
structure Inverts (arrivals : ℝ → ℝ) (ends : List ℝ) (total : ℝ) (offsets : List ℝ) : Prop where
  ordered : offsets.Pairwise (· ≤ ·)
  before : ∀ t ∈ offsets, 0 ≤ t ∧ t < total
  close : ∀ k (hk : k < offsets.length), |arrivals offsets[k] - (k + 1)| ≤ 1 / 10 ^ 9
  /-- the first instant that the integral says, unless it is just missed at the end of a stage -/
  earliest : ∀ k (hk : k < offsets.length), nearMisses arrivals ends (k + 1) = ∅ →
    IsLeast {t | 0 ≤ t ∧ arrivals t = k + 1} offsets[k]
  atEnd : ∀ k (hk : k < offsets.length), (nearMisses arrivals ends (k + 1)).Nonempty →
    IsLeast (nearMisses arrivals ends (k + 1)) offsets[k]
  complete : ∀ (k : Nat) (t : ℝ), 0 ≤ t → t < total → k + 1 ≤ arrivals t → k < offsets.length

variable {u r₀ m t : ℝ} {stages : List Stage} {total timeUnit : Duration} {k : Nat}

/-! ## One arrival -/

section

variable (hu : 0 < u) (hr : 0 ≤ r₀) (hstages : ∀ s ∈ stages, 0 < s.duration.nanos)

theorem counting_antitone {m' : ℝ} (hm : m ≤ m') : Counting u r₀ stages m' ⊆ Counting u r₀ stages m := by
  rintro t ⟨hfrom, hto, hmany | ⟨hend, hslack⟩⟩
  · exact ⟨hfrom, hto, .inl (hm.trans hmany)⟩
  · exact ⟨hfrom, hto, .inr ⟨hend, hm.trans hslack⟩⟩

include hstages

/-- at the first instant that counts there are no more arrivals than asked for: the integral does not jump -/
theorem arrivalsBy_le_of_isLeast (hm : 0 ≤ m) (h : IsLeast (Counting u r₀ stages m) t) :
    arrivalsBy u r₀ stages t ≤ m := by
  obtain ⟨hfrom, hto, -⟩ := h.1
  by_contra hlt
  have hbetween : m ∈ Icc (arrivalsBy u r₀ stages 0) (arrivalsBy u r₀ stages t) := by
    rw [arrivalsBy_zero]
    exact ⟨hm, (not_le.1 hlt).le⟩
  obtain ⟨x, ⟨hx, hxt⟩, rfl⟩ := intermediate_value_Icc hfrom (continuous_arrivalsBy hstages).continuousOn hbetween
  have hle := h.2 ⟨hx, hxt.trans hto, .inl le_rfl⟩
  rw [hle.antisymm hxt] at hlt
  exact hlt le_rfl

theorem isLeast_of_nearMisses_empty (hm : 0 ≤ m) (h : IsLeast (Counting u r₀ stages m) t)
    (hnone : nearMisses (arrivalsBy u r₀ stages) (ends stages) m = ∅) :
    IsLeast {t | 0 ≤ t ∧ arrivalsBy u r₀ stages t = m} t := by
  obtain ⟨hfrom, hto, hcount⟩ := h.1
  have hle := arrivalsBy_le_of_isLeast hstages hm h
  constructor
  · refine ⟨hfrom, hle.antisymm ?_⟩
    rcases hcount with hmany | ⟨hend, hslack⟩
    · exact hmany
    · by_contra hfew
      have hmissing : t ∈ nearMisses (arrivalsBy u r₀ stages) (ends stages) m := ⟨hend, not_le.1 hfew, hslack⟩
      rw [hnone] at hmissing
      exact hmissing
  · rintro t' ⟨hfrom', heq⟩
    rcases le_or_gt t' (span stages) with hto' | hlate
    · exact h.2 ⟨hfrom', hto', .inl heq.ge⟩
    · exact hto.trans hlate.le

include hu hr

theorem isLeast_nearMisses (h : IsLeast (Counting u r₀ stages m) t)
    (hsome : (nearMisses (arrivalsBy u r₀ stages) (ends stages) m).Nonempty) :
    IsLeast (nearMisses (arrivalsBy u r₀ stages) (ends stages) m) t := by
  have hfirst : t ∈ lowerBounds (nearMisses (arrivalsBy u r₀ stages) (ends stages) m) := by
    rintro e ⟨hend, -, hslack⟩
    obtain ⟨hfrom, hto⟩ := ends_bounds hend
    exact h.2 ⟨hfrom, hto, .inr ⟨hend, hslack⟩⟩
  obtain ⟨e, he⟩ := hsome
  obtain ⟨hfrom, -, hcount⟩ := h.1
  have hfew := (arrivalsBy_mono hu hr hstages hfrom (hfirst he)).trans_lt he.2.1
  rcases hcount with hmany | ⟨hend, hslack⟩
  · exact absurd hmany hfew.not_ge
  · exact ⟨⟨hend, hfew, hslack⟩, hfirst⟩

/-! ## All arrivals -/

/-- the first instants that count are those that invert the integral -/
theorem Firsts.inverts {offsets : List ℝ} (h : Firsts u r₀ stages total 0 offsets)
    (htotal : total.seconds ≤ span stages) :
    Inverts (arrivalsBy u r₀ stages) (ends stages) total.seconds offsets := by
  have hfirst (k : Nat) (hk : k < offsets.length) : IsLeast (Counting u r₀ stages (k + 1)) offsets[k] := by
    have hleast := h.first k hk
    rwa [Nat.zero_add, Nat.cast_add_one] at hleast
  constructor
  case ordered =>
    refine List.pairwise_iff_getElem.2 fun i j hi hj hij => (hfirst i hi).2 ?_
    have hle : (i : ℝ) ≤ j := Nat.cast_le.2 hij.le
    exact counting_antitone (by linarith) (hfirst j hj).1
  case before =>
    intro t ht
    obtain ⟨k, hk, rfl⟩ := List.mem_iff_getElem.1 ht
    exact ⟨(hfirst k hk).1.1, h.before _ ht⟩
  case close =>
    intro k hk
    have hmost := arrivalsBy_le_of_isLeast hstages (by positivity) (hfirst k hk)
    have hleast : (k + 1 : ℝ) ≤ arrivalsBy u r₀ stages offsets[k] + 1 / 10 ^ 9 := by
      rw [← slack_real]
      exact le_of_mem_counting hu hr hstages (hfirst k hk).1 le_rfl
    rw [abs_le]
    constructor <;> linarith
  case earliest => exact fun k hk hnone => isLeast_of_nearMisses_empty hstages (by positivity) (hfirst k hk) hnone
  case atEnd => exact fun k hk hsome => isLeast_nearMisses hu hr hstages (hfirst k hk) hsome
  case complete =>
    intro k t ht hbefore hmany
    by_contra hmore
    have hle : ((0 + offsets.length + 1 : ℕ) : ℝ) ≤ k + 1 := by
      rw [Nat.zero_add, Nat.cast_add_one]
      have hlength : (offsets.length : ℝ) ≤ k := Nat.cast_le.2 (Nat.le_of_not_lt hmore)
      linarith
    have hcounts : t ∈ Counting u r₀ stages (k + 1) := ⟨ht, hbefore.le.trans htotal, .inl hmany⟩
    exact (h.after t (counting_antitone hle hcounts)).not_gt hbefore

end

/-- the duration of all stages, which stops at the longest span, is not longer than the stages are -/
theorem seconds_stagesDuration_le (stages : List Stage) : (stagesDuration stages).seconds ≤ span stages := by
  suffices hfrom : ∀ start : Duration,
      ((stages.map Stage.duration).foldl (· + ·) start).seconds ≤ start.seconds + span stages by
    have hzero : Duration.zero.seconds = 0 := by simp [Duration.seconds, Duration.zero]
    have hle := hfrom .zero
    rwa [hzero, zero_add] at hle
  induction stages with
  | nil => exact fun start => by rw [span, add_zero]; exact le_rfl
  | cons s rest ih =>
    intro start
    have hsum : (start + s.duration).seconds ≤ start.seconds + s.duration.seconds := by
      have hnanos : (start + s.duration).nanos ≤ start.nanos + s.duration.nanos := Nat.min_le_left _ _
      rw [Duration.seconds, Duration.seconds, Duration.seconds, ← add_div, ← Nat.cast_add]
      exact div_le_div_of_nonneg_right (Nat.cast_le.2 hnanos) (Nat.cast_nonneg _)
    have hlater := ih (start + s.duration)
    rw [List.map_cons, List.foldl_cons, span]
    linarith

theorem ready_init (startRate : Nat) (timeUnit : Duration) (hstages : ∀ s ∈ stages, 0 < s.duration.nanos) :
    Ready timeUnit.seconds startRate stages (stagesDuration stages) 0 (init startRate timeUnit stages) := by
  constructor
  case timeUnit => rfl
  case total => rfl
  case taken => rfl
  case remains =>
    simp only [init, ofNat_real, Nat.cast_zero]
    exact .all (Nat.cast_nonneg _) hstages
  case missing =>
    simp only [init, ofNat_real, Nat.cast_zero, slack_real]
    norm_num

/-- **Ramping arrivals invert the integrated rate.** Read in exact arithmetic they end, for every ramp of stages that
last, and their offsets are the instants by which the integral of the rate reaches one number after the other. -/
theorem yields_inverse (startRate : Nat) (hunit : 0 < timeUnit.nanos) (hstages : ∀ s ∈ stages, 0 < s.duration.nanos) :
    ∃ offsets : List ℝ, Yields pop (init startRate timeUnit stages : RampingArrivals ℝ) offsets ∧
      Inverts (arrivalsBy timeUnit.seconds startRate stages) (ends stages) (stagesDuration stages).seconds offsets := by
  have hu := Duration.seconds_pos hunit
  have hr : (0 : ℝ) ≤ startRate := Nat.cast_nonneg _
  obtain ⟨n, hn⟩ := exists_nat_gt (arrivalsBy timeUnit.seconds startRate stages (span stages) + slack)
  have hroom : arrivalsBy timeUnit.seconds startRate stages (span stages) + slack < ↑(0 + n + 1) := by
    rw [Nat.zero_add, Nat.cast_add_one]
    linarith
  obtain ⟨offsets, hyields, hfirsts⟩ := yields_firsts hu hr hstages (ready_init startRate timeUnit hstages) hroom
  exact ⟨offsets, hyields, hfirsts.inverts hu hr hstages (seconds_stagesDuration_le stages)⟩

/-- a rate that rises from zero to ten a second in ten seconds: the last arrivals come in the last tenth of a second -/
theorem yields_inverse_rising :
    0 < (Duration.ofSecs 1).nanos ∧ (∀ s ∈ [(⟨.ofSecs 10, 10⟩ : Stage)], 0 < s.duration.nanos) ∧
      ∃ offsets : List ℝ, Yields pop (init 0 (.ofSecs 1) [⟨.ofSecs 10, 10⟩] : RampingArrivals ℝ) offsets ∧
        48 < offsets.length := by
  have hunit : 0 < (Duration.ofSecs 1).nanos := by decide
  have hstages : ∀ s ∈ [(⟨.ofSecs 10, 10⟩ : Stage)], 0 < s.duration.nanos := by decide
  obtain ⟨offsets, hyields, hinverts⟩ := yields_inverse 0 hunit hstages
  have hone : (Duration.ofSecs 1).seconds = 1 := by rw [Duration.seconds_ofSecs (by decide), Nat.cast_one]
  have hten : (Duration.ofSecs 10).seconds = 10 := by rw [Duration.seconds_ofSecs (by decide), Nat.cast_ofNat]
  have htotal : (stagesDuration [⟨.ofSecs 10, 10⟩]).seconds = 10 := hten
  have hlate : (99 / 10 : ℝ) < (stagesDuration [⟨.ofSecs 10, 10⟩]).seconds := by rw [htotal]; norm_num
  have hmany : (48 : Nat) + 1 ≤ arrivalsBy (Duration.ofSecs 1).seconds (0 : Nat) [⟨.ofSecs 10, 10⟩] (99 / 10) := by
    rw [arrivalsBy_within hstages (by norm_num) (by rw [hten]; norm_num), arrivalsIn, curve, hone, hten]
    norm_num
  exact ⟨hunit, hstages, offsets, hyields, hinverts.complete 48 (99 / 10) (by norm_num) hlate hmany⟩

end LoadGen.RampingArrivals
