/-
The arrivals of a ramp as the program computes them, in floats. What is carried from stage to stage stays within bounds
whatever the ramp, so every operation gives a number; so the arrivals end, and the first `2 ^ 48` are in order.

- `Place`: where the search is, as numbers within bounds. `Place.next`: it goes on to the next stage.
- `Found`: what is carried on with the next arrival. `found_of_seek`: the search finds it.
- `Walks.pop_of_many`: after `2 ^ 216` arrivals no stage has another one.
- `exists_times`: in one stage the times of the arrivals are in order.
- `Walks.offset_le_offset`: an arrival is not due before the one before it, in one stage or in a later one.
- `offset?_ramping_of_many`, `inOrder_ramping`: the arrivals of every ramp end, and they are in order.
- `inOrder_ofModel`: so are those of every open-loop model.
-/
import LoadGen.Proofs.Arrival.Floating
import LoadGen.Proofs.Arrival.Instants
import LoadGen.Proofs.Arrival.Interpolation

namespace LoadGen.RampingArrivals

open Decimal RateArithmetic

/-! ## Where the search is -/

/-- the rate, the time and the arrivals at the start of a stage, as numbers -/
structure Place (rate start before : Float) (S : ℝ) : Prop where
  rate : ∃ k : ℕ, IsNumber rate k ∧ (k : ℝ) ≤ 2 ^ (64 : ℤ)
  start : IsNumber start S
  start_nonneg : 0 ≤ S
  start_le : S ≤ 2 ^ (120 : ℤ)
  before : ∃ n, IsNumber before n ∧ 0 ≤ n ∧ n ≤ 2 ^ (214 : ℤ)

/-- a time unit that is some time -/
structure IsTimeUnit (u : Float) : Prop where
  seconds : ∃ U, IsNumber u U ∧ 2 ^ (-30 : ℤ) ≤ U ∧ U ≤ 2 ^ (65 : ℤ)

variable {a b : RampingArrivals Float} {u rate start before t : Float} {s : Stage} {stages rest : List Stage}
variable {offset : Duration} {k n k₀ k₁ : ℕ} {S U D : ℝ}

/-- a word as a rate -/
theorem exists_rate (hn : n ≤ wordMax) : ∃ k : ℕ, IsNumber (ofNat n) k ∧ (k : ℝ) ≤ 2 ^ (64 : ℤ) := by
  have hle : (n : ℝ) ≤ 2 ^ (64 : ℤ) := by
    have : n ≤ 2 ^ 64 := hn.trans (by decide)
    exact_mod_cast this
  obtain ⟨k, hk⟩ := exists_rounded_natCast n
  have hnumber := isNumber_ofNat n (le_two_zpow_of_le hle (by norm_num))
  rw [hk] at hnumber
  exact ⟨k, hnumber, hk ▸ rounded_le_two_zpow (by norm_num) hle⟩

/-- a stage from some place on is searched with numbers -/
theorem Place.isStage (h : Place rate start before S) (hu : IsTimeUnit u) (hs : s.target ≤ wordMax) :
    ∃ U k₀ k₁ D, IsStage u rate (ofNat s.target) (ofDuration s.duration) U k₀ k₁ D := by
  obtain ⟨U, hU, hU1, hU2⟩ := hu.seconds
  obtain ⟨k₀, hk₀, hk₀'⟩ := h.rate
  obtain ⟨k₁, hk₁, hk₁'⟩ := exists_rate hs
  obtain ⟨D, hD, hD1, hD2, hD3⟩ := s.duration.exists_seconds
  exact ⟨U, k₀, k₁, D, hU, hU1, hU2, hk₀, hk₀', hk₁, hk₁', hD, hD1, hD2, hD3⟩

/-- an instant in a stage, in seconds -/
theorem Place.add (h : Place rate start before S) {T : ℝ} (ht : IsNumber t T) (hT0 : 0 ≤ T) (hT : T ≤ 2 ^ (65 : ℤ)) :
    IsNumber (start + t) (rounded (S + T)) ∧ S ≤ rounded (S + T) := by
  have hsum := add_le_two_zpow h.start_le (le_two_zpow_of_le hT (by norm_num))
  refine ⟨h.start.add ht (abs_le_of_le (add_nonneg h.start_nonneg hT0) hsum (by norm_num)), ?_⟩
  calc S = rounded S := h.start.rounded_eq.symm
    _ ≤ rounded (S + T) := rounded_mono (le_add_of_nonneg_right hT0)

/-- the next stage is another place: what would lead out of the bounds is lost in rounding -/
theorem Place.next (h : Place rate start before S) (hs : s.target ≤ wordMax)
    (hstage : IsStage u rate (ofNat s.target) (ofDuration s.duration) U k₀ k₁ D) :
    Place (ofNat s.target) (start + ofDuration s.duration)
      (before + stageTotal u rate (ofNat s.target) (ofDuration s.duration)) (rounded (S + D)) := by
  obtain ⟨hsum, hfurther⟩ := h.add hstage.length hstage.length_nonneg hstage.length_le
  constructor
  case rate => exact exists_rate hs
  case start => exact hsum
  case start_nonneg => exact h.start_nonneg.trans hfurther
  case start_le =>
    have hless : S + D < 2 ^ (120 : ℤ) + 2 ^ (120 - 53 : ℤ) :=
      add_lt_add_of_le_of_lt h.start_le
        (lt_of_le_of_lt hstage.length_le (zpow_lt_zpow_right₀ one_lt_two (by norm_num)))
    exact rounded_le_of_lt (by norm_num) hless
  case before =>
    obtain ⟨B, hB, hB0, hB1⟩ := h.before
    obtain ⟨T, hT, hT0, hT1⟩ := hstage.exists_total
    have hless : B + T < 2 ^ (214 : ℤ) + 2 ^ (214 - 53 : ℤ) :=
      add_lt_add_of_le_of_lt hB1 (lt_of_le_of_lt hT1 (zpow_lt_zpow_right₀ one_lt_two (by norm_num)))
    have hsum := add_le_two_zpow hB1 (le_two_zpow_of_le hT1 (by norm_num))
    have hnonneg := add_nonneg hB0 hT0
    exact ⟨_, hB.add hT (abs_le_of_le hnonneg hsum (by norm_num)), rounded_nonneg hnonneg,
      rounded_le_of_lt (by norm_num) hless⟩

/-! ## The end -/

theorem isNumber_slack : ∃ σ, IsNumber slack σ ∧ 0 ≤ σ ∧ σ ≤ 1 := by
  have hkind : kindOf 1e-9 = .finite false ⟨4835703278458517, -82, false⟩ := by decide +kernel
  have := isNumber_of_kindOf hkind (by decide)
  norm_num at this
  exact ⟨_, this, by norm_num, by norm_num⟩

/-- so many arrivals are more than a stage has, and than all stages before it are said to have -/
theorem timeWithin?_of_many (h : Place rate start before S) (hu : IsTimeUnit u) (hs : s.target ≤ wordMax) :
    timeWithin? u rate (ofNat s.target) (ofDuration s.duration) ((ofNat (2 ^ 216 + 1) : Float) - before) = none := by
  obtain ⟨U, k₀, k₁, D, hstage⟩ := h.isStage hu hs
  obtain ⟨B, hB, hB0, hB1⟩ := h.before
  obtain ⟨T, hT, hT0, hT1⟩ := hstage.exists_total
  obtain ⟨σ, hσ, hσ0, hσ1⟩ := isNumber_slack
  have hmany : (2 : ℝ) ^ (216 : ℤ) ≤ (2 ^ 216 + 1 : ℕ) := by norm_num
  have hmany' : ((2 ^ 216 + 1 : ℕ) : ℝ) ≤ 2 ^ (217 : ℤ) := by norm_num
  have hN := isNumber_ofNat (2 ^ 216 + 1) (le_two_zpow_of_le hmany' (by norm_num))
  have hN1 := two_zpow_le_rounded (by norm_num) hmany
  have hN2 := rounded_le_two_zpow (by norm_num) hmany'
  set N := rounded ((2 ^ 216 + 1 : ℕ) : ℝ) with hNdef
  have hdiff : (2 : ℝ) ^ (215 : ℤ) ≤ N - B := by
    norm_num at hN1 hB1 ⊢
    linarith
  have hdiff' : N - B ≤ 2 ^ (217 : ℤ) := (sub_le_self N hB0).trans hN2
  have hM := hN.sub hB (abs_le_of_le (le_trans (by positivity) hdiff) hdiff' (by norm_num))
  have hsum : T + σ ≤ 2 ^ (159 + 1 : ℤ) := add_le_two_zpow hT1 (hσ1.trans (one_le_zpow₀ one_le_two (by norm_num)))
  have hS := hT.add hσ (abs_le_of_le (add_nonneg hT0 hσ0) hsum (by norm_num))
  have hle : ¬rounded (N - B) ≤ rounded (T + σ) := by
    have hM1 := two_zpow_le_rounded (by norm_num) hdiff
    have hS1 := rounded_le_two_zpow (by norm_num) hsum
    have hless : (2 : ℝ) ^ (159 + 1 : ℤ) < 2 ^ (215 : ℤ) := zpow_lt_zpow_right₀ one_lt_two (by norm_num)
    exact not_le.2 (lt_of_le_of_lt hS1 (lt_of_lt_of_le hless hM1))
  unfold timeWithin?
  exact if_neg (mt (le_iff hM hS).1 hle)

theorem seek_of_many (hu : IsTimeUnit a.timeUnit) (htaken : a.taken = 2 ^ 216) (h : Place rate start before S)
    (hs : ∀ s ∈ stages, s.target ≤ wordMax) : ∃ b, a.seek (S := Duration) stages rate start before = .finished b := by
  induction stages generalizing rate start before S with
  | nil => exact ⟨_, rfl⟩
  | cons s rest ih =>
    have hs' := hs s List.mem_cons_self
    obtain ⟨U, k₀, k₁, D, hstage⟩ := h.isStage hu hs'
    unfold seek
    dsimp only
    rw [htaken, timeWithin?_of_many h hu hs']
    exact ih (h.next hs' hstage) fun s' hmem => hs s' (List.mem_cons_of_mem s hmem)

/-! ## The next arrival -/

/-- what is carried on with an arrival that was looked for from some instant on -/
structure Found (a b : RampingArrivals Float) (offset : Duration) (S : ℝ) : Prop where
  timeUnit : b.timeUnit = a.timeUnit
  taken : b.taken = a.taken + 1
  targets : ∀ s ∈ b.stages, s.target ≤ wordMax
  /-- the search does not go back -/
  place : ∃ S', Place b.rate b.start b.before S' ∧ S ≤ S'
  /-- the arrival is in the first stage that is carried on -/
  time : ∃ s rest t, b.stages = s :: rest ∧
    timeWithin? a.timeUnit b.rate (ofNat s.target) (ofDuration s.duration) ((ofNat (a.taken + 1) : Float) - b.before) =
      some t ∧
    toSpan? (b.start + t) = some offset

theorem found_of_seek (hu : IsTimeUnit a.timeUnit) (h : Place rate start before S)
    (hs : ∀ s ∈ stages, s.target ≤ wordMax) (hseek : a.seek stages rate start before = .due offset b) :
    Found a b offset S := by
  induction stages generalizing rate start before S with
  | nil => cases hseek
  | cons s rest ih =>
    unfold seek at hseek
    dsimp only at hseek
    split at hseek
    · -- the next stage starts when this one is over
      have hs' := hs s List.mem_cons_self
      obtain ⟨U, k₀, k₁, D, hstage⟩ := h.isStage hu hs'
      have hfound := ih (h.next hs' hstage) (fun s' hmem => hs s' (List.mem_cons_of_mem s hmem)) hseek
      obtain ⟨S', hplace, hle⟩ := hfound.place
      obtain ⟨-, hfurther⟩ := h.add hstage.length hstage.length_nonneg hstage.length_le
      exact { hfound with place := ⟨S', hplace, hfurther.trans hle⟩ }
    · rename_i t htime
      split at hseek
      · cases hseek
      · rename_i span hspan
        split at hseek
        · cases hseek
        · cases hseek
          exact ⟨rfl, rfl, hs, ⟨S, h, le_rfl⟩, s, rest, t, rfl, htime, hspan⟩

/-- what is carried on between two arrivals, after `k` of them -/
structure Walks (a : RampingArrivals Float) (k : ℕ) : Prop where
  timeUnit : le a.timeUnit (ofNat 0) = true ∨ IsTimeUnit a.timeUnit
  taken : a.taken = k
  place : ∃ S, Place a.rate a.start a.before S
  targets : ∀ s ∈ a.stages, s.target ≤ wordMax

theorem walks_init {startRate : ℕ} {timeUnit : Duration} (h : (Ramp.mk startRate stages).InWords) :
    Walks (init startRate timeUnit stages) 0 := by
  obtain ⟨U, hU, -, hU1, hU2⟩ := timeUnit.exists_seconds
  constructor
  case timeUnit =>
    refine hU2.imp (fun hzero => ?_) fun hpos => ⟨U, hU, hpos, hU1⟩
    exact (le_iff hU isNumber_zero).2 hzero.le
  case taken => rfl
  case place =>
    have hzero : (0 : ℝ) ≤ 2 ^ (120 : ℤ) := by positivity
    have hzero' : (0 : ℝ) ≤ 2 ^ (214 : ℤ) := by positivity
    exact ⟨0, exists_rate h.start, isNumber_zero, le_rfl, hzero, 0, isNumber_zero, le_rfl, hzero'⟩
  case targets => exact h.stages

/-- what the next arrival is found with -/
theorem Walks.found (h : Walks a k) (hpop : a.pop = .due offset b) :
    ∃ S, Place a.rate a.start a.before S ∧ IsTimeUnit a.timeUnit ∧ Found a b offset S := by
  obtain ⟨S, hplace⟩ := h.place
  unfold pop at hpop
  split at hpop
  · cases hpop
  · rename_i hpos
    have hu := h.timeUnit.resolve_left hpos
    exact ⟨S, hplace, hu, found_of_seek hu hplace h.targets hpop⟩

theorem Walks.pop (h : Walks a k) (hpop : a.pop = .due offset b) : Walks b (k + 1) := by
  obtain ⟨S, -, hu, hfound⟩ := h.found hpop
  obtain ⟨S', hplace, -⟩ := hfound.place
  exact ⟨.inr (hfound.timeUnit ▸ hu), hfound.taken.trans (congrArg (· + 1) h.taken), ⟨S', hplace⟩, hfound.targets⟩

/-- **After so many arrivals there is no other.** -/
theorem Walks.pop_of_many (h : Walks a (2 ^ 216)) : ∃ b, a.pop (S := Duration) = .finished b := by
  obtain ⟨S, hplace⟩ := h.place
  unfold RampingArrivals.pop
  split
  · exact ⟨a, rfl⟩
  · rename_i hpos
    exact seek_of_many (h.timeUnit.resolve_left hpos) h.taken hplace h.targets

/-! ## Order -/

/-- a whole number less a number that is less leaves a number that is not one of the least -/
theorem le_sub_of_pos {x : Float} {y : ℝ} (hx : IsNumber x y) (hn : 1 ≤ n) (hpos : 0 < n - y) :
    2 ^ (-53 : ℤ) ≤ n - y := by
  rcases lt_or_ge y (1 / 2) with hlt | hge
  · have hone : (1 : ℝ) ≤ n := by exact_mod_cast hn
    have hsmall : (2 : ℝ) ^ (-53 : ℤ) ≤ 1 / 2 := by norm_num
    exact hsmall.trans (by linarith)
  · obtain ⟨z, hz⟩ := IsNumberOf.exists_int hx (hge.trans (le_abs_self y))
    have hplaces : (n : ℝ) - y = ((n : ℤ) * 2 ^ 53 - z : ℤ) * 2 ^ (-53 : ℤ) := by
      rw [hz]
      push_cast
      rw [sub_mul, mul_assoc]
      norm_num
    rw [hplaces] at hpos ⊢
    have hwhole : (0 : ℤ) < (n : ℤ) * 2 ^ 53 - z := Int.cast_pos.1 (pos_of_mul_pos_left hpos (by positivity))
    have hwhole' : (1 : ℝ) ≤ ((n : ℤ) * 2 ^ 53 - z : ℤ) := by exact_mod_cast hwhole
    exact le_mul_of_one_le_left (by positivity) hwhole'

/-- the arrivals that are left of a whole number, as a float -/
theorem isNumber_left {x : Float} {y : ℝ} (hx : IsNumber x y) (hy : 0 ≤ y) (hy' : y ≤ 2 ^ (214 : ℤ)) (hn : 1 ≤ n)
    (hn' : n ≤ 2 ^ 48 + 1) :
    IsNumber ((ofNat n : Float) - x) (rounded (n - y)) ∧ |rounded (n - y)| ≤ 2 ^ (217 : ℤ) ∧
      (rounded (n - y) ≤ 0 ∨ 2 ^ (-53 : ℤ) ≤ rounded (n - y)) := by
  have hN := isNumber_natCast (lt_of_le_of_lt hn' (by norm_num) : n < 2 ^ 53)
  have hcast : (n : ℝ) ≤ 2 ^ (217 : ℤ) := by
    have : (n : ℝ) ≤ 2 ^ 48 + 1 := by exact_mod_cast hn'
    norm_num at this ⊢
    linarith
  have habs : |(n : ℝ) - y| ≤ 2 ^ (217 : ℤ) :=
    abs_sub_le_iff.2 ⟨(sub_le_self _ hy).trans hcast,
      (sub_le_self _ (Nat.cast_nonneg n)).trans (le_two_zpow_of_le hy' (by norm_num))⟩
  refine ⟨hN.sub hx (le_two_zpow_of_le habs (by norm_num)), abs_rounded_le (by norm_num) habs, ?_⟩
  rcases le_or_gt ((n : ℝ) - y) 0 with hle | hpos
  · exact .inl (rounded_nonpos hle)
  · right
    exact two_zpow_le_rounded (by norm_num) (le_sub_of_pos hx hn hpos)

/-- up to so many arrivals, one more outweighs what is lost in rounding -/
theorem outweighs_of_le {y : ℝ} (hpos : 0 < y) (hle : y ≤ 2 ^ 48) : Outweighs (rounded y) (rounded (y + 1)) := by
  unfold Outweighs
  rcases le_or_gt y (1 / 2) with hsmall | hlarge
  · have hm : rounded y ≤ 2 ^ (-1 : ℤ) := rounded_le_two_zpow (by norm_num) (by norm_num; linarith)
    have hm' : 2 ^ (0 : ℤ) ≤ rounded (y + 1) := two_zpow_le_rounded (by norm_num) (by norm_num; linarith)
    have hratio : (roundoff * (roundoff * roundoff)) ^ 2 ≤ 2 := by norm_num [roundoff_eq]
    have hm0 := rounded_nonneg hpos.le
    norm_num at hm hm'
    nlinarith
  · have hnormal : (2 : ℝ) ^ (-1022 : ℤ) ≤ 1 / 2 := by
      calc (2 : ℝ) ^ (-1022 : ℤ) ≤ 2 ^ (-1 : ℤ) := zpow_le_zpow_right₀ one_le_two (by norm_num)
        _ = 1 / 2 := by norm_num
    have hm := (abs_le.1 (abs_rounded_sub_le (hnormal.trans hlarge.le))).2
    have hm' := (abs_le.1 (abs_rounded_sub_le (hnormal.trans (by linarith : 1 / 2 ≤ y + 1)))).1
    have hratio : (roundoff * (roundoff * roundoff)) ^ 2 * (1 + 1 / 2 ^ 53) ≤ (1 - 1 / 2 ^ 53) * (1 + 1 / 2 ^ 48) := by
      norm_num [roundoff_eq]
    have hone : y / 2 ^ 48 ≤ 1 := (div_le_one (by positivity)).2 hle
    calc (roundoff * (roundoff * roundoff)) ^ 2 * rounded y
        ≤ (roundoff * (roundoff * roundoff)) ^ 2 * (y * (1 + 1 / 2 ^ 53)) := by gcongr; linarith
      _ ≤ (1 - 1 / 2 ^ 53) * (1 + 1 / 2 ^ 48) * y := by
        have := mul_le_mul_of_nonneg_right hratio hpos.le
        linarith
      _ ≤ (1 - 1 / 2 ^ 53) * (y + 1) := by linarith
      _ ≤ rounded (y + 1) := by linarith

/-- **In one stage** the time of an arrival is not before that of the one before it. -/
theorem exists_times {r₀ r₁ δ t t' : Float} {y : ℝ} (hstage : IsStage u r₀ r₁ δ U k₀ k₁ D) (hy : IsNumber before y)
    (hy0 : 0 ≤ y) (hy1 : y ≤ 2 ^ (214 : ℤ)) (hn : 1 ≤ n) (hn' : n ≤ 2 ^ 48)
    (ht : timeWithin? u r₀ r₁ δ ((ofNat n : Float) - before) = some t)
    (ht' : timeWithin? u r₀ r₁ δ ((ofNat (n + 1) : Float) - before) = some t') :
    ∃ T T', IsNumber t T ∧ IsNumber t' T' ∧ 0 ≤ T ∧ T ≤ T' ∧ T' ≤ D := by
  obtain ⟨hm, hm1, hm2⟩ := isNumber_left hy hy0 hy1 hn (hn'.trans (Nat.le_succ _))
  obtain ⟨hm', hm1', hm2'⟩ := isNumber_left hy hy0 hy1 (n := n + 1) (Nat.le_add_left 1 n) (Nat.succ_le_succ hn')
  obtain ⟨a, b, hcoefficients, htime⟩ := hstage.exists_coefficients
  obtain ⟨hroot, hT⟩ := htime hm hm1 hm2 ht
  obtain ⟨hroot', hT'⟩ := htime hm' hm1' hm2' ht'
  have hsucc : ((n + 1 : ℕ) : ℝ) - y = (n - y) + 1 := by
    push_cast
    ring
  have hle : rounded (n - y) ≤ rounded ((n + 1 : ℕ) - y) := rounded_mono (by linarith)
  have houtweighs (hpos : 0 < rounded (n - y)) : Outweighs (rounded (n - y)) (rounded ((n + 1 : ℕ) - y)) := by
    have hleft : 0 < n - y := by
      by_contra hnot
      exact absurd hpos (not_lt.2 (rounded_nonpos (not_lt.1 hnot)))
    have hcast : (n : ℝ) ≤ 2 ^ 48 := by exact_mod_cast hn'
    rw [hsucc]
    exact outweighs_of_le hleft ((sub_le_self _ hy0).trans hcast)
  exact ⟨_, _, hT, hT', timeOf_nonneg,
    timeOf_mono hcoefficients.rate_nonneg hcoefficients.rising hm2 (IsNumberOf.rounded_two_mul hm)
      (IsNumberOf.rounded_two_mul hm') hle hroot hroot' houtweighs,
    timeOf_le hstage.length_nonneg⟩

/-- the time of an arrival in the first stage that is carried on is within this stage -/
theorem exists_time {r₀ r₁ δ : Float} {y : ℝ} (hstage : IsStage u r₀ r₁ δ U k₀ k₁ D) (hy : IsNumber before y)
    (hy0 : 0 ≤ y) (hy1 : y ≤ 2 ^ (214 : ℤ)) (hn : 1 ≤ n) (hn' : n ≤ 2 ^ 48 + 1)
    (ht : timeWithin? u r₀ r₁ δ ((ofNat n : Float) - before) = some t) : ∃ T, IsNumber t T ∧ 0 ≤ T ∧ T ≤ D := by
  obtain ⟨hm, hm1, hm2⟩ := isNumber_left hy hy0 hy1 hn hn'
  obtain ⟨a, b, -, htime⟩ := hstage.exists_coefficients
  exact ⟨_, (htime hm hm1 hm2 ht).2, timeOf_nonneg, timeOf_le hstage.length_nonneg⟩

/-- an arrival that was looked for from some instant on is due at a number of seconds from there on -/
theorem Found.exists_instant (h : Found a b offset S) (hu : IsTimeUnit a.timeUnit) (hn : a.taken ≤ 2 ^ 48) :
    ∃ x v, toSpan? x = some offset ∧ IsNumber x v ∧ S ≤ v := by
  obtain ⟨S', hplace, hle⟩ := h.place
  obtain ⟨s, rest, t, hstages, htime, hspan⟩ := h.time
  obtain ⟨U, k₀, k₁, D, hstage⟩ := hplace.isStage hu (h.targets s (hstages ▸ List.mem_cons_self))
  obtain ⟨y, hy, hy0, hy1⟩ := hplace.before
  obtain ⟨T, hT, hT0, hTD⟩ := exists_time hstage hy hy0 hy1 (Nat.le_add_left 1 a.taken) (Nat.succ_le_succ hn) htime
  obtain ⟨hsum, hfurther⟩ := hplace.add hT hT0 (hTD.trans hstage.length_le)
  exact ⟨_, _, hspan, hsum, hle.trans hfurther⟩

/-- **An arrival is not due before the one before it**, among so many of them. -/
theorem Walks.offset_le_offset {c : RampingArrivals Float} {later : Duration} (h : Walks a k) (hk : k + 1 ≤ 2 ^ 48)
    (hpop : a.pop = .due offset b) (hpop' : b.pop = .due later c) : offset ≤ later := by
  obtain ⟨_, -, hu, hfound⟩ := h.found hpop
  obtain ⟨s, rest, t, hstages, htime, hspan⟩ := hfound.time
  obtain ⟨S, hplace, -⟩ := hfound.place
  have htaken : a.taken + 1 ≤ 2 ^ 48 := h.taken ▸ hk
  have hs : s.target ≤ wordMax := hfound.targets s (hstages ▸ List.mem_cons_self)
  obtain ⟨U, k₀, k₁, D, hstage⟩ := hplace.isStage hu hs
  obtain ⟨y, hy, hy0, hy1⟩ := hplace.before
  unfold RampingArrivals.pop at hpop'
  split at hpop'
  case isTrue => cases hpop'
  rw [hstages] at hpop'
  unfold seek at hpop'
  dsimp only at hpop'
  rw [hfound.timeUnit, hfound.taken] at hpop'
  split at hpop'
  · -- the next one is in a later stage, that starts when this one is over
    obtain ⟨T, hT, hT0, hTD⟩ :=
      exists_time hstage hy hy0 hy1 (Nat.le_add_left 1 a.taken) (htaken.trans (Nat.le_succ _)) htime
    obtain ⟨hsum, hfurther⟩ := hplace.add hT hT0 (hTD.trans hstage.length_le)
    have hrest (s') (hmem : s' ∈ rest) : s'.target ≤ wordMax :=
      hfound.targets s' (hstages ▸ List.mem_cons_of_mem s hmem)
    have hfound' := found_of_seek (hfound.timeUnit ▸ hu) (hplace.next hs hstage) hrest hpop'
    obtain ⟨x, v, hspan', hv, hlater⟩ := hfound'.exists_instant (hfound.timeUnit ▸ hu) (hfound.taken ▸ htaken)
    refine Duration.ofSeconds?_mono hsum hv (hplace.start_nonneg.trans hfurther) ?_ hspan hspan'
    calc rounded (S + T) ≤ rounded (S + D) := rounded_mono (add_le_add_right hTD S)
      _ ≤ v := hlater
  · rename_i t' htime'
    split at hpop'
    · cases hpop'
    · rename_i span hspan'
      split at hpop'
      · cases hpop'
      · cases hpop'
        obtain ⟨T, T', hT, hT', hT0, hTT', hTD⟩ :=
          exists_times hstage hy hy0 hy1 (Nat.le_add_left 1 a.taken) htaken htime htime'
        obtain ⟨hsum, hfurther⟩ := hplace.add hT hT0 ((hTT'.trans hTD).trans hstage.length_le)
        obtain ⟨hsum', -⟩ := hplace.add hT' (hT0.trans hTT') (hTD.trans hstage.length_le)
        refine Duration.ofSeconds?_mono hsum hsum' (hplace.start_nonneg.trans hfurther) ?_ hspan hspan'
        exact rounded_mono (add_le_add_right hTT' S)

end LoadGen.RampingArrivals

/-! ## All arrivals of a ramp -/

namespace LoadGen.Arrivals

open RampingArrivals

variable {startRate k : ℕ} {timeUnit d : Duration} {stages : List Stage} {rest : Arrivals}

/-- what an arrival is found with -/
theorem exists_walks (h : (Ramp.mk startRate stages).InWords)
    (hnth : (ramping (.init startRate timeUnit stages)).nth k = .due d rest) :
    ∃ a b, Walks a k ∧ a.pop = .due d b ∧ rest = ramping b := by
  induction k generalizing d rest with
  | zero =>
    obtain ⟨b, hrest, hpop⟩ := pop_ramping hnth
    exact ⟨_, b, walks_init h, hpop, hrest⟩
  | succ k ih =>
    obtain ⟨before, here, hk, hpop⟩ := exists_of_nth_succ hnth
    obtain ⟨a, b, hwalks, hbefore, rfl⟩ := ih hk
    obtain ⟨c, hrest, hpop⟩ := pop_ramping hpop
    exact ⟨b, c, hwalks.pop hbefore, hpop, hrest⟩

/-- **The arrivals of every ramp end.** -/
theorem offset?_ramping_of_many (h : (Ramp.mk startRate stages).InWords) (hk : 2 ^ 216 ≤ k) :
    (ramping (.init startRate timeUnit stages)).offset? k = none := by
  generalize hmany : 2 ^ 216 = n at hk
  by_contra hsome
  obtain ⟨d, hd⟩ := Option.isSome_iff_exists.1 (isSome_offset?_of_le hk (Option.isSome_iff_ne_none.2 hsome))
  obtain ⟨rest, hnth⟩ := offset?_eq_some.1 hd
  obtain ⟨a, b, hwalks, hpop, -⟩ := exists_walks h hnth
  obtain ⟨c, hfinished⟩ := Walks.pop_of_many (hmany ▸ hwalks)
  rw [hpop] at hfinished
  cases hfinished

/-- **At a ramping rate arrivals are in order**, the first `2 ^ 48` of them. -/
theorem inOrder_ramping (h : (Ramp.mk startRate stages).InWords) (hk : k ≤ 2 ^ 48)
    (hsome : ((ramping (.init startRate timeUnit stages)).offset? k).isSome) :
    (ramping (.init startRate timeUnit stages)).InOrder k := by
  intro i hi
  obtain ⟨later, hlater⟩ := Option.isSome_iff_exists.1 (isSome_offset?_of_le hi hsome)
  obtain ⟨rest, hnth⟩ := offset?_eq_some.1 hlater
  obtain ⟨d, here, hbefore, hpop⟩ := exists_of_nth_succ hnth
  obtain ⟨a, b, hwalks, hfirst, rfl⟩ := exists_walks h hbefore
  obtain ⟨c, -, hnext⟩ := pop_ramping hpop
  rw [offset_eq hlater, offset_eq (offset?_eq_some.2 ⟨_, hbefore⟩)]
  exact hwalks.offset_le_offset (lt_of_lt_of_le hi hk) hfirst hnext

/-- four on the way up, and one on the way down -/
example : (ramping (.init 0 (.ofSecs 1) [⟨.ofSecs 2, 4⟩, ⟨.ofSecs 1, 0⟩])).InOrder 4 := by
  decide +kernel

/-- so the arrivals of every open-loop model are in order, at a ramping rate the first `2 ^ 48` -/
theorem inOrder_ofModel {m : ArrivalModel} {a : Arrivals} (hm : ofModel? m = some a)
    (hramp : ∀ startRate timeUnit stages preAllocated most,
      m = .rampingArrivalRate startRate timeUnit stages preAllocated most →
        (Ramp.mk startRate stages).InWords ∧ k ≤ 2 ^ 48)
    (hsome : (a.offset? k).isSome) : a.InOrder k := by
  cases m with
  | constantArrivalRate =>
    cases hm
    exact inOrder_constant _ hsome
  | rampingArrivalRate =>
    cases hm
    obtain ⟨hwords, hk⟩ := hramp _ _ _ _ _ rfl
    exact inOrder_ramping hwords hk hsome
  | constantVus | rampingVus => cases hm

end LoadGen.Arrivals
