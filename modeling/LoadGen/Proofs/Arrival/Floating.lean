/-
One stage of a ramp in floats. The root is computed from rounded numbers, and how far on the m-th arrival of the stage
is does not go down with m as long as one arrival more is enough to outweigh the rounding, as it is for the first
`2 ^ 48` arrivals of every ramp.

- `discriminant`, `rootOf`, `timeOf`: what is computed, with every rounding.
- `discriminant_anti`: where the rate falls or stays, the discriminant goes down with the number of arrivals.
- `Rises.rootOf_le`: where it rises, the root goes up with it, by less than the number itself.
- `timeOf_mono`: so the time does not go down.
- `IsStage.exists_coefficients`: this is what floats compute.
-/
import Mathlib.Analysis.Real.Sqrt
import LoadGen.Arrival.Ramping
import LoadGen.Proofs.Time.Seconds

namespace LoadGen.RampingArrivals

open Decimal

/-! ## What is computed -/

/-- the discriminant, with `a` the rate at the start and `b` four times the coefficient of the square -/
noncomputable def discriminant (a b m : ℝ) : ℝ :=
  rounded (rounded (a * a) + rounded (b * m))

/-- the denominator of the root -/
noncomputable def rootOf (a b m : ℝ) : ℝ :=
  rounded (a + rounded √(max 0 (discriminant a b m)))

/-- the time of the `m`-th arrival in a stage of `d` seconds -/
noncomputable def timeOf (a b d m : ℝ) : ℝ :=
  max 0 (min d (rounded (rounded (m + m) / rootOf a b m)))

variable {a b c d m m' r : ℝ}

theorem rootOf_nonneg (ha : 0 ≤ a) : 0 ≤ rootOf a b m := by
  have := rounded_nonneg (Real.sqrt_nonneg (max 0 (discriminant a b m)))
  exact rounded_nonneg (by linarith)

theorem timeOf_eq : timeOf a b d m = max 0 (min d (rounded (rounded (2 * m) / rootOf a b m))) := by
  rw [timeOf, two_mul]

theorem timeOf_nonneg : 0 ≤ timeOf a b d m :=
  le_max_left _ _

theorem timeOf_le (hd : 0 ≤ d) : timeOf a b d m ≤ d :=
  max_le hd (min_le_left _ _)

theorem rootOf_mono (h : discriminant a b m ≤ discriminant a b m') : rootOf a b m ≤ rootOf a b m' :=
  rounded_mono (add_le_add_right (rounded_mono (Real.sqrt_le_sqrt (max_le_max_left 0 h))) a)

/-- where the rate falls or stays, the discriminant goes down with the number of arrivals -/
theorem discriminant_anti (hb : b ≤ 0) (hle : m ≤ m') : discriminant a b m' ≤ discriminant a b m :=
  rounded_mono (add_le_add_right (rounded_mono (mul_le_mul_of_nonpos_left hle hb)) _)

/-! ## Where the rate rises -/

/-- a coefficient and a number of arrivals that are none of the least floats -/
structure Rises (b m : ℝ) : Prop where
  rate : 2 ^ (-129 : ℤ) ≤ b
  arrivals : 2 ^ (-53 : ℤ) ≤ m

theorem Rises.le_mul (h : Rises b m) : 2 ^ (-182 : ℤ) ≤ b * m := by
  have hb : 0 < b := lt_of_lt_of_le (by positivity) h.rate
  calc (2 : ℝ) ^ (-182 : ℤ) = 2 ^ (-129 : ℤ) * 2 ^ (-53 : ℤ) := by rw [← zpow_add₀ two_ne_zero]; norm_num
    _ ≤ b * m := mul_le_mul h.rate h.arrivals (by positivity) hb.le

theorem normal_le : (2 : ℝ) ^ (-1022 : ℤ) ≤ 2 ^ (-182 : ℤ) :=
  zpow_le_zpow_right₀ one_le_two (by norm_num)

theorem Rises.le_discriminant (h : Rises b m) (a : ℝ) : 2 ^ (-182 : ℤ) ≤ discriminant a b m := by
  have hproduct : 2 ^ (-182 : ℤ) ≤ rounded (b * m) := two_zpow_le_rounded (by norm_num) h.le_mul
  have hsquare : 0 ≤ rounded (a * a) := rounded_nonneg (mul_self_nonneg a)
  exact two_zpow_le_rounded (by norm_num) (by linarith)

/-- the discriminant goes up by little more than the number of arrivals -/
theorem Rises.discriminant_le (h : Rises b m) (a : ℝ) (hc : 1 ≤ c) :
    discriminant a b (c * m) ≤ roundoff * (roundoff * c) * discriminant a b m := by
  have hroundoff := one_le_roundoff
  have hb : 0 < b := lt_of_lt_of_le (by positivity) h.rate
  have hm : 0 < m := lt_of_lt_of_le (by positivity) h.arrivals
  have hle : b * m ≤ b * (c * m) := mul_le_mul_of_nonneg_left (le_mul_of_one_le_left hm.le hc) hb.le
  have hproduct : rounded (b * (c * m)) ≤ roundoff * c * rounded (b * m) :=
    rounded_le_roundoff_mul (normal_le.trans h.le_mul) hle (by positivity) (by linarith)
  have hsquare : 0 ≤ rounded (a * a) := rounded_nonneg (mul_self_nonneg a)
  have hproduct0 : 2 ^ (-182 : ℤ) ≤ rounded (b * m) := two_zpow_le_rounded (by norm_num) h.le_mul
  have hmono := rounded_mono hle
  refine rounded_le_roundoff_mul (normal_le.trans (by linarith)) (by linarith) (by positivity) ?_
  have := le_mul_of_one_le_left hsquare (one_le_mul_of_one_le_of_one_le hroundoff hc)
  linarith

theorem Rises.discriminant_mono (h : Rises b m) (hc : 1 ≤ c) : discriminant a b m ≤ discriminant a b (c * m) := by
  have hb : 0 < b := lt_of_lt_of_le (by positivity) h.rate
  have hm : 0 < m := lt_of_lt_of_le (by positivity) h.arrivals
  have hle : b * m ≤ b * (c * m) := mul_le_mul_of_nonneg_left (le_mul_of_one_le_left hm.le hc) hb.le
  exact rounded_mono (add_le_add_right (rounded_mono hle) _)

theorem Rises.le_sqrt (h : Rises b m) (a : ℝ) : 2 ^ (-91 : ℤ) ≤ √(discriminant a b m) := by
  rw [Real.le_sqrt' (by positivity)]
  refine le_trans (le_of_eq ?_) (h.le_discriminant a)
  rw [sq, ← zpow_add₀ two_ne_zero]
  norm_num

theorem Rises.le_rootOf (h : Rises b m) (ha : 0 ≤ a) : 2 ^ (-91 : ℤ) ≤ rootOf a b m := by
  have hpos : 0 ≤ discriminant a b m := le_trans (by positivity) (h.le_discriminant a)
  have hsqrt : 2 ^ (-91 : ℤ) ≤ rounded √(discriminant a b m) := two_zpow_le_rounded (by norm_num) (h.le_sqrt a)
  rw [rootOf, max_eq_right hpos]
  exact two_zpow_le_rounded (by norm_num) (by linarith)

/-- the root goes up by little more than the square root of the number of arrivals -/
theorem Rises.rootOf_le (h : Rises b m) (ha : 0 ≤ a) (hr : 1 ≤ r) :
    rootOf a b (r * r * m) ≤ roundoff * (roundoff * (roundoff * r)) * rootOf a b m := by
  have hroundoff := one_le_roundoff
  have hrr : 1 ≤ r * r := one_le_mul_of_one_le_of_one_le hr hr
  have hpos : 0 ≤ discriminant a b m := le_trans (by positivity) (h.le_discriminant a)
  have hmono := h.discriminant_mono (a := a) hrr
  have hsqrt : √(discriminant a b (r * r * m)) ≤ roundoff * r * √(discriminant a b m) := by
    rw [← Real.sqrt_mul_self (by positivity : 0 ≤ roundoff * r), ← Real.sqrt_mul (by positivity)]
    apply Real.sqrt_le_sqrt
    have := h.discriminant_le a hrr
    linarith
  have hnormal : (2 : ℝ) ^ (-1022 : ℤ) ≤ 2 ^ (-91 : ℤ) := zpow_le_zpow_right₀ one_le_two (by norm_num)
  have hle := Real.sqrt_le_sqrt hmono
  have hsqrt0 := h.le_sqrt a
  have hround : rounded √(discriminant a b (r * r * m)) ≤
      roundoff * (roundoff * r) * rounded √(discriminant a b m) :=
    rounded_le_roundoff_mul (hnormal.trans hsqrt0) hle (by positivity) hsqrt
  have hround0 : 2 ^ (-91 : ℤ) ≤ rounded √(discriminant a b m) := two_zpow_le_rounded (by norm_num) hsqrt0
  rw [rootOf, rootOf, max_eq_right hpos, max_eq_right (hpos.trans hmono)]
  refine rounded_le_roundoff_mul (hnormal.trans (by linarith)) ?_ (by positivity) ?_
  · exact add_le_add_right (rounded_mono hle) a
  · have := le_mul_of_one_le_left ha
      (one_le_mul_of_one_le_of_one_le hroundoff (one_le_mul_of_one_le_of_one_le hroundoff hr))
    linarith

/-! ## The time -/

/-- one arrival more outweighs the rounding -/
def Outweighs (m m' : ℝ) : Prop :=
  (roundoff * (roundoff * roundoff)) ^ 2 * m ≤ m'

theorem timeOf_of_nonpos (ha : 0 ≤ a) (hm : m ≤ 0) : timeOf a b d m = 0 := by
  have hnum : rounded (2 * m) ≤ 0 := rounded_nonpos (by linarith)
  have hquot : rounded (rounded (2 * m) / rootOf a b m) ≤ 0 :=
    rounded_nonpos (div_nonpos_of_nonpos_of_nonneg hnum (rootOf_nonneg ha))
  rw [timeOf_eq]
  exact max_eq_left ((min_le_right _ _).trans hquot)

/-- the time goes up with the quotient that it is computed from -/
theorem timeOf_le_timeOf (hroot : 0 < rootOf a b m) (hroot' : 0 < rootOf a b m')
    (hle : rounded (2 * m) * rootOf a b m' ≤ rounded (2 * m') * rootOf a b m) : timeOf a b d m ≤ timeOf a b d m' := by
  rw [timeOf_eq, timeOf_eq]
  exact max_le_max_left 0 (min_le_min_left d (rounded_mono ((div_le_div_iff₀ hroot hroot').2 hle)))

/-- **The time does not go down**, if the numbers of arrivals are floats and far enough apart. -/
theorem timeOf_mono (ha : 0 ≤ a) (hb : b ≤ 0 ∨ 2 ^ (-129 : ℤ) ≤ b) (hm : m ≤ 0 ∨ 2 ^ (-53 : ℤ) ≤ m)
    (htwice : rounded (2 * m) = 2 * m) (htwice' : rounded (2 * m') = 2 * m') (hle : m ≤ m')
    (hroot : 0 < rootOf a b m) (hroot' : 0 < rootOf a b m') (houtweighs : 0 < m → Outweighs m m') :
    timeOf a b d m ≤ timeOf a b d m' := by
  rcases hm with hm | hm
  · rw [timeOf_of_nonpos ha hm]
    exact timeOf_nonneg
  have hm0 : 0 < m := lt_of_lt_of_le (by positivity) hm
  refine timeOf_le_timeOf hroot hroot' ?_
  rw [htwice, htwice']
  rcases hb with hb | hb
  · have hanti := rootOf_mono (discriminant_anti (a := a) hb hle)
    nlinarith
  · -- the root goes up by less than the number of arrivals
    have hroundoff := one_le_mul_of_one_le_of_one_le one_le_roundoff
      (one_le_mul_of_one_le_of_one_le one_le_roundoff one_le_roundoff)
    have hratio : 0 ≤ m' / m := div_nonneg (hm0.le.trans hle) hm0.le
    have hr : roundoff * (roundoff * roundoff) ≤ √(m' / m) := by
      rw [Real.le_sqrt' (by linarith), le_div_iff₀ hm0]
      exact houtweighs hm0
    have hr1 : 1 ≤ √(m' / m) := hroundoff.trans hr
    have hm' : √(m' / m) * √(m' / m) * m = m' := by
      rw [Real.mul_self_sqrt hratio, div_mul_cancel₀ _ hm0.ne']
    have hrise := (⟨hb, hm⟩ : Rises b m).rootOf_le ha hr1
    rw [hm'] at hrise
    have hbound : rootOf a b m' ≤ √(m' / m) * √(m' / m) * rootOf a b m := by
      refine hrise.trans (mul_le_mul_of_nonneg_right ?_ hroot.le)
      have := mul_le_mul_of_nonneg_right hr (Real.sqrt_nonneg (m' / m))
      linarith
    calc 2 * m * rootOf a b m' ≤ 2 * m * (√(m' / m) * √(m' / m) * rootOf a b m) := by gcongr
      _ = 2 * (√(m' / m) * √(m' / m) * m) * rootOf a b m := by ring
      _ = 2 * m' * rootOf a b m := by rw [hm']

/-! ## In floats -/

open RateArithmetic

/-- the floats that a stage is searched with: a time unit, the rates at both ends, and the length -/
structure IsStage (u r₀ r₁ d : Float) (U : ℝ) (k₀ k₁ : ℕ) (D : ℝ) : Prop where
  timeUnit : IsNumber u U
  le_timeUnit : 2 ^ (-30 : ℤ) ≤ U
  timeUnit_le : U ≤ 2 ^ (65 : ℤ)
  first : IsNumber r₀ k₀
  first_le : (k₀ : ℝ) ≤ 2 ^ (64 : ℤ)
  last : IsNumber r₁ k₁
  last_le : (k₁ : ℝ) ≤ 2 ^ (64 : ℤ)
  length : IsNumber d D
  length_nonneg : 0 ≤ D
  length_le : D ≤ 2 ^ (65 : ℤ)
  length_pos : D = 0 ∨ 2 ^ (-30 : ℤ) ≤ D

variable {u r₀ r₁ δ x t : Float} {U D M : ℝ} {k₀ k₁ : ℕ}

theorem isNumber_zero : IsNumber (RateArithmetic.ofNat 0) 0 := by
  have := isNumber_natCast (n := 0) (by norm_num)
  rwa [Nat.cast_zero] at this

theorem isNumber_two : IsNumber (RateArithmetic.ofNat 2) 2 := by
  have := isNumber_natCast (n := 2) (by norm_num)
  rwa [Nat.cast_ofNat] at this

theorem isNumber_four : IsNumber (RateArithmetic.ofNat 4) 4 := by
  have := isNumber_natCast (n := 4) (by norm_num)
  rwa [Nat.cast_ofNat] at this

/-- the arrivals in a stage are a number -/
theorem IsStage.exists_total (h : IsStage u r₀ r₁ δ U k₀ k₁ D) :
    ∃ n, IsNumber (stageTotal u r₀ r₁ δ) n ∧ 0 ≤ n ∧ n ≤ 2 ^ (159 : ℤ) := by
  have hsum : (k₀ + k₁ : ℝ) ≤ 2 ^ (64 + 1 : ℤ) := add_le_two_zpow h.first_le h.last_le
  have hS := h.first.add h.last (abs_le_of_le (by positivity) hsum (by norm_num))
  have hS1 := rounded_le_two_zpow (by norm_num) hsum
  have hS0 : 0 ≤ rounded (k₀ + k₁ : ℝ) := rounded_nonneg (by positivity)
  have hhalf : rounded (k₀ + k₁ : ℝ) / 2 ≤ 2 ^ (64 + 1 - 1 : ℤ) := div_le_two_zpow hS1 (by norm_num)
  have hH := hS.div isNumber_two two_ne_zero (abs_le_of_le (by positivity) hhalf (by norm_num))
  have hH1 := rounded_le_two_zpow (by norm_num) hhalf
  have hH0 : 0 ≤ rounded (rounded (k₀ + k₁ : ℝ) / 2) := rounded_nonneg (by positivity)
  have hproduct := mul_le_two_zpow h.length_nonneg hH1 h.length_le
  have hP := hH.mul h.length (abs_le_of_le (mul_nonneg hH0 h.length_nonneg) hproduct (by norm_num))
  have hP1 := rounded_le_two_zpow (by norm_num) hproduct
  have hP0 := rounded_nonneg (mul_nonneg hH0 h.length_nonneg)
  have hU : 0 < U := lt_of_lt_of_le (by positivity) h.le_timeUnit
  have hquot := div_le_two_zpow hP1 h.le_timeUnit
  have hT := hP.div h.timeUnit hU.ne' (abs_le_of_le (by positivity) hquot (by norm_num))
  exact ⟨_, hT, rounded_nonneg (by positivity), rounded_le_two_zpow (by norm_num) hquot⟩

/-- floats compare as numbers -/
theorem lt_iff {x y : Float} {v w : ℝ} (hx : IsNumber x v) (hy : IsNumber y w) : lt x y = true ↔ v < w :=
  decide_eq_true_iff.trans (hx.lt_iff hy)

theorem le_iff {x y : Float} {v w : ℝ} (hx : IsNumber x v) (hy : IsNumber y w) : le x y = true ↔ v ≤ w :=
  decide_eq_true_iff.trans (hx.le_iff hy)

theorem isNumber_atLeastZero {v : ℝ} (h : IsNumber x v) : IsNumber (atLeastZero x) (max 0 v) := by
  unfold atLeastZero
  split
  case isTrue hlt =>
    rw [lt_iff h isNumber_zero] at hlt
    rw [max_eq_left hlt.le]
    exact isNumber_zero
  case isFalse hle =>
    rw [lt_iff h isNumber_zero, not_lt] at hle
    rwa [max_eq_right hle]

theorem isNumber_within {v : ℝ} (hδ : IsNumber δ D) (hD : 0 ≤ D) (h : IsNumber x v) :
    IsNumber (within δ x) (max 0 (min D v)) := by
  unfold within
  split
  case isTrue hlt =>
    rw [lt_iff h isNumber_zero] at hlt
    rw [max_eq_left ((min_le_right D v).trans hlt.le)]
    exact isNumber_zero
  case isFalse hle =>
    rw [lt_iff h isNumber_zero, not_lt] at hle
    split
    case isTrue hlt =>
      rw [lt_iff hδ h] at hlt
      rwa [min_eq_left hlt.le, max_eq_right hD]
    case isFalse hle' =>
      rw [lt_iff hδ h, not_lt] at hle'
      rwa [min_eq_right hle', max_eq_right hle]

/-- the coefficient of the square: half of the slope of the rate -/
def slope (u r₀ r₁ d : Float) : Float :=
  if lt (RateArithmetic.ofNat 0) d then (r₁ - r₀) / (RateArithmetic.ofNat 2 * d * u) else RateArithmetic.ofNat 0

/-- what the slope is divided by -/
theorem IsStage.exists_divisor (h : IsStage u r₀ r₁ δ U k₀ k₁ D) (hpos : 0 < D) :
    ∃ P, IsNumber (RateArithmetic.ofNat 2 * δ * u) P ∧ 2 ^ (-59 : ℤ) ≤ P ∧ P ≤ 2 ^ (131 : ℤ) := by
  have hlength := h.length_pos.resolve_left hpos.ne'
  have hU : 0 < U := lt_of_lt_of_le (by positivity) h.le_timeUnit
  have htwice : 2 * D ≤ 2 ^ (1 + 65 : ℤ) := mul_le_two_zpow h.length_nonneg (by norm_num) h.length_le
  have htwice' : 2 ^ (1 + -30 : ℤ) ≤ 2 * D := two_zpow_le_mul (by norm_num) hlength
  have hT := isNumber_two.mul h.length (abs_le_of_le (by positivity) htwice (by norm_num))
  have hproduct := mul_le_two_zpow hU.le (rounded_le_two_zpow (by norm_num) htwice) h.timeUnit_le
  have hproduct' := two_zpow_le_mul (two_zpow_le_rounded (by norm_num) htwice') h.le_timeUnit
  have hpos' : 0 ≤ rounded (2 * D) * U := le_trans (by positivity) hproduct'
  have hP := hT.mul h.timeUnit (abs_le_of_le hpos' hproduct (by norm_num))
  exact ⟨_, hP, two_zpow_le_rounded (by norm_num) hproduct', rounded_le_two_zpow (by norm_num) hproduct⟩

/-- this coefficient is a number -/
theorem IsStage.exists_slope (h : IsStage u r₀ r₁ δ U k₀ k₁ D) :
    ∃ s, IsNumber (slope u r₀ r₁ δ) s ∧ |s| ≤ 2 ^ (124 : ℤ) ∧ (s ≤ 0 ∨ 2 ^ (-131 : ℤ) ≤ s) ∧ (k₀ = 0 → 0 ≤ s) := by
  unfold slope
  split
  case isFalse => exact ⟨0, isNumber_zero, by rw [abs_zero]; positivity, .inl le_rfl, fun _ => le_rfl⟩
  case isTrue hpos =>
    rw [lt_iff isNumber_zero h.length] at hpos
    obtain ⟨P, hP, hP1, hP2⟩ := h.exists_divisor hpos
    have hP0 : 0 < P := lt_of_lt_of_le (by positivity) hP1
    have hdiff : |(k₁ : ℝ) - k₀| ≤ 2 ^ (64 : ℤ) :=
      abs_sub_le_iff.2 ⟨(sub_le_self _ (Nat.cast_nonneg _)).trans h.last_le,
        (sub_le_self _ (Nat.cast_nonneg _)).trans h.first_le⟩
    have hN := h.last.sub h.first (le_two_zpow_of_le hdiff (by norm_num))
    have hquot : |rounded (k₁ - k₀ : ℝ) / P| ≤ 2 ^ (64 - -59 : ℤ) := by
      rw [abs_div, abs_of_pos hP0]
      exact div_le_two_zpow (abs_rounded_le (by norm_num) hdiff) hP1
    have hS := hN.div hP hP0.ne' (le_two_zpow_of_le hquot (by norm_num))
    have hS1 : |rounded (rounded (k₁ - k₀ : ℝ) / P)| ≤ 2 ^ (124 : ℤ) :=
      le_two_zpow_of_le (abs_rounded_le (by norm_num) hquot) (by norm_num)
    refine ⟨_, hS, hS1, ?_, fun hfirst => ?_⟩
    · rcases le_or_gt k₁ k₀ with hle | hlt
      · left
        have hneg : (k₁ : ℝ) - k₀ ≤ 0 := sub_nonpos.2 (Nat.cast_le.2 hle)
        exact rounded_nonpos (div_nonpos_of_nonpos_of_nonneg (rounded_nonpos hneg) hP0.le)
      · right
        have hone : 2 ^ (0 : ℤ) ≤ (k₁ : ℝ) - k₀ := by
          rw [zpow_zero, le_sub_iff_add_le']
          exact_mod_cast hlt
        exact two_zpow_le_rounded (by norm_num)
          (two_zpow_le_div (two_zpow_le_rounded (by norm_num) hone) hP0 hP2)
    · rw [hfirst, Nat.cast_zero, sub_zero]
      exact rounded_nonneg (div_nonneg (rounded_nonneg (Nat.cast_nonneg _)) hP0.le)

/-- the coefficients of a stage are numbers: the rate at the start, and four times the coefficient of the square -/
structure Coefficients (k₀ : ℕ) (a b : ℝ) : Prop where
  rate_nonneg : 0 ≤ a
  rate_le : a ≤ 2 ^ (94 : ℤ)
  rate_pos : k₀ = 0 ∧ a = 0 ∨ 2 ^ (-65 : ℤ) ≤ a
  abs_le : |b| ≤ 2 ^ (126 : ℤ)
  rising : b ≤ 0 ∨ 2 ^ (-129 : ℤ) ≤ b
  nonneg : k₀ = 0 → 0 ≤ b

/-- a root above zero is none of the least floats -/
theorem Coefficients.le_rootOf (h : Coefficients k₀ a b) (hm : m ≤ 0 ∨ 2 ^ (-53 : ℤ) ≤ m) (hroot : 0 < rootOf a b m) :
    2 ^ (-91 : ℤ) ≤ rootOf a b m := by
  rcases h.rate_pos with ⟨hfirst, rfl⟩ | hpos
  · have hzero (hdisc : discriminant 0 b m ≤ 0) : False := by
      rw [rootOf, max_eq_left hdisc, Real.sqrt_zero, rounded_zero, add_zero, rounded_zero] at hroot
      exact lt_irrefl _ hroot
    have hdisc (hproduct : b * m ≤ 0) : discriminant 0 b m ≤ 0 := by
      rw [discriminant, mul_zero, rounded_zero, zero_add]
      exact rounded_nonpos (rounded_nonpos hproduct)
    rcases hm with hm | hm
    · exact (hzero (hdisc (mul_nonpos_of_nonneg_of_nonpos (h.nonneg hfirst) hm))).elim
    · rcases h.rising with hb | hb
      · exact (hzero (hdisc (mul_nonpos_of_nonpos_of_nonneg hb (le_trans (by positivity) hm)))).elim
      · exact (⟨hb, hm⟩ : Rises b m).le_rootOf le_rfl
  · have hsqrt := rounded_nonneg (Real.sqrt_nonneg (max 0 (discriminant a b m)))
    have hlow : (2 : ℝ) ^ (-91 : ℤ) ≤ 2 ^ (-65 : ℤ) := zpow_le_zpow_right₀ one_le_two (by norm_num)
    exact two_zpow_le_rounded (by norm_num) (by linarith)

/-- the coefficients are rounded numbers -/
theorem IsStage.coefficients (h : IsStage u r₀ r₁ δ U k₀ k₁ D) {s : ℝ} (hs : |s| ≤ 2 ^ (124 : ℤ))
    (hrising : s ≤ 0 ∨ 2 ^ (-131 : ℤ) ≤ s) (hnonneg : k₀ = 0 → 0 ≤ s) :
    Coefficients k₀ (rounded (k₀ / U)) (rounded (4 * s)) := by
  have hU : 0 < U := lt_of_lt_of_le (by positivity) h.le_timeUnit
  constructor
  case rate_nonneg => exact rounded_nonneg (by positivity)
  case rate_le => exact rounded_le_two_zpow (by norm_num) (div_le_two_zpow h.first_le h.le_timeUnit)
  case rate_pos =>
    rcases k₀.eq_zero_or_pos with hzero | hpos
    · left
      rw [hzero, Nat.cast_zero, zero_div, rounded_zero]
      exact ⟨rfl, rfl⟩
    · right
      have hone : 2 ^ (0 : ℤ) ≤ (k₀ : ℝ) := by
        rw [zpow_zero]
        exact_mod_cast hpos
      exact two_zpow_le_rounded (by norm_num) (two_zpow_le_div hone hU h.timeUnit_le)
  case abs_le =>
    refine abs_rounded_le (by norm_num) ?_
    rw [abs_mul, abs_of_pos four_pos]
    exact mul_le_two_zpow (abs_nonneg s) (by norm_num : (4 : ℝ) ≤ 2 ^ (2 : ℤ)) hs
  case rising =>
    rcases hrising with hs | hs
    · exact .inl (rounded_nonpos (by linarith))
    · right
      exact two_zpow_le_rounded (by norm_num) (two_zpow_le_mul (by norm_num : (2 : ℝ) ^ (2 : ℤ) ≤ 4) hs)
  case nonneg => exact fun hzero => rounded_nonneg (mul_nonneg four_pos.le (hnonneg hzero))

/-- the root is computed from numbers that are not too large -/
theorem Coefficients.isNumber_root (h : Coefficients k₀ a b) {f g : Float} (hf : IsNumber f a) (hg : IsNumber g b)
    (hx : IsNumber x m) (hm : |m| ≤ 2 ^ (217 : ℤ)) :
    IsNumber (f + sqrt (atLeastZero (f * f + g * x))) (rootOf a b m) := by
  have hsquare := mul_le_two_zpow h.rate_nonneg h.rate_le h.rate_le
  have hproduct : |b * m| ≤ 2 ^ (126 + 217 : ℤ) := by
    rw [abs_mul]
    exact mul_le_two_zpow (abs_nonneg m) h.abs_le hm
  have hQ := hf.mul hf (abs_le_of_le (mul_self_nonneg a) hsquare (by norm_num))
  have hP := hg.mul hx (le_two_zpow_of_le hproduct (by norm_num))
  have hsum : |rounded (a * a) + rounded (b * m)| ≤ 2 ^ (343 + 1 : ℤ) := by
    have hQ1 := abs_of_nonneg (rounded_nonneg (mul_self_nonneg a))
    refine (abs_add_le _ _).trans (add_le_two_zpow ?_ (abs_rounded_le (by norm_num) hproduct))
    rw [hQ1]
    exact le_two_zpow_of_le (rounded_le_two_zpow (by norm_num) hsquare) (by norm_num)
  have hD := hQ.add hP (le_two_zpow_of_le hsum (by norm_num))
  have hZ := isNumber_atLeastZero hD
  have hsqrt : √(max 0 (discriminant a b m)) ≤ 2 ^ (172 : ℤ) := by
    rw [Real.sqrt_le_left (by positivity), sq, ← zpow_add₀ two_ne_zero]
    exact max_le (by positivity) ((le_abs_self _).trans (abs_rounded_le (by norm_num) hsum))
  have hS := hZ.sqrt (le_max_left _ _) (le_two_zpow_of_le hsqrt (by norm_num))
  have hS0 := rounded_nonneg (Real.sqrt_nonneg (max 0 (discriminant a b m)))
  have hroot : a + rounded √(max 0 (discriminant a b m)) ≤ 2 ^ (172 + 1 : ℤ) :=
    add_le_two_zpow (le_two_zpow_of_le h.rate_le (by norm_num))
      (rounded_le_two_zpow (by norm_num) hsqrt)
  exact hf.add hS (abs_le_of_le (add_nonneg h.rate_nonneg hS0) hroot (by norm_num))

/-- **What is computed in floats**: the coefficients are numbers of the stage alone, and the time is the root. -/
theorem IsStage.exists_coefficients (h : IsStage u r₀ r₁ δ U k₀ k₁ D) :
    ∃ a b, Coefficients k₀ a b ∧
      ∀ {x t : Float} {m : ℝ}, IsNumber x m → |m| ≤ 2 ^ (217 : ℤ) → (m ≤ 0 ∨ 2 ^ (-53 : ℤ) ≤ m) →
        timeWithin? u r₀ r₁ δ x = some t → 0 < rootOf a b m ∧ IsNumber t (timeOf a b D m) := by
  obtain ⟨s, hs, hs1, hs2, hs3⟩ := h.exists_slope
  have hc := h.coefficients hs1 hs2 hs3
  have hU : 0 < U := lt_of_lt_of_le (by positivity) h.le_timeUnit
  have hf := h.first.div h.timeUnit hU.ne' (abs_le_of_le (by positivity)
    (div_le_two_zpow h.first_le h.le_timeUnit) (by norm_num))
  have hfour : |4 * s| ≤ 2 ^ (2 + 124 : ℤ) := by
    rw [abs_mul, abs_of_pos four_pos]
    exact mul_le_two_zpow (abs_nonneg s) (by norm_num) hs1
  refine ⟨_, _, hc, fun {x t m} hx hm hgrid htime => ?_⟩
  unfold timeWithin? at htime
  dsimp only at htime
  rw [← slope] at htime
  generalize slope u r₀ r₁ δ = g at hs htime
  have hg := isNumber_four.mul hs (le_two_zpow_of_le hfour (by norm_num))
  have hroot := hc.isNumber_root hf hg hx hm
  split at htime
  case isFalse => cases htime
  case isTrue =>
    split at htime
    case isFalse => cases htime
    case isTrue hpos =>
      cases htime
      rw [lt_iff isNumber_zero hroot] at hpos
      have hlow := hc.le_rootOf hgrid hpos
      have htwice : |2 * m| ≤ 2 ^ (1 + 217 : ℤ) := by
        rw [abs_mul, abs_of_pos two_pos]
        exact mul_le_two_zpow (abs_nonneg m) (by norm_num) hm
      have hT := isNumber_two.mul hx (le_two_zpow_of_le htwice (by norm_num))
      have hquot : |rounded (2 * m) / rootOf (rounded (k₀ / U)) (rounded (4 * s)) m| ≤ 2 ^ (1 + 217 - -91 : ℤ) := by
        rw [abs_div, abs_of_pos hpos]
        exact div_le_two_zpow (abs_rounded_le (by norm_num) htwice) hlow
      have hQ := hT.div hroot hpos.ne' (le_two_zpow_of_le hquot (by norm_num))
      rw [timeOf_eq]
      exact ⟨hpos, isNumber_within h.length h.length_nonneg hQ⟩

end LoadGen.RampingArrivals
