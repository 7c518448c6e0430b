/-
The rate of a ramp and its integral, in exact arithmetic: numbers are real, and so are spans of time. The integral is
that of the rate as a function of time, not a sum over stages; what a stage adds to it is derived.

- `rateAt`: the rate, linear in every stage.
- `arrivalsBy`: its integral, the arrivals up to an instant.
- `arrivalsIn`: the arrivals in one stage, a quadratic.
- `arrivalsBy_within`, `arrivalsBy_add`: the integral within the first stage, and past it.
- `arrivalsBy_mono`, `continuous_arrivalsBy`: no arrivals are taken back, and none come at once.
-/
import Mathlib.Analysis.Calculus.Deriv.Mul
import Mathlib.Analysis.Calculus.Deriv.Pow
import Mathlib.MeasureTheory.Integral.IntervalIntegral.FundThmCalculus
import LoadGen.Arrival.Ramping

namespace LoadGen

/-- a length of time in seconds, with nothing rounded off -/
noncomputable def Duration.seconds (d : Duration) : ℝ :=
  d.nanos / nanosPerSec

theorem Duration.seconds_nonneg (d : Duration) : 0 ≤ d.seconds :=
  div_nonneg (Nat.cast_nonneg _) (Nat.cast_nonneg _)

theorem Duration.seconds_pos {d : Duration} (h : 0 < d.nanos) : 0 < d.seconds := by
  have hnanos : (0 : ℝ) < d.nanos := Nat.cast_pos.2 h
  have hsec : (0 : ℝ) < nanosPerSec := Nat.cast_pos.2 (by decide)
  exact div_pos hnanos hsec

theorem Duration.seconds_ofSecs {n : Nat} (h : n * nanosPerSec ≤ maxNanos) : (Duration.ofSecs n).seconds = n := by
  have hsec : (nanosPerSec : ℝ) ≠ 0 := Nat.cast_ne_zero.2 (by decide)
  have hnanos : (Duration.ofSecs n).nanos = n * nanosPerSec := Nat.min_eq_left h
  rw [seconds, hnanos, Nat.cast_mul, mul_div_cancel_right₀ _ hsec]

/-- exact numbers: no operation rounds, and every number of seconds from zero on is a span -/
noncomputable instance : RateArithmetic ℝ ℝ where
  ofNat := Nat.cast
  sqrt := Real.sqrt
  le := fun x y => x ≤ y
  lt := fun x y => x < y
  slack := 1 / 10 ^ 9
  ofDuration := Duration.seconds
  toSpan? := fun x => if 0 ≤ x then some x else none
  isOver := fun total offset => total.seconds ≤ offset

namespace RateArithmetic

@[simp] theorem ofNat_real (n : Nat) : (ofNat n : ℝ) = n := rfl

@[simp] theorem sqrt_real (x : ℝ) : sqrt x = √x := rfl

@[simp] theorem le_real {x y : ℝ} : le x y = true ↔ x ≤ y := decide_eq_true_iff

@[simp] theorem lt_real {x y : ℝ} : lt x y = true ↔ x < y := decide_eq_true_iff

@[simp] theorem ofDuration_real (d : Duration) : (ofDuration d : ℝ) = d.seconds := rfl

theorem toSpan?_real {x : ℝ} (h : 0 ≤ x) : toSpan? x = some x := if_pos h

theorem isOver_real {d : Duration} {x : ℝ} : isOver ℝ d x = true ↔ d.seconds ≤ x := decide_eq_true_iff

theorem slack_real : (slack : ℝ) = 1 / 10 ^ 9 := rfl

theorem slack_pos : 0 < (slack : ℝ) := by
  rw [slack_real]; positivity

end RateArithmetic

namespace RampingArrivals

open RateArithmetic MeasureTheory Set

/-- arrivals per second, `x` seconds after some stages began at rate `r₀`; after the last stage the rate stays -/
noncomputable def rateAt (u r₀ : ℝ) : List Stage → ℝ → ℝ
  | [], _ => r₀ / u
  | s :: rest, x =>
    if x ≤ s.duration.seconds then (r₀ + (s.target - r₀) * (x / s.duration.seconds)) / u
    else rateAt u s.target rest (x - s.duration.seconds)

/-- arrivals in the first `t` seconds, as an integral -/
noncomputable def arrivalsBy (u r₀ : ℝ) (stages : List Stage) (t : ℝ) : ℝ :=
  ∫ x in (0 : ℝ)..t, rateAt u r₀ stages x

/-- arrivals in the first `t` seconds of a stage, if the rate is `a` at its start and `a + 2 b t` then -/
noncomputable def curve (a b t : ℝ) : ℝ :=
  a * t + b * t ^ 2

/-- the same in a stage of `d` seconds from rate `r₀` to `r₁` -/
noncomputable def arrivalsIn (u r₀ r₁ d : ℝ) : ℝ → ℝ :=
  curve (r₀ / u) ((r₁ - r₀) / (2 * d * u))

variable {u r₀ t x y : ℝ} {s : Stage} {stages rest : List Stage}

/-- what a stage adds are the arrivals at its end -/
theorem stageTotal_eq (hu : 0 < u) (hd : 0 < x) (r₀ r₁ : ℝ) : stageTotal u r₀ r₁ x = arrivalsIn u r₀ r₁ x x := by
  rw [stageTotal, ofNat_real, Nat.cast_ofNat, arrivalsIn, curve]
  field_simp
  ring

/-! ## The rate -/

theorem rateAt_within (h : x ≤ s.duration.seconds) :
    rateAt u r₀ (s :: rest) x = (r₀ + (s.target - r₀) * (x / s.duration.seconds)) / u :=
  if_pos h

theorem rateAt_past (h : s.duration.seconds < x) :
    rateAt u r₀ (s :: rest) x = rateAt u s.target rest (x - s.duration.seconds) :=
  if_neg (not_le.2 h)

theorem rateAt_zero (h : ∀ s ∈ stages, 0 < s.duration.nanos) : rateAt u r₀ stages 0 = r₀ / u := by
  cases stages with
  | nil => rfl
  | cons s rest =>
    have hd := Duration.seconds_pos (h s List.mem_cons_self)
    rw [rateAt_within hd.le, zero_div, mul_zero, add_zero]

/-- at the end of a stage the next one starts from its target -/
theorem rateAt_end (u r₀ : ℝ) (h : ∀ s' ∈ s :: rest, 0 < s'.duration.nanos) :
    rateAt u r₀ (s :: rest) s.duration.seconds = rateAt u s.target rest 0 := by
  have hd := Duration.seconds_pos (h s List.mem_cons_self)
  rw [rateAt_within le_rfl, rateAt_zero fun s' hs' => h s' (List.mem_cons_of_mem s hs'), div_self hd.ne', mul_one,
    add_sub_cancel]

theorem continuous_rateAt (h : ∀ s ∈ stages, 0 < s.duration.nanos) : Continuous (rateAt u r₀ stages) := by
  induction stages generalizing r₀ with
  | nil => exact continuous_const
  | cons s rest ih =>
    have hrest : ∀ s' ∈ rest, 0 < s'.duration.nanos := fun s' hs' => h s' (List.mem_cons_of_mem s hs')
    have hlinear : Continuous fun x => (r₀ + (s.target - r₀) * (x / s.duration.seconds)) / u := by fun_prop
    have hlater : Continuous fun x => rateAt u s.target rest (x - s.duration.seconds) :=
      (ih hrest).comp (continuous_id.sub continuous_const)
    refine hlinear.if_le hlater continuous_id continuous_const fun x hx => ?_
    have hend := rateAt_end u r₀ h
    rw [rateAt_within le_rfl] at hend
    rw [show x = s.duration.seconds from hx, hend, sub_self]

theorem rateAt_nonneg (hu : 0 < u) (hr : 0 ≤ r₀) (h : ∀ s ∈ stages, 0 < s.duration.nanos) (hx : 0 ≤ x) :
    0 ≤ rateAt u r₀ stages x := by
  induction stages generalizing r₀ x with
  | nil => exact div_nonneg hr hu.le
  | cons s rest ih =>
    have hd := Duration.seconds_pos (h s List.mem_cons_self)
    rcases le_or_gt x s.duration.seconds with hle | hlt
    · -- between two rates, neither of them negative
      have hshare : x / s.duration.seconds ≤ 1 := (div_le_one hd).2 hle
      have hbetween : r₀ + (s.target - r₀) * (x / s.duration.seconds) =
          r₀ * (1 - x / s.duration.seconds) + s.target * (x / s.duration.seconds) := by ring
      rw [rateAt_within hle, hbetween]
      have hrest : 0 ≤ 1 - x / s.duration.seconds := sub_nonneg.2 hshare
      positivity
    · rw [rateAt_past hlt]
      exact ih (Nat.cast_nonneg _) (fun s' hs' => h s' (List.mem_cons_of_mem s hs')) (sub_nonneg.2 hlt.le)

/-! ## Its integral -/

theorem arrivalsBy_zero (u r₀ : ℝ) (stages : List Stage) : arrivalsBy u r₀ stages 0 = 0 :=
  intervalIntegral.integral_same

theorem continuous_arrivalsBy (h : ∀ s ∈ stages, 0 < s.duration.nanos) : Continuous (arrivalsBy u r₀ stages) :=
  intervalIntegral.continuous_primitive (fun x y => (continuous_rateAt h).intervalIntegrable x y) 0

theorem arrivalsBy_mono (hu : 0 < u) (hr : 0 ≤ r₀) (h : ∀ s ∈ stages, 0 < s.duration.nanos) (hx : 0 ≤ x)
    (hxy : x ≤ y) : arrivalsBy u r₀ stages x ≤ arrivalsBy u r₀ stages y := by
  have hint (x y : ℝ) : IntervalIntegrable (rateAt u r₀ stages) volume x y :=
    (continuous_rateAt h).intervalIntegrable x y
  have hsplit : arrivalsBy u r₀ stages x + ∫ z in x..y, rateAt u r₀ stages z = arrivalsBy u r₀ stages y :=
    intervalIntegral.integral_add_adjacent_intervals (hint 0 x) (hint x y)
  have hmore : 0 ≤ ∫ z in x..y, rateAt u r₀ stages z :=
    intervalIntegral.integral_nonneg hxy fun z hz => rateAt_nonneg hu hr h (hx.trans hz.1)
  linarith

/-- **Within the first stage** the integral of the linear rate is quadratic -/
theorem arrivalsBy_within (h : ∀ s' ∈ s :: rest, 0 < s'.duration.nanos) (ht : 0 ≤ t) (htd : t ≤ s.duration.seconds) :
    arrivalsBy u r₀ (s :: rest) t = arrivalsIn u r₀ s.target s.duration.seconds t := by
  have hderiv : ∀ x ∈ uIcc 0 t,
      HasDerivAt (arrivalsIn u r₀ s.target s.duration.seconds) (rateAt u r₀ (s :: rest) x) x := by
    intro x hx
    rw [uIcc_of_le ht] at hx
    rw [rateAt_within (hx.2.trans htd)]
    have hlinear := HasDerivAt.const_mul (r₀ / u) (hasDerivAt_id x)
    have hsquare := HasDerivAt.const_mul ((s.target - r₀) / (2 * s.duration.seconds * u)) (hasDerivAt_pow 2 x)
    refine HasDerivAt.congr_deriv (hlinear.add hsquare) ?_
    field_simp
    ring
  rw [arrivalsBy, intervalIntegral.integral_eq_sub_of_hasDerivAt hderiv ((continuous_rateAt h).intervalIntegrable 0 t)]
  rw [arrivalsIn, curve, curve]
  ring

/-- **Past the first stage** comes what the stage adds, and the integral of the others -/
theorem arrivalsBy_add (hu : 0 < u) (h : ∀ s' ∈ s :: rest, 0 < s'.duration.nanos) (ht : 0 ≤ t) :
    arrivalsBy u r₀ (s :: rest) (s.duration.seconds + t) =
      stageTotal u r₀ s.target s.duration.seconds + arrivalsBy u s.target rest t := by
  have hd := Duration.seconds_pos (h s List.mem_cons_self)
  have hint (x y : ℝ) : IntervalIntegrable (rateAt u r₀ (s :: rest)) volume x y :=
    (continuous_rateAt h).intervalIntegrable x y
  have hfirst : arrivalsBy u r₀ (s :: rest) s.duration.seconds = stageTotal u r₀ s.target s.duration.seconds := by
    rw [arrivalsBy_within h hd.le le_rfl, stageTotal_eq hu hd]
  have hlater : ∫ x in s.duration.seconds..s.duration.seconds + t, rateAt u r₀ (s :: rest) x =
      arrivalsBy u s.target rest t := by
    have hcongr : EqOn (rateAt u r₀ (s :: rest)) (fun x => rateAt u s.target rest (x - s.duration.seconds))
        (uIcc s.duration.seconds (s.duration.seconds + t)) := by
      intro x hx
      rw [uIcc_of_le (le_add_of_nonneg_right ht)] at hx
      rcases hx.1.eq_or_lt with rfl | hlt
      · simp only [rateAt_end u r₀ h, sub_self]
      · exact rateAt_past hlt
    rw [intervalIntegral.integral_congr hcongr, intervalIntegral.integral_comp_sub_right, sub_self, add_sub_cancel_left,
      arrivalsBy]
  rw [← hfirst, ← hlater]
  exact (intervalIntegral.integral_add_adjacent_intervals (hint 0 _) (hint _ _)).symm

end RampingArrivals

end LoadGen
