/-
One stage of a ramp in exact arithmetic. Arrivals in its first `t` seconds are `a t + b t²`, with `a` the rate at the
start and `a + 2 b d` the one at the end. The root that is computed is the first instant with `m` arrivals, also where
the rate falls and the parabola would come down again after the end. Where the end of the stage misses `m`, but not by
more than the slack, the root is after the end, or there is none, and the time found is the end.

- `IsRoot`: the root, with the facts that it is computed from. The rate at it is the square root of the discriminant
  (`rate_eq`), so it has `m` arrivals (`curve_eq`), and no instant before it has (`curve_lt`).
- `end_le_of_miss`: where the end of the stage misses `m`.
- `timeWithin?_eq_none`, `timeWithin?_eq_some`: whether a time is found in a stage, and which one.
-/
import LoadGen.Proofs.Arrival.Integral

namespace LoadGen.RampingArrivals

open RateArithmetic Set

/-- `x` is the smaller root of `a t + b t² = m`, with `s` for the square root of the discriminant -/
structure IsRoot (a b m s x : ℝ) : Prop where
  sqrt_nonneg : 0 ≤ s
  sqrt_sq : s * s = a * a + 4 * b * m
  denominator_pos : 0 < a + s
  mul_eq : x * (a + s) = 2 * m

variable {a b d m s t t' x : ℝ}

theorem curve_sub (a b t t' : ℝ) : curve a b t' - curve a b t = (t' - t) * (a + b * (t + t')) := by
  rw [curve, curve]; ring

/-- while the rate is not negative, arrivals do not become fewer -/
theorem curve_mono (ha : 0 ≤ a) (hend : 0 ≤ a + 2 * b * d) (ht : 0 ≤ t) (htt' : t ≤ t') (ht' : t' ≤ d) :
    curve a b t ≤ curve a b t' := by
  have hrate : 0 ≤ a + b * (t + t') := by
    rcases le_total 0 b with hb | hb
    · have hsum : 0 ≤ t + t' := by linarith
      positivity
    · have hlater : b * (2 * d) ≤ b * (t + t') := mul_le_mul_of_nonpos_left (by linarith) hb
      linarith
  have hmore := mul_nonneg (sub_nonneg.2 htt') hrate
  rw [← curve_sub] at hmore
  exact sub_nonneg.1 hmore

/-! ## The root -/

/-- the rate at the root is the square root that it is computed with -/
theorem IsRoot.rate_eq (h : IsRoot a b m s x) : a + 2 * b * x = s := by
  have hscaled : (a + 2 * b * x) * (a + s) = s * (a + s) :=
    calc (a + 2 * b * x) * (a + s) = a * a + a * s + 2 * b * (x * (a + s)) := by ring
      _ = a * a + a * s + 2 * b * (2 * m) := by rw [h.mul_eq]
      _ = s * s + a * s := by rw [h.sqrt_sq]; ring
      _ = s * (a + s) := by ring
  exact mul_right_cancel₀ h.denominator_pos.ne' hscaled

theorem IsRoot.curve_eq (h : IsRoot a b m s x) : curve a b x = m := by
  have hmean : 2 * curve a b x = x * (a + (a + 2 * b * x)) := by rw [curve]; ring
  rw [h.rate_eq, h.mul_eq] at hmean
  linarith

theorem IsRoot.nonneg (h : IsRoot a b m s x) (hm : 0 ≤ m) : 0 ≤ x := by
  have hscaled : 0 ≤ x * (a + s) := by rw [h.mul_eq]; linarith
  exact nonneg_of_mul_nonneg_left hscaled h.denominator_pos

/-- before the root there are fewer arrivals: the rate up to it is positive, as it rises from zero or falls to it -/
theorem IsRoot.curve_lt (h : IsRoot a b m s x) (ht : 0 ≤ t) (hlt : t < x) : curve a b t < m := by
  have hrate := h.rate_eq
  have hden := h.denominator_pos
  have hpos : 0 < a + b * (t + x) := by
    rcases le_or_gt 0 b with hb | hb
    · have hsofar : 0 ≤ b * t := mul_nonneg hb ht
      linarith
    · have hfalling : b * (2 * x) < b * (t + x) := mul_lt_mul_of_neg_left (by linarith) hb
      have hend := h.sqrt_nonneg
      linarith
  have hmore := mul_pos (sub_pos.2 hlt) hpos
  rw [← curve_sub, h.curve_eq] at hmore
  exact sub_pos.1 hmore

/-- a stage with `m` arrivals has a root -/
theorem disc_nonneg (hm : 0 ≤ m) (hle : m ≤ curve a b d) : 0 ≤ a * a + 4 * b * m := by
  rcases le_or_gt 0 b with hb | hb
  · have hfirst := mul_self_nonneg a
    have hmore := mul_nonneg hb hm
    linarith
  · have hsquare : 0 ≤ (a + 2 * b * d) * (a + 2 * b * d) := mul_self_nonneg _
    have hscaled : b * curve a b d ≤ b * m := mul_le_mul_of_nonpos_left hle hb.le
    rw [curve] at hscaled
    linarith

/-- a stage with any arrivals at all has a positive rate at its start, or a rising one -/
theorem denominator_pos (ha : 0 ≤ a) (hm : 0 < m) (hsome : 0 < curve a b d) :
    0 < a + √(max (a * a + 4 * b * m) 0) := by
  rcases ha.eq_or_lt with rfl | ha
  · have hb : 0 < b := by
      by_contra hb
      have hnone : b * d ^ 2 ≤ 0 := mul_nonpos_of_nonpos_of_nonneg (not_lt.1 hb) (sq_nonneg d)
      rw [curve] at hsome
      linarith
    have hdisc : 0 < max (0 * 0 + 4 * b * m) 0 := lt_max_of_lt_left (by positivity)
    have hsqrt := Real.sqrt_pos.2 hdisc
    linarith
  · have hsqrt := Real.sqrt_nonneg (max (a * a + 4 * b * m) 0)
    linarith

/-- where the discriminant is not negative, what is computed is the root -/
theorem isRoot_of_disc_nonneg (hdisc : 0 ≤ a * a + 4 * b * m) (hden : 0 < a + √(max (a * a + 4 * b * m) 0))
    (hx : x * (a + √(max (a * a + 4 * b * m) 0)) = 2 * m) : IsRoot a b m (√(a * a + 4 * b * m)) x := by
  rw [max_eq_left hdisc] at hden hx
  exact ⟨Real.sqrt_nonneg _, Real.mul_self_sqrt hdisc, hden, hx⟩

/-- what is computed for a stage that misses `m` arrivals is not before the end, also where there is no root and the
discriminant is cut at zero -/
theorem end_le_of_miss (ha : 0 ≤ a) (hend : 0 ≤ a + 2 * b * d) (hm : 0 < m)
    (hden : 0 < a + √(max (a * a + 4 * b * m) 0)) (hx : x * (a + √(max (a * a + 4 * b * m) 0)) = 2 * m)
    (hmiss : curve a b d < m) : d ≤ x := by
  rcases le_or_gt 0 (a * a + 4 * b * m) with hdisc | hdisc
  · have hroot := isRoot_of_disc_nonneg hdisc hden hx
    by_contra hlt
    have hle := curve_mono ha hend (hroot.nonneg hm.le) (not_le.1 hlt).le le_rfl
    rw [hroot.curve_eq] at hle
    exact hle.not_gt hmiss
  · rw [max_eq_right hdisc.le, Real.sqrt_zero, add_zero] at hden hx
    have hb : b < 0 := by
      by_contra hb
      have hfirst := mul_self_nonneg a
      have hmore := mul_nonneg (not_lt.1 hb) hm.le
      linarith
    -- the rate is not negative at the end, so the parabola turns no earlier, and there it is still below `m`
    have hturn := mul_nonneg ha hend
    have hscaled : d * a ≤ x * a := by
      by_contra hlt
      have hfalling := mul_lt_mul_of_neg_left (not_le.1 hlt) hb
      rw [hx] at hfalling
      linarith
    exact le_of_mul_le_mul_right hscaled hden

/-! ## The time that is found -/

/-- `t` is the first time in a stage of `d` seconds that counts as having `m` arrivals, if there are `arrivals t` in the
first `t` -/
structure FirstIn (arrivals : ℝ → ℝ) (d m t : ℝ) : Prop where
  nonneg : 0 ≤ t
  le_end : t ≤ d
  before : ∀ t', 0 ≤ t' → t' < t → arrivals t' < m
  /-- there are `m` arrivals, or the slack makes up for the rest at the end -/
  reached : m ≤ arrivals t ∨ t = d ∧ m ≤ arrivals t + slack

/-- the root, or the end of the stage if that is earlier -/
theorem firstIn_min (ha : 0 ≤ a) (hend : 0 ≤ a + 2 * b * d) (hd : 0 < d) (hm : 0 < m)
    (hden : 0 < a + √(max (a * a + 4 * b * m) 0)) (hx : x * (a + √(max (a * a + 4 * b * m) 0)) = 2 * m)
    (hle : m ≤ curve a b d + slack) : FirstIn (curve a b) d m (min x d) := by
  rcases lt_or_ge (curve a b d) m with hmiss | hmany
  · rw [min_eq_right (end_le_of_miss ha hend hm hden hx hmiss)]
    constructor
    case nonneg => exact hd.le
    case le_end => exact le_rfl
    case before => exact fun t' ht' hlt => (curve_mono ha hend ht' hlt.le le_rfl).trans_lt hmiss
    case reached => exact .inr ⟨rfl, hle⟩
  · have hroot := isRoot_of_disc_nonneg (disc_nonneg hm.le hmany) hden hx
    have hwithin : x ≤ d := not_lt.1 fun hlt => (hroot.curve_lt hd.le hlt).not_ge hmany
    rw [min_eq_left hwithin]
    constructor
    case nonneg => exact hroot.nonneg hm.le
    case le_end => exact hwithin
    case before => exact fun t' ht' hlt => hroot.curve_lt ht' hlt
    case reached => exact .inl hroot.curve_eq.ge

theorem within_eq_min (ht : 0 ≤ t) : within d t = min t d := by
  rw [within, if_neg (by simpa using ht)]
  split
  case isTrue hlt => exact (min_eq_right (lt_real.1 hlt).le).symm
  case isFalse hle => exact (min_eq_left (not_lt.1 fun hlt => hle (lt_real.2 hlt))).symm

theorem atLeastZero_eq_max (x : ℝ) : atLeastZero x = max x 0 := by
  rw [atLeastZero, ofNat_real, Nat.cast_zero]
  split
  case isTrue hlt => exact (max_eq_right (lt_real.1 hlt).le).symm
  case isFalse hle => exact (max_eq_left (not_lt.1 fun hlt => hle (lt_real.2 hlt))).symm

variable {u r₀ r₁ : ℝ}

theorem timeWithin?_eq_none (h : stageTotal u r₀ r₁ d + slack < m) : timeWithin? u r₀ r₁ d m = none := by
  rw [timeWithin?, if_neg]
  rw [le_real]
  exact not_le.2 h

/-- **The time that is found in a stage**, and that one is found: no slack is so large that a stage without arrivals
would count -/
theorem timeWithin?_eq_some (hu : 0 < u) (hr₀ : 0 ≤ r₀) (hr₁ : 0 ≤ r₁) (hd : 0 < d) (hm : slack < m)
    (hle : m ≤ stageTotal u r₀ r₁ d + slack) :
    ∃ t, timeWithin? u r₀ r₁ d m = some t ∧ FirstIn (arrivalsIn u r₀ r₁ d) d m t := by
  have hrate : r₀ / u + 2 * ((r₁ - r₀) / (2 * d * u)) * d = r₁ / u := by field_simp; ring
  have hstart : 0 ≤ r₀ / u := div_nonneg hr₀ hu.le
  have hend : 0 ≤ r₀ / u + 2 * ((r₁ - r₀) / (2 * d * u)) * d := hrate ▸ div_nonneg hr₁ hu.le
  have hpos : 0 < m := slack_pos.trans hm
  have htotal := stageTotal_eq hu hd r₀ r₁
  have hguard : le m (stageTotal u r₀ r₁ d + slack) = true := le_real.2 hle
  have hsome : 0 < arrivalsIn u r₀ r₁ d d := by
    rw [← htotal]
    exact pos_of_lt_add_left (hm.trans_le hle)
  rw [htotal] at hle
  rw [arrivalsIn] at hsome hle ⊢
  simp only [timeWithin?, hguard, if_true, ofNat_real, sqrt_real, Nat.cast_ofNat, Nat.cast_zero, lt_real, hd,
    atLeastZero_eq_max]
  generalize r₀ / u = a at *
  generalize (r₁ - r₀) / (2 * d * u) = b at *
  have hden := denominator_pos hstart hpos hsome
  have hroot : 0 ≤ 2 * m / (a + √(max (a * a + 4 * b * m) 0)) := div_nonneg (by linarith) hden.le
  rw [if_pos hden, within_eq_min hroot]
  exact ⟨_, rfl, firstIn_min hstart hend hd hpos hden (div_mul_cancel₀ _ hden.ne') hle⟩

end LoadGen.RampingArrivals
