/-
Rounding as floats do it: to the nearest number of 53 bits and a power of two that is at least `2 ^ -1074`, the even one
of two. How large a power of two may be is left open.

- `halfEven`: the nearest integer; `roundHalfEven_eq`: of a fraction it is the one that whole numbers are rounded with.
- `rounded`: the nearest of those numbers. `rounded_of_grid`: they stay what they are.
- `rounded_mono`: rounding keeps the order, so a bound of 53 bits stays a bound.
- `abs_rounded_sub_le`: what rounding changes is small beside the number.
- `rounded_le_of_lt`: what is added to a power of two is lost if it is below half of the last place.
-/
import Mathlib.Algebra.Order.Archimedean.Real.Basic
import Mathlib.Algebra.Order.Field.Power
import Mathlib.Algebra.Order.Floor.Semifield
import Mathlib.Data.Int.Log
import Mathlib.Tactic.FieldSimp
import Mathlib.Tactic.Linarith
import LoadGen.Decimal.Magnitude

namespace LoadGen.Decimal

noncomputable section

/-! ## To an integer -/

/-- the integer nearest to a number that is not negative, the even one of two -/
def halfEven (x : ℝ) : ℕ :=
  if x - ⌊x⌋₊ < ⌊x⌋₊ + 1 - x then ⌊x⌋₊
  else if x - ⌊x⌋₊ = ⌊x⌋₊ + 1 - x then ⌊x⌋₊ + ⌊x⌋₊ % 2
  else ⌊x⌋₊ + 1

variable {x y : ℝ} {n : ℕ}

theorem floor_eq_of_lt (hn : n ≤ x) (hlt : x < n + 1) : ⌊x⌋₊ = n :=
  (Nat.floor_eq_iff (n.cast_nonneg.trans hn)).2 ⟨hn, hlt⟩

theorem halfEven_of_lt (hn : n ≤ x) (hlt : x < n + 1 / 2) : halfEven x = n := by
  rw [halfEven, floor_eq_of_lt hn (by linarith), if_pos (by linarith)]

theorem halfEven_of_eq (h : x = n + 1 / 2) : halfEven x = n + n % 2 := by
  rw [halfEven, floor_eq_of_lt (by linarith) (by linarith), if_neg (by linarith), if_pos (by linarith)]

theorem halfEven_of_gt (hlt : n + 1 / 2 < x) (hn : x < n + 1) : halfEven x = n + 1 := by
  rw [halfEven, floor_eq_of_lt (by linarith) hn, if_neg (by linarith), if_neg (by linarith)]

theorem halfEven_natCast (n : ℕ) : halfEven n = n :=
  halfEven_of_lt (le_refl _) (by linarith)

@[simp]
theorem halfEven_zero : halfEven 0 = 0 := by
  rw [← Nat.cast_zero, halfEven_natCast]

theorem halfEven_bounds (x : ℝ) : ⌊x⌋₊ ≤ halfEven x ∧ halfEven x ≤ ⌊x⌋₊ + 1 := by
  unfold halfEven
  split_ifs <;> omega

/-- rounding to an integer keeps the order -/
theorem halfEven_mono (hx : 0 ≤ x) (hle : x ≤ y) : halfEven x ≤ halfEven y := by
  rcases (Nat.floor_le_floor hle).lt_or_eq with hlt | heq
  · exact (halfEven_bounds x).2.trans (le_trans hlt (halfEven_bounds y).1)
  · -- where the two stand to the half is all that counts
    have hfloor := Nat.floor_le hx
    have hsucc := Nat.lt_floor_add_one y
    rw [← heq] at hsucc
    rcases lt_trichotomy y (⌊x⌋₊ + 1 / 2) with hlt | hhalf | hgt
    · rw [halfEven_of_lt hfloor (by linarith), halfEven_of_lt (by linarith) hlt]
    · rw [halfEven_of_eq hhalf]
      rcases hle.lt_or_eq with hlt | rfl
      · rw [halfEven_of_lt hfloor (by linarith)]
        exact Nat.le_add_right _ _
      · rw [halfEven_of_eq hhalf]
    · rw [halfEven_of_gt hgt hsucc]
      exact (halfEven_bounds x).2

theorem abs_halfEven_sub_le (hx : 0 ≤ x) : |halfEven x - x| ≤ 1 / 2 := by
  have hfloor := Nat.floor_le hx
  have hlt := Nat.lt_floor_add_one x
  have heven : ((⌊x⌋₊ % 2 : ℕ) : ℝ) ≤ 1 := by exact_mod_cast Nat.le_of_lt_succ (Nat.mod_lt _ two_pos)
  have hpos : (0 : ℝ) ≤ (⌊x⌋₊ % 2 : ℕ) := Nat.cast_nonneg _
  rw [abs_le, halfEven]
  split_ifs with h h' <;> push_cast <;> constructor <;> linarith

/-- fractions of whole numbers are rounded so -/
theorem roundHalfEven_eq (num : ℕ) {den : ℕ} (hden : 0 < den) :
    roundHalfEven num den = halfEven (num / den) := by
  have hpos : (0 : ℝ) < den := Nat.cast_pos.2 hden
  have hsplit : (num / den : ℝ) = (num / den : ℕ) + (num % den : ℕ) / den := by
    have := Nat.div_add_mod num den
    field_simp
    exact_mod_cast this.symm
  have hrest : (0 : ℝ) ≤ (num % den : ℕ) / den := by positivity
  have hless : ((num % den : ℕ) : ℝ) / den < 1 := (div_lt_one hpos).2 (Nat.cast_lt.2 (Nat.mod_lt _ hden))
  rw [hsplit]
  rcases lt_trichotomy (2 * (num % den)) den with h | h | h
  · have hhalf : ((num % den : ℕ) : ℝ) / den < 1 / 2 := by
      rw [div_lt_div_iff₀ hpos two_pos]
      exact_mod_cast (by omega : num % den * 2 < 1 * den)
    rw [halfEven_of_lt (n := num / den) (by linarith) (by linarith)]
    simp only [roundHalfEven, h, if_true]
  · have hhalf : ((num % den : ℕ) : ℝ) / den = 1 / 2 := by
      rw [div_eq_div_iff hpos.ne' two_ne_zero]
      exact_mod_cast (by omega : num % den * 2 = 1 * den)
    rw [halfEven_of_eq (n := num / den) (by linarith)]
    simp only [roundHalfEven, h, lt_irrefl, if_false]
    split <;> omega
  · have hhalf : 1 / 2 < ((num % den : ℕ) : ℝ) / den := by
      rw [div_lt_div_iff₀ two_pos hpos]
      exact_mod_cast (by omega : 1 * den < num % den * 2)
    rw [halfEven_of_gt (n := num / den) (by linarith) (by linarith)]
    simp only [roundHalfEven, h, h.not_gt, if_true, if_false]

/-! ## To 53 bits -/

/-- the last place of a number that is written with 53 bits -/
def lastPlace (v : ℝ) : ℝ :=
  (2 : ℕ) ^ max (Int.log 2 |v| - 52) (-1074)

/-- the number of 53 bits that is nearest to a number, the even one of two -/
def rounded (v : ℝ) : ℝ :=
  if 0 ≤ v then halfEven (v / lastPlace v) * lastPlace v else -(halfEven (-v / lastPlace v) * lastPlace v)

variable {v w : ℝ} {e : ℤ}

theorem lastPlace_eq (hv : 0 ≤ v) : lastPlace v = 2 ^ max (Int.log 2 v - 52) (-1074) := by
  rw [lastPlace, abs_of_nonneg hv, Nat.cast_ofNat]

theorem lastPlace_pos (v : ℝ) : 0 < lastPlace v :=
  zpow_pos (Nat.cast_pos.2 two_pos) _

theorem lastPlace_neg (v : ℝ) : lastPlace (-v) = lastPlace v := by
  rw [lastPlace, lastPlace, abs_neg]

theorem rounded_of_nonneg (hv : 0 ≤ v) : rounded v = halfEven (v / lastPlace v) * lastPlace v :=
  if_pos hv

theorem rounded_zero : rounded 0 = 0 := by
  rw [rounded, if_pos le_rfl, zero_div, halfEven_zero, Nat.cast_zero, zero_mul]

theorem rounded_neg (v : ℝ) : rounded (-v) = -rounded v := by
  rcases lt_trichotomy v 0 with hneg | rfl | hpos
  · rw [rounded_of_nonneg (by linarith), rounded, if_neg (by linarith), neg_neg, lastPlace_neg]
  · rw [neg_zero, rounded_zero, neg_zero]
  · rw [rounded_of_nonneg hpos.le, rounded, if_neg (by linarith), neg_neg, lastPlace_neg]

theorem rounded_nonneg (hv : 0 ≤ v) : 0 ≤ rounded v := by
  rw [rounded_of_nonneg hv]
  exact mul_nonneg (Nat.cast_nonneg _) (lastPlace_pos v).le

/-- a number has 53 bits before its last place -/
theorem lt_lastPlace (hv : 0 ≤ v) : v < 2 ^ 53 * lastPlace v := by
  have hlog := Int.lt_zpow_succ_log_self one_lt_two v
  rw [lastPlace_eq hv, ← zpow_natCast, ← zpow_add₀ two_ne_zero]
  refine lt_of_lt_of_le hlog (zpow_le_zpow_right₀ one_le_two ?_)
  omega

/-- a number above the least ones takes all of them -/
theorem lastPlace_le (hv : 0 < v) (hlog : -1022 ≤ Int.log 2 v) : 2 ^ 52 * lastPlace v ≤ v := by
  have hself := Int.zpow_log_le_self one_lt_two hv
  rw [lastPlace_eq hv.le, max_eq_left (by omega), ← zpow_natCast, ← zpow_add₀ two_ne_zero]
  norm_num at hself ⊢
  exact hself

/-- what is rounded are 53 bits -/
theorem halfEven_le (hv : 0 ≤ v) : halfEven (v / lastPlace v) ≤ 2 ^ 53 := by
  have hpos := lastPlace_pos v
  have hlt : ⌊v / lastPlace v⌋₊ < 2 ^ 53 := by
    rw [Nat.floor_lt (by positivity), div_lt_iff₀ hpos]
    exact_mod_cast lt_lastPlace hv
  exact (halfEven_bounds _).2.trans hlt

theorem le_halfEven (hv : 0 < v) (hlog : -1022 ≤ Int.log 2 v) : 2 ^ 52 ≤ halfEven (v / lastPlace v) := by
  have hpos := lastPlace_pos v
  have hle : 2 ^ 52 ≤ ⌊v / lastPlace v⌋₊ := by
    refine Nat.le_floor ?_
    rw [le_div_iff₀ hpos]
    exact_mod_cast lastPlace_le hv hlog
  exact hle.trans (halfEven_bounds _).1

theorem rounded_le (hv : 0 ≤ v) : rounded v ≤ 2 ^ 53 * lastPlace v := by
  rw [rounded_of_nonneg hv]
  exact mul_le_mul_of_nonneg_right (by exact_mod_cast halfEven_le hv) (lastPlace_pos v).le

theorem le_rounded (hv : 0 < v) (hlog : -1022 ≤ Int.log 2 v) : 2 ^ 52 * lastPlace v ≤ rounded v := by
  rw [rounded_of_nonneg hv.le]
  exact mul_le_mul_of_nonneg_right (by exact_mod_cast le_halfEven hv hlog) (lastPlace_pos v).le

theorem rounded_mono_of_nonneg (hv : 0 ≤ v) (hle : v ≤ w) : rounded v ≤ rounded w := by
  rcases hv.eq_or_lt with rfl | hpos
  · rw [rounded_zero]
    exact rounded_nonneg hle
  have hw := hpos.trans_le hle
  have hlog : Int.log 2 v ≤ Int.log 2 w := Int.log_mono_right hpos hle
  rcases le_or_gt (max (Int.log 2 w - 52) (-1074)) (max (Int.log 2 v - 52) (-1074)) with hplace | hplace
  · have hsame : lastPlace v = lastPlace w := by
      rw [lastPlace_eq hpos.le, lastPlace_eq hw.le]
      congr 1
      omega
    have hw' := lastPlace_pos w
    rw [rounded_of_nonneg hv, rounded_of_nonneg hw.le, hsame]
    refine mul_le_mul_of_nonneg_right (Nat.cast_le.2 (halfEven_mono ?_ ?_)) hw'.le
    · positivity
    · gcongr
  · -- the smaller one ends where the larger one begins
    have htwice : 2 * lastPlace v ≤ lastPlace w := by
      rw [lastPlace_eq hpos.le, lastPlace_eq hw.le, ← zpow_one_add₀ two_ne_zero]
      exact zpow_le_zpow_right₀ one_le_two (by omega)
    have hupper := rounded_le hv
    have hlower := le_rounded hw (by omega)
    linarith

/-- **Rounding keeps the order.** -/
theorem rounded_mono (hle : v ≤ w) : rounded v ≤ rounded w := by
  rcases le_total 0 v with hv | hv
  · exact rounded_mono_of_nonneg hv hle
  · rcases le_total 0 w with hw | hw
    · have := rounded_nonneg (neg_nonneg.2 hv)
      have := rounded_nonneg hw
      rw [rounded_neg] at *
      linarith
    · have := rounded_mono_of_nonneg (neg_nonneg.2 hw) (neg_le_neg hle)
      rw [rounded_neg, rounded_neg] at this
      linarith

theorem rounded_nonpos (hv : v ≤ 0) : rounded v ≤ 0 := by
  rw [← rounded_zero]
  exact rounded_mono hv

/-- **A number of 53 bits stays.** -/
theorem rounded_of_grid (hn : n < 2 ^ 53) (he : -1074 ≤ e) : rounded (n * 2 ^ e) = n * 2 ^ e := by
  rcases n.eq_zero_or_pos with rfl | hpos
  · rw [Nat.cast_zero, zero_mul, rounded_zero]
  have hcast : (0 : ℝ) < n := Nat.cast_pos.2 hpos
  have hv : (0 : ℝ) < n * 2 ^ e := by positivity
  have hlog : Int.log 2 ((n : ℝ) * 2 ^ e) < 53 + e := by
    rw [← Int.lt_zpow_iff_log_lt one_lt_two hv, zpow_add₀ (by norm_num)]
    push_cast
    exact mul_lt_mul_of_pos_right (by exact_mod_cast hn) (by positivity)
  obtain ⟨k, hk⟩ := Int.eq_ofNat_of_zero_le
    (by omega : 0 ≤ e - max (Int.log 2 ((n : ℝ) * 2 ^ e) - 52) (-1074))
  have hsplit : (n : ℝ) * 2 ^ e = (n * 2 ^ k : ℕ) * lastPlace (n * 2 ^ e) := by
    have he' : e = k + max (Int.log 2 ((n : ℝ) * 2 ^ e) - 52) (-1074) := by omega
    conv_lhs => rw [he', zpow_add₀ two_ne_zero, zpow_natCast]
    rw [lastPlace_eq hv.le]
    push_cast
    ring
  have hplace := lastPlace_pos ((n : ℝ) * 2 ^ e)
  have hquot : (n : ℝ) * 2 ^ e / lastPlace (n * 2 ^ e) = (n * 2 ^ k : ℕ) := by
    rw [div_eq_iff hplace.ne']
    exact hsplit
  rw [rounded_of_nonneg hv.le, hquot, halfEven_natCast]
  exact hsplit.symm

theorem rounded_two_zpow (he : -1074 ≤ e) : rounded (2 ^ e) = 2 ^ e := by
  have := rounded_of_grid (n := 1) (by norm_num) he
  rwa [Nat.cast_one, one_mul] at this

theorem rounded_natCast (hn : n < 2 ^ 53) : rounded n = n := by
  have := rounded_of_grid (e := 0) hn (by norm_num)
  rwa [zpow_zero, mul_one] at this

theorem rounded_le_two_zpow (he : -1074 ≤ e) (hle : v ≤ 2 ^ e) : rounded v ≤ 2 ^ e := by
  rw [← rounded_two_zpow he]
  exact rounded_mono hle

theorem two_zpow_le_rounded (he : -1074 ≤ e) (hle : 2 ^ e ≤ v) : 2 ^ e ≤ rounded v := by
  rw [← rounded_two_zpow he]
  exact rounded_mono hle

theorem abs_rounded_le (he : -1074 ≤ e) (hle : |v| ≤ 2 ^ e) : |rounded v| ≤ 2 ^ e := by
  obtain ⟨hlower, hupper⟩ := abs_le.1 hle
  have hneg := rounded_le_two_zpow he (neg_le.1 hlower)
  rw [rounded_neg] at hneg
  exact abs_le.2 ⟨neg_le.1 hneg, rounded_le_two_zpow he hupper⟩

/-- a whole number is rounded to a whole number -/
theorem exists_rounded_natCast (n : ℕ) : ∃ k : ℕ, rounded n = k := by
  by_cases hlt : n < 2 ^ 53
  · exact ⟨n, rounded_natCast hlt⟩
  · have hn : (0 : ℝ) < n := Nat.cast_pos.2 (by omega)
    have hlog : 53 ≤ Int.log 2 (n : ℝ) := by
      rw [← Int.zpow_le_iff_le_log one_lt_two hn]
      exact_mod_cast not_lt.1 hlt
    obtain ⟨j, hj⟩ := Int.eq_ofNat_of_zero_le (by omega : 0 ≤ max (Int.log 2 (n : ℝ) - 52) (-1074))
    refine ⟨halfEven (n / lastPlace n) * 2 ^ j, ?_⟩
    rw [rounded_of_nonneg hn.le, lastPlace_eq hn.le, hj, zpow_natCast]
    push_cast
    rfl

/-! ## Bounds -/

theorem le_two_zpow_of_le {f : ℤ} (hv : v ≤ 2 ^ e) (hef : e ≤ f) : v ≤ 2 ^ f :=
  hv.trans (zpow_le_zpow_right₀ one_le_two hef)

theorem add_le_two_zpow (hv : v ≤ 2 ^ e) (hw : w ≤ 2 ^ e) : v + w ≤ 2 ^ (e + 1) := by
  rw [zpow_add_one₀ two_ne_zero, mul_two]
  exact add_le_add hv hw

theorem mul_le_two_zpow {f : ℤ} (hw : 0 ≤ w) (hv : v ≤ 2 ^ e) (hw' : w ≤ 2 ^ f) : v * w ≤ 2 ^ (e + f) := by
  rw [zpow_add₀ two_ne_zero]
  exact mul_le_mul hv hw' hw (by positivity)

theorem two_zpow_le_mul {f : ℤ} (hv : 2 ^ e ≤ v) (hw : 2 ^ f ≤ w) : 2 ^ (e + f) ≤ v * w := by
  rw [zpow_add₀ two_ne_zero]
  exact mul_le_mul hv hw (by positivity) (le_trans (by positivity) hv)

theorem div_le_two_zpow {f : ℤ} (hv : v ≤ 2 ^ e) (hw : 2 ^ f ≤ w) : v / w ≤ 2 ^ (e - f) := by
  rw [div_le_iff₀ (lt_of_lt_of_le (by positivity) hw)]
  refine hv.trans ?_
  calc (2 : ℝ) ^ e = 2 ^ (e - f) * 2 ^ f := by rw [← zpow_add₀ two_ne_zero, sub_add_cancel]
    _ ≤ 2 ^ (e - f) * w := by gcongr

theorem two_zpow_le_div {f : ℤ} (hv : 2 ^ e ≤ v) (hw : 0 < w) (hw' : w ≤ 2 ^ f) : 2 ^ (e - f) ≤ v / w := by
  rw [le_div_iff₀ hw]
  refine le_trans ?_ hv
  calc (2 : ℝ) ^ (e - f) * w ≤ 2 ^ (e - f) * 2 ^ f := by gcongr
    _ = 2 ^ e := by rw [← zpow_add₀ two_ne_zero, sub_add_cancel]

/-- what rounding changes is small beside a number above the least ones -/
theorem abs_rounded_sub_le (hv : 2 ^ (-1022 : ℤ) ≤ v) : |rounded v - v| ≤ v / 2 ^ 53 := by
  have hpos : 0 < v := lt_of_lt_of_le (by positivity) hv
  have hplace := lastPlace_pos v
  have hlog : -1022 ≤ Int.log 2 v := by
    rw [← Int.zpow_le_iff_le_log one_lt_two hpos]
    exact_mod_cast hv
  have hle := lastPlace_le hpos hlog
  have hhalf := abs_halfEven_sub_le (div_nonneg hpos.le hplace.le)
  have hsplit : rounded v - v = (halfEven (v / lastPlace v) - v / lastPlace v) * lastPlace v := by
    rw [rounded_of_nonneg hpos.le]
    field_simp
  rw [hsplit, abs_mul, abs_of_pos hplace, le_div_iff₀ (by positivity)]
  calc |(halfEven (v / lastPlace v) : ℝ) - v / lastPlace v| * lastPlace v * 2 ^ 53
      ≤ 1 / 2 * lastPlace v * 2 ^ 53 := by gcongr
    _ = 2 ^ 52 * lastPlace v := by ring
    _ ≤ v := hle

/-- what rounding both of two numbers may change their ratio by -/
def roundoff : ℝ :=
  (2 ^ 53 + 1 : ℕ) / (2 ^ 53 - 1 : ℕ)

theorem roundoff_eq : roundoff = (2 ^ 53 + 1) / (2 ^ 53 - 1) := by
  norm_num [roundoff]

theorem one_le_roundoff : 1 ≤ roundoff := by
  norm_num [roundoff_eq]

/-- **Rounding changes ratios little.** -/
theorem rounded_le_roundoff_mul {c : ℝ} (hw : 2 ^ (-1022 : ℤ) ≤ w) (hwv : w ≤ v) (hc : 0 ≤ c) (hle : v ≤ c * w) :
    rounded v ≤ roundoff * c * rounded w := by
  have hupper := (abs_le.1 (abs_rounded_sub_le (hw.trans hwv))).2
  have hlower := mul_le_mul_of_nonneg_left (abs_le.1 (abs_rounded_sub_le hw)).1 hc
  have hnum : (0 : ℝ) < 2 ^ 53 - 1 := by norm_num
  rw [roundoff_eq, mul_assoc, div_mul_eq_mul_div, le_div_iff₀ hnum]
  norm_num at hupper hlower ⊢
  linarith

/-- **What is below half of the last place is lost** when it is added to a power of two. -/
theorem rounded_le_of_lt (he : -1022 ≤ e) (hlt : v < 2 ^ e + 2 ^ (e - 53)) : rounded v ≤ 2 ^ e := by
  rcases le_or_gt v (2 ^ e) with hle | hgt
  · exact rounded_le_two_zpow (by omega) hle
  have hpos : 0 < v := lt_trans (by positivity) hgt
  have hlog : Int.log 2 v = e := by
    apply le_antisymm
    · rw [← Int.lt_add_one_iff, ← Int.lt_zpow_iff_log_lt one_lt_two hpos]
      have hsmall : (2 : ℝ) ^ (e - 53) ≤ 2 ^ e := zpow_le_zpow_right₀ one_le_two (by omega)
      rw [zpow_add_one₀ (by norm_num)]
      push_cast
      linarith
    · rw [← Int.zpow_le_iff_le_log one_lt_two hpos]
      exact_mod_cast hgt.le
  have hplace : lastPlace v = 2 ^ (e - 52) := by
    rw [lastPlace_eq hpos.le, hlog, max_eq_left (by omega)]
  have hwhole : (2 : ℝ) ^ e = 2 ^ 52 * 2 ^ (e - 52) := by
    rw [← zpow_natCast, ← zpow_add₀ two_ne_zero]
    norm_num
  have hhalf : (2 : ℝ) ^ (e - 53) = 1 / 2 * 2 ^ (e - 52) := by
    rw [show e - 52 = 1 + (e - 53) by ring, zpow_one_add₀ two_ne_zero]
    ring
  have hround : halfEven (v / lastPlace v) = 2 ^ 52 := by
    rw [hwhole] at hgt hlt
    rw [hhalf, ← add_mul] at hlt
    rw [hplace]
    apply halfEven_of_lt
    · rw [le_div_iff₀ (by positivity), Nat.cast_pow, Nat.cast_ofNat]
      exact hgt.le
    · rw [div_lt_iff₀ (by positivity), Nat.cast_pow, Nat.cast_ofNat]
      exact hlt
  rw [rounded_of_nonneg hpos.le, hround, hplace, hwhole, Nat.cast_pow, Nat.cast_ofNat]

end

end LoadGen.Decimal
