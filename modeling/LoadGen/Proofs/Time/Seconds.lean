/-
Numbers of seconds as spans of time. A number below zero and one that is none have no span; of the others every number
below `2 ^ 64` has one, and no number from there on (`ofSeconds?_eq_none_iff`).
-/
import LoadGen.Proofs.Decimal.Operations
import LoadGen.Time.Duration

namespace LoadGen

namespace Decimal

theorem roundHalfEven_one (n : Nat) : roundHalfEven n 1 = n := by
  simp [roundHalfEven, Nat.mod_one]

theorem roundHalfEven_le (num den : Nat) : roundHalfEven num den ≤ num / den + 1 := by
  simp only [roundHalfEven]
  split
  · exact Nat.le_succ _
  · split
    · exact Nat.le_refl _
    · split
      · exact Nat.le_succ _
      · exact Nat.le_refl _

end Decimal

namespace Duration

open Decimal

theorem ofNanos?_eq_none_iff {n : Nat} : ofNanos? n = none ↔ maxNanos < n := by
  unfold ofNanos?
  split <;> simp <;> omega

/-- rounding to nanoseconds does not carry a magnitude of 53 bits over the longest span -/
theorem maxNanos_lt_round_iff {size : Magnitude} (hlt : size.mantissa < 2 ^ 53) :
    maxNanos < roundHalfEven (size.num * nanosPerSec) size.den ↔ 2 ^ 64 * size.den ≤ size.num := by
  rcases Int.lt_or_le size.exponent 0 with he | he
  · -- below `2 ^ 53` seconds there is room for what rounding adds
    have hden := size.den_pos
    have hround := roundHalfEven_le (size.num * nanosPerSec) size.den
    have hdiv := Nat.div_le_self (size.num * nanosPerSec) size.den
    rw [Magnitude.num_of_neg he] at *
    simp only [maxNanos, nanosPerSec] at *
    omega
  · rw [Magnitude.den_of_nonneg he, roundHalfEven_one, maxNanos, nanosPerSec]
    omega

/-- **A span for every number of seconds below `2 ^ 64`**, and for none from there on. -/
theorem ofSeconds?_eq_none_iff {x : Float} (hfinite : x.isFinite = true) (hneg : ¬x < 0.0) :
    ofSeconds? x = none ↔ wordLimit ≤ x := by
  obtain ⟨negative, size, hkind, hplus, hlt, hlimit⟩ := exists_magnitude hfinite hneg
  rw [hlimit, ofSeconds?, hkind, ← maxNanos_lt_round_iff hlt, ← ofNanos?_eq_none_iff]
  simp only [if_neg hplus]

/-! ## Spans as numbers -/

variable {x y : Float} {v w : ℝ}

/-- the span of a number of seconds has the nanosecond that is nearest -/
theorem ofSeconds?_eq (hx : IsNumber x v) (hv : 0 ≤ v) : ofSeconds? x = ofNanos? (halfEven (v * nanosPerSec)) := by
  have hd := decodes x
  have hround (size : Magnitude) : roundHalfEven (size.num * nanosPerSec) size.den =
      halfEven (size.mantissa * 2 ^ size.exponent * nanosPerSec) := by
    rw [roundHalfEven_eq _ size.den_pos, Nat.cast_mul, ← size.num_div_den, div_mul_eq_mul_div]
  unfold IsNumber at hx
  unfold ofSeconds?
  generalize x.toModel.unpack = u at hx hd
  generalize kindOf x = k at hd
  cases hx with
  | zero s =>
    cases hd with
    | zero s tight =>
      have hzero : ¬(isMinus s = true ∧ (⟨0, -1074, tight⟩ : Magnitude).mantissa ≠ 0) := fun h => h.2 rfl
      simp only [if_neg hzero, hround, Nat.cast_zero, zero_mul]
  | finite s hpos hlt hleast he =>
    cases hd with
    | finite s hpos hm he' hlt' hleast' =>
      subst hm he'
      cases s with
      | negative =>
        rw [signValue, neg_one_mul, neg_nonneg] at hv
        exact absurd hv (not_le.2 (by positivity))
      | positive =>
        simp only [isMinus, Bool.false_eq_true, false_and, if_false, hround, signValue, one_mul]

/-- a larger number of seconds has no shorter span -/
theorem ofSeconds?_mono {c d : Duration} (hx : IsNumber x v) (hy : IsNumber y w) (hv : 0 ≤ v) (hle : v ≤ w)
    (hc : ofSeconds? x = some c) (hd : ofSeconds? y = some d) : c ≤ d := by
  rw [ofSeconds?_eq hx hv] at hc
  rw [ofSeconds?_eq hy (hv.trans hle)] at hd
  have hround : halfEven (v * nanosPerSec) ≤ halfEven (w * nanosPerSec) := by
    apply halfEven_mono
    · positivity
    · gcongr
  unfold ofNanos? at hc hd
  split at hc <;> cases hc
  split at hd <;> cases hd
  exact hround

theorem isNumber_billion : IsNumber 1e9 1000000000 := by
  have hkind : kindOf 1e9 = .finite false ⟨8388608000000000, -23, false⟩ := by decide +kernel
  have := isNumber_of_kindOf hkind (by decide)
  norm_num at this
  exact this

/-- the nanoseconds beyond the whole seconds, as seconds -/
theorem exists_subsec (d : Duration) :
    ∃ t, IsNumber (.ofNat d.subsecNanos / 1e9) t ∧ 0 ≤ t ∧ t ≤ 2 ^ (0 : ℤ) ∧ (t = 0 ∨ 2 ^ (-30 : ℤ) ≤ t) := by
  have hless : d.subsecNanos < 1000000000 := Nat.mod_lt _ (by decide)
  have hsmall : (d.subsecNanos : ℝ) / 1000000000 ≤ 2 ^ (0 : ℤ) := by
    rw [div_le_iff₀ (by norm_num), zpow_zero, one_mul]
    exact_mod_cast hless.le
  have hN := isNumber_natCast (hless.trans (by norm_num) : d.subsecNanos < 2 ^ 53)
  have hQ := hN.div isNumber_billion (by norm_num) (abs_le_of_le (by positivity) hsmall (by norm_num))
  refine ⟨_, hQ, rounded_nonneg (by positivity), rounded_le_two_zpow (by norm_num) hsmall, ?_⟩
  rcases d.subsecNanos.eq_zero_or_pos with hzero | hpos
  · left
    rw [hzero, Nat.cast_zero, zero_div, rounded_zero]
  · right
    have hone : (1 : ℝ) ≤ d.subsecNanos := by exact_mod_cast hpos
    refine two_zpow_le_rounded (by norm_num) ?_
    rw [le_div_iff₀ (by norm_num)]
    norm_num
    linarith

/-- the whole seconds -/
theorem exists_secs (d : Duration) :
    ∃ t, IsNumber (.ofNat d.secs) t ∧ 0 ≤ t ∧ t ≤ 2 ^ (64 : ℤ) ∧ (t = 0 ∨ 2 ^ (0 : ℤ) ≤ t) := by
  have hle := d.le_max
  have hsecs : d.secs ≤ 2 ^ 64 := by
    unfold maxNanos at hle
    unfold secs nanosPerSec
    omega
  have hsmall : (d.secs : ℝ) ≤ 2 ^ (64 : ℤ) := by exact_mod_cast hsecs
  have hS := isNumber_ofNat d.secs (le_two_zpow_of_le hsmall (by norm_num))
  refine ⟨_, hS, rounded_nonneg (Nat.cast_nonneg _), rounded_le_two_zpow (by norm_num) hsmall, ?_⟩
  rcases d.secs.eq_zero_or_pos with hzero | hpos
  · left
    rw [hzero, Nat.cast_zero, rounded_zero]
  · right
    refine two_zpow_le_rounded (by norm_num) ?_
    rw [zpow_zero]
    exact_mod_cast hpos

/-- **A span is a number of seconds**, none or at least about a nanosecond. -/
theorem exists_seconds (d : Duration) :
    ∃ t, IsNumber d.toSeconds t ∧ 0 ≤ t ∧ t ≤ 2 ^ (65 : ℤ) ∧ (t = 0 ∨ 2 ^ (-30 : ℤ) ≤ t) := by
  obtain ⟨s, hS, hS0, hS1, hS2⟩ := d.exists_secs
  obtain ⟨n, hN, hN0, hN1, hN2⟩ := d.exists_subsec
  have hsum : s + n ≤ 2 ^ (64 + 1 : ℤ) :=
    add_le_two_zpow hS1 (le_two_zpow_of_le hN1 (by norm_num))
  have hT := hS.add hN (abs_le_of_le (add_nonneg hS0 hN0) hsum (by norm_num))
  refine ⟨_, hT, rounded_nonneg (add_nonneg hS0 hN0), rounded_le_two_zpow (by norm_num) hsum, ?_⟩
  rcases hS2 with rfl | hS2
  · rw [zero_add, hN.rounded_eq]
    exact hN2
  · right
    refine two_zpow_le_rounded (by norm_num) (le_trans ?_ (le_add_of_nonneg_right hN0))
    exact (zpow_le_zpow_right₀ one_le_two (by norm_num)).trans hS2

end Duration

end LoadGen
