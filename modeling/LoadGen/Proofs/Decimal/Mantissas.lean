/-
Mantissas as numbers. What a float keeps of an exact result, a mantissa and two bits, is enough to round it, and packing
keeps what is rounded. So the float that is made of a mantissa is the number that is nearest.

- `Carries`: a mantissa and its two bits tell a number from every other that rounds elsewhere; `carries_quotient`,
  `carries_sqrt`: of quotients and square roots they do.
- `IsNumberOf`: the number that a float taken apart is.
- `unpack_pack`: a number that is not too large is packed as it is.
- `isNumberOf_roundWithAccuracy`, `isNumberOf_normalize`: what is made of a mantissa.
-/
import Mathlib.Analysis.Real.Sqrt
import LoadGen.Proofs.Decimal.Kinds
import LoadGen.Proofs.Decimal.Rounding

namespace LoadGen.Decimal

open Float.Model UnpackedFloat

/-! ## Mantissas with what is beyond them -/

/-- a mantissa, with the two bits after it, tells of a number what rounding needs -/
structure Carries (em : ExtendedMantissa) (x : ℝ) : Prop where
  whole : em.mantissa ≤ x
  next : x < em.mantissa + 1
  half : em.roundBit = true ↔ em.mantissa + 1 / 2 ≤ x
  rest : em.stickyBit = true ↔ x ≠ em.mantissa ∧ x ≠ em.mantissa + 1 / 2

variable {em : ExtendedMantissa} {x y : ℝ}

theorem Carries.roundedMantissa_eq (h : Carries em x) : em.roundedMantissa = halfEven x := by
  obtain ⟨mantissa, half, rest⟩ := em
  obtain ⟨hwhole, hnext, hhalf, hrest⟩ := h
  dsimp only at *
  rcases lt_trichotomy x (mantissa + 1 / 2) with hlt | heq | hgt
  · rw [halfEven_of_lt hwhole hlt]
    obtain rfl : half = false := Bool.eq_false_iff.2 (mt hhalf.1 (not_le.2 hlt))
    cases rest <;> rfl
  · rw [halfEven_of_eq heq]
    obtain rfl : half = true := hhalf.2 heq.ge
    obtain rfl : rest = false := Bool.eq_false_iff.2 fun h => (hrest.1 h).2 heq
    rfl
  · rw [halfEven_of_gt hgt hnext]
    obtain rfl : half = true := hhalf.2 hgt.le
    obtain rfl : rest = true := hrest.2 ⟨by linarith, hgt.ne'⟩
    rfl

/-- the bits after the mantissa say whether anything is lost without them -/
theorem Carries.inexact (h : Carries em x) : (em.roundBit || em.stickyBit) = true ↔ x ≠ em.mantissa := by
  rw [Bool.or_eq_true, h.half, h.rest]
  constructor
  · rintro (hhalf | hrest)
    · intro heq
      linarith
    · exact hrest.1
  · intro hne
    rcases eq_or_ne x (em.mantissa + 1 / 2) with heq | hhalf
    · exact .inl heq.ge
    · exact .inr ⟨hne, hhalf⟩

theorem Carries.shiftRightOne (h : Carries em x) : Carries em.shiftRightOne (x / 2) := by
  have hwhole := h.whole
  have hnext := h.next
  have hsplit : (em.mantissa : ℝ) = 2 * (em.mantissa / 2 : ℕ) + (em.mantissa % 2 : ℕ) := by
    exact_mod_cast (Nat.div_add_mod em.mantissa 2).symm
  have hbit : em.shiftRightOne.roundBit = true ↔ em.mantissa % 2 = 1 := by
    show (em.mantissa % 2 != 0) = true ↔ _
    rw [bne_iff_ne]
    omega
  have hmantissa : em.shiftRightOne.mantissa = em.mantissa / 2 := rfl
  rcases Nat.mod_two_eq_zero_or_one em.mantissa with hmod | hmod
  · rw [hmod, Nat.cast_zero, add_zero] at hsplit
    refine ⟨?_, ?_, ?_, h.inexact.trans ?_⟩
    · rw [hmantissa]
      linarith
    · rw [hmantissa]
      linarith
    · rw [hbit, hmod, hmantissa]
      exact iff_of_false zero_ne_one (by linarith)
    · rw [hmantissa]
      refine ⟨fun hne => ⟨fun heq => hne (by linarith), fun heq => by linarith⟩, fun hne heq => hne.1 (by linarith)⟩
  · rw [hmod, Nat.cast_one] at hsplit
    refine ⟨?_, ?_, ?_, h.inexact.trans ?_⟩
    · rw [hmantissa]
      linarith
    · rw [hmantissa]
      linarith
    · rw [hbit, hmod, hmantissa]
      exact iff_of_true rfl (by linarith)
    · rw [hmantissa]
      refine ⟨fun hne => ⟨fun heq => by linarith, fun heq => hne (by linarith)⟩, fun hne heq => hne.2 (by linarith)⟩

theorem Carries.shiftRight (h : Carries em x) (k : ℕ) : Carries (em >>> k) (x / 2 ^ k) := by
  induction k with
  | zero => rwa [pow_zero, div_one]
  | succ k ih =>
    rw [pow_succ, ← div_div]
    exact ih.shiftRightOne

/-- an exact mantissa -/
theorem carries_exact (m : ℕ) : Carries (.ofMantissaAndAccuracy m .exact) m := by
  refine ⟨le_refl _, lt_add_one _, iff_of_false Bool.false_ne_true ?_, iff_of_false Bool.false_ne_true ?_⟩
  · show ¬(m : ℝ) + 1 / 2 ≤ m
    linarith
  · exact fun h => h.1 rfl

/-- a mantissa and what is beyond it -/
theorem carries_inexact {m : ℕ} {o : Ordering} (hm : m < x) (hnext : x < m + 1)
    (hlt : o = .lt → x < m + 1 / 2) (heq : o = .eq → x = m + 1 / 2) (hgt : o = .gt → m + 1 / 2 < x) :
    Carries (.ofMantissaAndAccuracy m (.inexact o)) x := by
  cases o with
  | lt =>
    have := hlt rfl
    exact ⟨hm.le, hnext, iff_of_false Bool.false_ne_true this.not_ge, iff_of_true rfl ⟨hm.ne', this.ne⟩⟩
  | eq =>
    have := heq rfl
    exact ⟨hm.le, hnext, iff_of_true rfl this.ge, iff_of_false Bool.false_ne_true fun h => h.2 this⟩
  | gt =>
    have := hgt rfl
    exact ⟨hm.le, hnext, iff_of_true rfl this.le, iff_of_true rfl ⟨hm.ne', this.ne'⟩⟩

/-- the mantissa of a quotient -/
theorem carries_quotient (num : ℕ) {den : ℕ} (hden : 0 < den) :
    Carries (.ofMantissaAndAccuracy (num / den) (accuracyOfFraction (num % den) den)) (num / den : ℝ) := by
  have hpos : (0 : ℝ) < den := Nat.cast_pos.2 hden
  have hsplit : (num / den : ℝ) = (num / den : ℕ) + (num % den : ℕ) / den := by
    have := Nat.div_add_mod num den
    field_simp
    exact_mod_cast this.symm
  have hless : ((num % den : ℕ) : ℝ) / den < 1 := (div_lt_one hpos).2 (Nat.cast_lt.2 (Nat.mod_lt _ hden))
  unfold accuracyOfFraction
  split
  case isTrue hzero =>
    rw [hzero, Nat.cast_zero, zero_div, add_zero] at hsplit
    rw [hsplit]
    exact carries_exact _
  case isFalse hne =>
    have hrest : (0 : ℝ) < (num % den : ℕ) / den := div_pos (Nat.cast_pos.2 (Nat.pos_of_ne_zero hne)) hpos
    refine carries_inexact (by linarith) (by linarith) (fun h => ?_) (fun h => ?_) fun h => ?_
    · have hlt : ((num % den : ℕ) : ℝ) / den < 1 / 2 := by
        rw [div_lt_div_iff₀ hpos two_pos]
        have := Nat.compare_eq_lt.1 h
        exact_mod_cast (by omega : num % den * 2 < 1 * den)
      linarith
    · have heq : ((num % den : ℕ) : ℝ) / den = 1 / 2 := by
        rw [div_eq_div_iff hpos.ne' two_ne_zero]
        have := Nat.compare_eq_eq.1 h
        exact_mod_cast (by omega : num % den * 2 = 1 * den)
      linarith
    · have hgt : 1 / 2 < ((num % den : ℕ) : ℝ) / den := by
        rw [div_lt_div_iff₀ two_pos hpos]
        have := Nat.compare_eq_gt.1 h
        exact_mod_cast (by omega : 1 * den < num % den * 2)
      linarith

/-- the mantissa of a square root -/
theorem carries_sqrt (m : ℕ) :
    Carries (.ofMantissaAndAccuracy m.sqrt
      (if m - m.sqrt * m.sqrt = 0 then .exact else .inexact (if m - m.sqrt * m.sqrt ≤ m.sqrt then .lt else .gt)))
      (√m) := by
  have hle : m.sqrt * m.sqrt ≤ m := m.sqrt_le
  have hcast : ((m.sqrt * m.sqrt : ℕ) : ℝ) + (m - m.sqrt * m.sqrt : ℕ) = m := by
    exact_mod_cast Nat.add_sub_of_le hle
  have hroot : (0 : ℝ) ≤ m.sqrt := Nat.cast_nonneg _
  have hnext : √(m : ℝ) < m.sqrt + 1 := by
    rw [← Real.nat_floor_real_sqrt_eq_nat_sqrt]
    exact Nat.lt_floor_add_one _
  split
  case isTrue hzero =>
    have hsq : √(m : ℝ) = m.sqrt := by
      rw [hzero, Nat.cast_zero, add_zero] at hcast
      rw [← hcast, Nat.cast_mul, Real.sqrt_mul_self hroot]
    rw [hsq]
    exact carries_exact _
  case isFalse hpos =>
    push_cast at hcast
    have hlt : (m.sqrt : ℝ) < √m := by
      rw [Real.lt_sqrt hroot]
      have : (0 : ℝ) < (m - m.sqrt * m.sqrt : ℕ) := Nat.cast_pos.2 (Nat.pos_of_ne_zero hpos)
      nlinarith
    refine carries_inexact hlt hnext (fun h => ?_) (fun h => ?_) fun h => ?_
    · have hrest : m - m.sqrt * m.sqrt ≤ m.sqrt := by
        by_contra hgt
        rw [if_neg hgt] at h
        cases h
      have hreal : ((m - m.sqrt * m.sqrt : ℕ) : ℝ) ≤ m.sqrt := Nat.cast_le.2 hrest
      rw [Real.sqrt_lt' (by linarith)]
      nlinarith
    · split at h <;> cases h
    · have hrest : m.sqrt + 1 ≤ m - m.sqrt * m.sqrt := by
        by_contra hgt
        rw [if_pos (by omega)] at h
        cases h
      have hreal : (m.sqrt : ℝ) + 1 ≤ (m - m.sqrt * m.sqrt : ℕ) := by exact_mod_cast hrest
      rw [Real.lt_sqrt (by linarith)]
      nlinarith

/-! ## Numbers -/

/-- minus one or one -/
def signValue : Sign → ℝ
  | .negative => -1
  | .positive => 1

/-- a float taken apart is a number; the least ones have fewer bits than 53 -/
inductive IsNumberOf : UnpackedFloat → ℝ → Prop where
  | zero (s) : IsNumberOf (.zero s) 0
  | finite (s) {m : ℕ} {e : ℤ} (hpos : 0 < m) (hlt : m < 2 ^ 53) (hleast : e = -1074 ∨ 2 ^ 52 ≤ m) (he : -1074 ≤ e) :
      IsNumberOf (.finite s m e hpos) (signValue s * (m * 2 ^ e))

variable {u : UnpackedFloat} {v w : ℝ} {s : Sign}

theorem signValue_neg (s : Sign) : signValue (-s) = -signValue s := by
  cases s <;> norm_num [signValue]

theorem signValue_mul (s s' : Sign) : signValue (s * s') = signValue s * signValue s' := by
  cases s <;> cases s' <;> norm_num [signValue]

theorem signValue_div (s s' : Sign) : signValue (s / s') = signValue s / signValue s' := by
  cases s <;> cases s' <;> norm_num [signValue] <;> rfl

theorem abs_signValue (s : Sign) : |signValue s| = 1 := by
  cases s <;> norm_num [signValue]

theorem apply_cast (s : Sign) (m : ℕ) : ((s.apply m : ℤ) : ℝ) = signValue s * m := by
  cases s <;> simp [Sign.apply, signValue]

theorem rounded_signValue (s : Sign) (v : ℝ) : rounded (signValue s * v) = signValue s * rounded v := by
  cases s with
  | negative => rw [signValue, neg_one_mul, neg_one_mul, rounded_neg]
  | positive => rw [signValue, one_mul, one_mul]

/-- numbers are rounded already -/
theorem IsNumberOf.rounded_eq (h : IsNumberOf u v) : rounded v = v := by
  cases h with
  | zero s => exact rounded_zero
  | finite s hpos hlt hleast he => rw [rounded_signValue, rounded_of_grid hlt he]

/-- the double of a number has as many bits -/
theorem IsNumberOf.rounded_two_mul (h : IsNumberOf u v) : rounded (2 * v) = 2 * v := by
  cases h with
  | zero s => rw [mul_zero, rounded_zero]
  | @finite s m e hpos hlt hleast he =>
    have hdouble : 2 * (signValue s * (m * 2 ^ e)) = signValue s * (m * 2 ^ (e + 1)) := by
      rw [zpow_add_one₀ two_ne_zero]
      ring
    rw [hdouble, rounded_signValue, rounded_of_grid hlt (by omega)]

/-- a number that is not small is a whole number of places -/
theorem IsNumberOf.exists_int (h : IsNumberOf u v) (hv : 1 / 2 ≤ |v|) : ∃ z : ℤ, v = z * 2 ^ (-53 : ℤ) := by
  cases h with
  | zero s =>
    rw [abs_zero] at hv
    norm_num at hv
  | @finite s m e hpos hlt hleast he =>
    have hm : (m : ℝ) < 2 ^ (53 : ℤ) := by exact_mod_cast hlt
    rw [abs_mul, abs_signValue, one_mul, abs_of_nonneg (by positivity)] at hv
    have he' : -1 < 53 + e := by
      rw [← zpow_lt_zpow_iff_right₀ (one_lt_two (α := ℝ)), zpow_add₀ two_ne_zero]
      refine lt_of_le_of_lt ?_ (mul_lt_mul_of_pos_right hm (by positivity))
      norm_num at hv ⊢
      exact hv
    obtain ⟨j, hj⟩ := Int.eq_ofNat_of_zero_le (by omega : 0 ≤ e + 53)
    refine ⟨s.apply (m * 2 ^ j : ℕ), ?_⟩
    rw [apply_cast, show e = j + -53 by omega, zpow_add₀ two_ne_zero, zpow_natCast]
    push_cast
    ring

/-! ## Packing -/

theorem unpackSign_packComponents (s : Sign) (e : BitVec 11) (m : BitVec 52) :
    unpackSign (packComponents Format.binary64 s e m) = s.toBitVec := by
  show (s.toBitVec ++ e ++ m).extractLsb' 63 1 = s.toBitVec
  rw [BitVec.extractLsb'_append_eq_of_le (by decide), BitVec.extractLsb'_append_eq_of_le (by decide)]
  exact BitVec.extractLsb'_eq_self

theorem ofBitVec_toBitVec (s : Sign) : Sign.ofBitVec s.toBitVec = s := by
  cases s <;> rfl

theorem finite_congr {s : Sign} {m n : ℕ} {e f : ℤ} (hm : m = n) (he : e = f) (hpos : 0 < m) :
    UnpackedFloat.finite s m e hpos = .finite s n f (hm ▸ hpos) := by
  subst hm he
  rfl

theorem unpack_normal (s : Sign) {e : BitVec 11} (m : BitVec 52) (hall : e ≠ -1#11) (hnone : e ≠ 0#11) :
    UnpackedFloat.unpack Format.binary64 (packComponents Format.binary64 s e m) =
      .finite s (2 ^ 52 + m.toNat) (e.toNat - 1075) (by omega) := by
  have hs : Sign.ofBitVec (unpackSign (packComponents Format.binary64 s e m)) = s := by
    rw [unpackSign_packComponents, ofBitVec_toBitVec]
  have he : unpackExponent (packComponents Format.binary64 s e m) = e := unpackExponent_packComponents
  have hm : unpackMantissa (packComponents Format.binary64 s e m) = m := unpackMantissa_packComponents
  generalize packComponents Format.binary64 s e m = b at hs he hm
  subst hs he hm
  delta UnpackedFloat.unpack
  dsimp only
  rw [if_neg hall, if_neg hnone]
  refine finite_congr ?_ rfl _
  rw [BitVec.toNat_append, ← Nat.shiftLeft_add_eq_or_of_lt (unpackMantissa b).isLt]
  rfl

theorem unpack_subnormal (s : Sign) {m : BitVec 52} (hm : m ≠ 0#52) :
    UnpackedFloat.unpack Format.binary64 (packComponents Format.binary64 s 0#11 m) =
      .finite s m.toNat (-1074) (Nat.pos_of_ne_zero fun h => hm (BitVec.eq_of_toNat_eq h)) := by
  have hall : 0#11 ≠ -1#11 := by decide
  have hs : Sign.ofBitVec (unpackSign (packComponents Format.binary64 s 0#11 m)) = s := by
    rw [unpackSign_packComponents, ofBitVec_toBitVec]
  have he : unpackExponent (packComponents Format.binary64 s 0#11 m) = 0#11 := unpackExponent_packComponents
  have hm' : unpackMantissa (packComponents Format.binary64 s 0#11 m) = m := unpackMantissa_packComponents
  generalize packComponents Format.binary64 s 0#11 m = b at hs he hm'
  subst hs hm'
  delta UnpackedFloat.unpack
  dsimp only
  rw [if_neg (he.trans_ne hall), if_pos he, dif_neg hm]
  refine finite_congr rfl ?_ _
  rw [he]
  rfl

/-- what is not too large is packed with its mantissa, and with its exponent if it is none of the least floats -/
theorem pack_finite {m : ℕ} {e : ℤ} (s : Sign) (hpos : 0 < m) (hmost : e ≤ 971) :
    UnpackedFloat.pack Format.binary64 (.finite s m e hpos) =
      if m.log2 + 1 = 53 then packComponents Format.binary64 s (BitVec.ofNat 11 (e + 1075).toNat) (BitVec.ofNat 52 m)
      else packComponents Format.binary64 s 0#11 (BitVec.ofNat 52 m) := by
  have hbias : (e + Format.binary64.exponentBias + Format.binary64.mantissaBitsWithoutImplicit).toNat =
      (e + 1075).toNat := by
    show (e + 1023 + 52).toNat = _
    congr 1
    ring
  have hroom : ¬2 ^ Format.binary64.exponentBits ≤ (e + 1075).toNat + 1 := by
    show ¬2 ^ 11 ≤ (e + 1075).toNat + 1
    omega
  delta UnpackedFloat.pack
  dsimp only
  rw [hbias, if_neg hroom]
  rfl

/-- **A finite float stays** when it is packed and taken apart again. -/
theorem unpack_pack {m : ℕ} {e : ℤ} (s : Sign) (hpos : 0 < m) (hlt : m < 2 ^ 53) (hleast : e = -1074 ∨ 2 ^ 52 ≤ m)
    (he : -1074 ≤ e) (hmost : e ≤ 971) :
    (Float.Model.pack (.finite s m e hpos)).unpack = .finite s m e hpos := by
  show UnpackedFloat.unpack _ (UnpackedFloat.pack Format.binary64 (.finite s m e hpos)) = _
  rw [pack_finite s hpos hmost]
  rcases le_or_gt (2 ^ 52) m with hm | hm
  · have hlog : m.log2 + 1 = 53 := by rw [(Nat.log2_eq_iff hpos.ne').2 ⟨hm, hlt⟩]
    have hexp : (BitVec.ofNat 11 (e + 1075).toNat).toNat = (e + 1075).toNat := by
      rw [BitVec.toNat_ofNat, Nat.mod_eq_of_lt (by omega)]
    have hmantissa : 2 ^ 52 + (BitVec.ofNat 52 m).toNat = m := by
      rw [BitVec.toNat_ofNat]
      omega
    have hall : BitVec.ofNat 11 (e + 1075).toNat ≠ -1#11 := by
      rw [ne_eq, ← BitVec.toNat_inj, hexp, show (-1#11).toNat = 2047 from rfl]
      omega
    have hnone : BitVec.ofNat 11 (e + 1075).toNat ≠ 0#11 := by
      rw [ne_eq, ← BitVec.toNat_inj, hexp, show (0#11).toNat = 0 from rfl]
      omega
    rw [if_pos hlog]
    refine (unpack_normal s (BitVec.ofNat 52 m) hall hnone).trans (finite_congr hmantissa ?_ _)
    rw [hexp]
    omega
  · obtain rfl : e = -1074 := hleast.resolve_right (not_le.2 hm)
    have hlog : m.log2 + 1 ≠ 53 := by
      have := (Nat.log2_lt hpos.ne').2 hm
      omega
    have hmantissa : (BitVec.ofNat 52 m).toNat = m := by rw [BitVec.toNat_ofNat, Nat.mod_eq_of_lt hm]
    have hne : BitVec.ofNat 52 m ≠ 0#52 := by
      rw [ne_eq, ← BitVec.toNat_inj, hmantissa]
      exact hpos.ne'
    rw [if_neg hlog]
    exact (unpack_subnormal s hne).trans (finite_congr hmantissa rfl _)

/-! ## Rounding -/

theorem targetExponent_eq (m : ℕ) (e : ℤ) :
    Format.binary64.targetExponent (totalExponent m e) = max (m.log2 + e - 52) (-1074) := by
  show max ((m.log2 : ℤ) + 1 + e - 53) (-1074) = _
  congr 1
  ring

/-- a number is known to its first bit from its mantissa -/
theorem log_mul_zpow {m : ℕ} (hpos : 0 < m) (hm : m ≤ x) (hnext : x < m + 1) (e : ℤ) :
    Int.log 2 (x * 2 ^ e) = m.log2 + e := by
  have hx : 0 < x := lt_of_lt_of_le (Nat.cast_pos.2 hpos) hm
  have hv : 0 < x * 2 ^ e := by positivity
  apply le_antisymm
  · rw [← Int.lt_add_one_iff, ← Int.lt_zpow_iff_log_lt one_lt_two hv, add_right_comm, zpow_add₀ (by norm_num)]
    push_cast
    refine mul_lt_mul_of_pos_right (lt_of_lt_of_le hnext ?_) (by positivity)
    exact_mod_cast Nat.lt_log2_self (n := m)
  · rw [← Int.zpow_le_iff_le_log one_lt_two hv, zpow_add₀ (by norm_num)]
    push_cast
    refine mul_le_mul_of_nonneg_right (le_trans ?_ hm) (by positivity)
    exact_mod_cast Nat.log2_self_le hpos.ne'

/-- so is its last place, if the mantissa has all bits that rounding may ask for -/
theorem place_mul_zpow {m : ℕ} {e : ℤ} (hx : 0 < x) (hm : m ≤ x) (hnext : x < m + 1)
    (hbits : 52 ≤ m.log2 ∨ e ≤ -1074) :
    max (Int.log 2 (x * 2 ^ e) - 52) (-1074) = max (m.log2 + e - 52) (-1074) := by
  rcases m.eq_zero_or_pos with rfl | hpos
  · have hlog : Int.log 2 (x * 2 ^ e) < e := by
      rw [← Int.lt_zpow_iff_log_lt one_lt_two (by positivity)]
      rw [Nat.cast_zero, zero_add] at hnext
      push_cast
      exact mul_lt_of_lt_one_left (by positivity) hnext
    rw [Nat.log2_zero] at hbits ⊢
    omega
  · rw [log_mul_zpow hpos hm hnext e]

/-- a mantissa that has all bits stays where it is -/
theorem shift_of_lt {m : ℕ} {e : ℤ} (hm : m < 2 ^ 53) (he : -1074 ≤ e) :
    shiftToTargetExponent Format.binary64 m e .exact = (.ofMantissaAndAccuracy m .exact, e) := by
  have hlog : m.log2 ≤ 52 := by
    rcases m.eq_zero_or_pos with rfl | hpos
    · rw [Nat.log2_zero]
      exact Nat.zero_le _
    · exact Nat.le_of_lt_succ ((Nat.log2_lt hpos.ne').2 hm)
  have hshift : (Format.binary64.targetExponent (totalExponent m e) - e).toNat = 0 := by
    rw [targetExponent_eq]
    omega
  simp only [shiftToTargetExponent, shiftToExponent, hshift, Nat.cast_zero, add_zero]
  rfl

/-- a mantissa that was rounded up to one bit more is shifted back -/
theorem shift_two_pow {e : ℤ} (he : -1074 ≤ e) :
    (shiftToTargetExponent Format.binary64 (2 ^ 53) e .exact).1.mantissa = 2 ^ 52 ∧
      (shiftToTargetExponent Format.binary64 (2 ^ 53) e .exact).2 = e + 1 := by
  have hshift : (Format.binary64.targetExponent (totalExponent (2 ^ 53) e) - e).toNat = 1 := by
    rw [targetExponent_eq, Nat.log2_two_pow]
    omega
  simp only [shiftToTargetExponent, shiftToExponent, hshift, Nat.cast_one, and_true]
  rfl

theorem isNumberOf_pack_zero (s : Sign) : IsNumberOf (Float.Model.pack (.zero s)).unpack 0 := by
  cases s <;> exact .zero _

/-- what rounding makes of a mantissa of 53 bits, or one more -/
theorem isNumberOf_pack {r : ℕ} {t : ℤ} (s : Sign) (hr : r ≤ 2 ^ 53) (hleast : t = -1074 ∨ 2 ^ 52 ≤ r) (ht : -1074 ≤ t)
    (hmost : t ≤ 970) :
    let f := shiftToTargetExponent Format.binary64 r t .exact
    IsNumberOf (Float.Model.pack (if h : f.1.mantissa = 0 then .zero s
      else .finite s f.1.mantissa f.2 (Nat.pos_of_ne_zero h))).unpack (signValue s * (r * 2 ^ t)) := by
  intro f
  rcases hr.lt_or_eq with hlt | rfl
  · have hf : f = (.ofMantissaAndAccuracy r .exact, t) := shift_of_lt hlt ht
    rw [hf]
    show IsNumberOf (Float.Model.pack (if h : r = 0 then .zero s else .finite s r t (Nat.pos_of_ne_zero h))).unpack _
    by_cases hzero : r = 0
    · rw [dif_pos hzero, hzero, Nat.cast_zero, zero_mul, mul_zero]
      exact isNumberOf_pack_zero s
    · rw [dif_neg hzero, unpack_pack s _ hlt hleast ht (by omega)]
      exact .finite s _ hlt hleast ht
  · have hshift : f.1.mantissa = 2 ^ 52 ∧ f.2 = t + 1 := shift_two_pow ht
    have hvalue : ((2 ^ 53 : ℕ) : ℝ) * 2 ^ t = (2 ^ 52 : ℕ) * 2 ^ (t + 1) := by
      rw [zpow_add_one₀ two_ne_zero]
      push_cast
      ring
    clear_value f
    revert hshift
    obtain ⟨⟨mantissa, half, rest⟩, t'⟩ := f
    rintro ⟨rfl, rfl⟩
    rw [hvalue]
    show IsNumberOf (Float.Model.pack (if h : 2 ^ 52 = 0 then .zero s
      else .finite s (2 ^ 52) (t + 1) (Nat.pos_of_ne_zero h))).unpack _
    rw [dif_neg (by decide), unpack_pack s _ (by decide) (.inr (le_refl _)) (by omega) (by omega)]
    exact .finite s _ (by decide) (.inr (le_refl _)) (by omega)

/-- **A mantissa is rounded to the nearest number**, if it has all bits that rounding may ask for. -/
theorem isNumberOf_roundWithAccuracy {m : ℕ} {e : ℤ} {acc : Accuracy} (s : Sign)
    (hcarries : Carries (.ofMantissaAndAccuracy m acc) x) (hbits : 52 ≤ m.log2 ∨ e ≤ -1074)
    (hsmall : x * 2 ^ e ≤ 2 ^ (1000 : ℤ)) :
    IsNumberOf (Float.Model.pack (roundWithAccuracy Format.binary64 s m e acc)).unpack
      (signValue s * rounded (x * 2 ^ e)) := by
  have hmantissa : (ExtendedMantissa.ofMantissaAndAccuracy m acc).mantissa = m := by
    cases acc with
    | exact => rfl
    | inexact o => cases o <;> rfl
  have hm : m ≤ x := hmantissa ▸ hcarries.whole
  have hnext : x < m + 1 := hmantissa ▸ hcarries.next
  have hx : 0 ≤ x := le_trans (Nat.cast_nonneg _) hm
  set k := (Format.binary64.targetExponent (totalExponent m e) - e).toNat with hk
  rw [targetExponent_eq] at hk
  have ht : e + k = max (m.log2 + e - 52) (-1074) := by omega
  have hem := (hcarries.shiftRight k).roundedMantissa_eq
  rcases hx.eq_or_lt with rfl | hpos
  · obtain rfl : m = 0 := by exact_mod_cast hm.antisymm (Nat.cast_nonneg m)
    rw [Nat.log2_zero] at hbits ht
    rw [zero_div, halfEven_zero] at hem
    have hzero : rounded (0 * 2 ^ e) =
        (ExtendedMantissa.ofMantissaAndAccuracy 0 acc >>> k).roundedMantissa * 2 ^ (e + k) := by
      rw [hem, zero_mul, rounded_zero, Nat.cast_zero, zero_mul]
    rw [hzero]
    exact isNumberOf_pack s (hem.trans_le (Nat.zero_le _)) (.inl (by omega)) (by omega) (by omega)
  · have hv : 0 < x * 2 ^ e := by positivity
    have hplace := place_mul_zpow hpos hm hnext hbits
    rw [← ht] at hplace
    have hlast : lastPlace (x * 2 ^ e) = 2 ^ (e + k) := by rw [lastPlace_eq hv.le, hplace]
    have hquot : x * 2 ^ e / lastPlace (x * 2 ^ e) = x / 2 ^ k := by
      rw [hlast, zpow_add₀ two_ne_zero, zpow_natCast]
      field_simp
    have hr := halfEven_le hv.le
    have hleast : e + k = -1074 ∨ 2 ^ 52 ≤ halfEven (x * 2 ^ e / lastPlace (x * 2 ^ e)) :=
      or_iff_not_imp_left.2 fun hgt => le_halfEven hv (by omega)
    have hmost : e + k ≤ 970 := by
      have hlog : Int.log 2 (x * 2 ^ e) < 1001 := by
        rw [← Int.lt_zpow_iff_log_lt one_lt_two hv]
        push_cast
        exact lt_of_le_of_lt hsmall (zpow_lt_zpow_right₀ one_lt_two (by norm_num))
      omega
    rw [hquot, ← hem] at hr hleast
    rw [rounded_of_nonneg hv.le, hquot, hlast, ← hem]
    exact isNumberOf_pack s hr hleast (by omega) hmost

theorem log2_shiftLeft {m : ℕ} (hpos : 0 < m) (j : ℕ) : (m <<< j).log2 = m.log2 + j := by
  have hj := Nat.two_pow_pos j
  rw [Nat.shiftLeft_eq, Nat.log2_eq_iff (Nat.mul_pos hpos hj).ne', Nat.pow_add, Nat.add_right_comm, Nat.pow_add]
  exact ⟨Nat.mul_le_mul_right _ (Nat.log2_self_le hpos.ne'), Nat.mul_lt_mul_of_pos_right Nat.lt_log2_self hj⟩

theorem isNumberOf_round {m : ℕ} {e : ℤ} (s : Sign) (hpos : 0 < m) (hsmall : (m : ℝ) * 2 ^ e ≤ 2 ^ (1000 : ℤ)) :
    IsNumberOf (Float.Model.pack (round Format.binary64 s m e)).unpack (signValue s * rounded (m * 2 ^ e)) := by
  set j := (e - Format.binary64.targetExponent (totalExponent m e)).toNat with hj
  rw [targetExponent_eq] at hj
  have hlog := log2_shiftLeft hpos j
  have hbits : 52 ≤ (m <<< j).log2 ∨ e - j ≤ -1074 := by omega
  have hvalue : ((m <<< j : ℕ) : ℝ) * 2 ^ (e - j) = m * 2 ^ e := by
    rw [Nat.shiftLeft_eq, zpow_sub₀ two_ne_zero, zpow_natCast]
    push_cast
    field_simp
  rw [← hvalue]
  exact isNumberOf_roundWithAccuracy s (carries_exact _) hbits (hvalue ▸ hsmall)

theorem isNumberOf_normalize {z : ℤ} {e : ℤ} (s : Sign) (hsmall : |(z : ℝ) * 2 ^ e| ≤ 2 ^ (1000 : ℤ)) :
    IsNumberOf (Float.Model.pack (UnpackedFloat.normalize Format.binary64 z e s)).unpack (rounded (z * 2 ^ e)) := by
  unfold UnpackedFloat.normalize
  rcases lt_trichotomy z 0 with hneg | rfl | hpos
  · have hz : (z : ℝ) * 2 ^ e = signValue .negative * ((-z).toNat * 2 ^ e) := by
      have : (((-z).toNat : ℤ) : ℝ) = -z := by exact_mod_cast Int.toNat_of_nonneg (by omega)
      rw [signValue, ← Int.cast_natCast, this]
      ring
    rw [Int.compare_eq_lt.2 hneg, hz, rounded_signValue]
    rw [hz, abs_mul, abs_signValue, one_mul, abs_of_nonneg (by positivity)] at hsmall
    exact isNumberOf_round .negative (by omega) hsmall
  · rw [Int.compare_eq_eq.2 rfl, Int.cast_zero, zero_mul, rounded_zero]
    exact isNumberOf_pack_zero s
  · have hz : (z : ℝ) * 2 ^ e = signValue .positive * (z.toNat * 2 ^ e) := by
      have : ((z.toNat : ℤ) : ℝ) = z := by exact_mod_cast Int.toNat_of_nonneg (by omega)
      rw [signValue, ← Int.cast_natCast, this]
      ring
    rw [Int.compare_eq_gt.2 hpos, hz, rounded_signValue]
    rw [hz, abs_mul, abs_signValue, one_mul, abs_of_nonneg (by positivity)] at hsmall
    exact isNumberOf_round .positive (by omega) hsmall

end LoadGen.Decimal
