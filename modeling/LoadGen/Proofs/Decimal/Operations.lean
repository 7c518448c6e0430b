/-
Floats as numbers. A float that is neither an infinity nor none is a real number, and every operation gives the exact
result, rounded, as long as that is not too large.

- `IsNumber`: the number that a float is.
- `IsNumber.add`, `IsNumber.sub`, `IsNumber.mul`, `IsNumber.div`, `IsNumber.sqrt`, `isNumber_ofNat`: operations round.
- `IsNumber.le_iff`, `IsNumber.lt_iff`: floats compare as numbers.
-/
import Mathlib.Order.Compare
import LoadGen.Proofs.Decimal.Mantissas

namespace LoadGen.Decimal

open Float.Model UnpackedFloat

variable {u u' : UnpackedFloat} {x y : Float} {v w : ℝ}

/-! ## Operations -/

/-- numbers that are not too large are packed as they are -/
theorem IsNumberOf.pack (h : IsNumberOf u v) (hsmall : |v| ≤ 2 ^ (1000 : ℤ)) :
    IsNumberOf (Float.Model.pack u).unpack v := by
  cases h with
  | zero s => exact isNumberOf_pack_zero s
  | @finite s m e hpos hlt hleast he =>
    have hmost : e ≤ 971 := by
      rcases hleast with rfl | hm
      · decide
      · have hle : (2 : ℝ) ^ (52 + e) ≤ 2 ^ (1000 : ℤ) := by
          rw [abs_mul, abs_signValue, one_mul, abs_of_nonneg (by positivity)] at hsmall
          refine le_trans ?_ hsmall
          rw [zpow_add₀ two_ne_zero]
          refine mul_le_mul_of_nonneg_right ?_ (by positivity)
          exact_mod_cast hm
        have := (zpow_le_zpow_iff_right₀ one_lt_two).1 hle
        omega
    rw [unpack_pack s hpos hlt hleast he hmost]
    exact .finite s hpos hlt hleast he

/-- a finite float as a whole number of some place below its own -/
theorem signValue_eq_apply (s : Sign) (m : ℕ) {e f : ℤ} (hf : f ≤ e) :
    signValue s * (m * 2 ^ e) = (s.apply (decreaseExponent m e f).1 : ℤ) * 2 ^ f := by
  rw [apply_cast, mul_assoc]
  congr 1
  show _ = ((m <<< (e - f).toNat : ℕ) : ℝ) * 2 ^ f
  rw [Nat.shiftLeft_eq]
  push_cast
  rw [mul_assoc, ← zpow_natCast, ← zpow_add₀ two_ne_zero]
  congr 2
  omega

/-- **Adding rounds.** -/
theorem IsNumberOf.add (h : IsNumberOf u v) (h' : IsNumberOf u' w) (hsmall : |v + w| ≤ 2 ^ (1000 : ℤ)) :
    IsNumberOf (Float.Model.pack (u.add Format.binary64 u')).unpack (rounded (v + w)) := by
  cases h with
  | zero s =>
    rw [zero_add] at hsmall ⊢
    rw [h'.rounded_eq]
    cases h' with
    | zero s' => cases s <;> cases s' <;> exact .zero _
    | finite s' hpos hlt hleast he => exact (IsNumberOf.finite s' hpos hlt hleast he).pack hsmall
  | @finite s m e hpos hlt hleast he =>
    cases h' with
    | zero s' =>
      rw [add_zero] at hsmall ⊢
      have h := IsNumberOf.finite s hpos hlt hleast he
      rw [h.rounded_eq]
      exact h.pack hsmall
    | @finite s' m' e' hpos' hlt' hleast' he' =>
      rw [signValue_eq_apply s m (min_le_left e e'), signValue_eq_apply s' m' (min_le_right e e'), ← add_mul,
        ← Int.cast_add] at hsmall ⊢
      exact isNumberOf_normalize .positive hsmall

/-- **Subtracting rounds.** -/
theorem IsNumberOf.sub (h : IsNumberOf u v) (h' : IsNumberOf u' w) (hsmall : |v - w| ≤ 2 ^ (1000 : ℤ)) :
    IsNumberOf (Float.Model.pack (u.sub Format.binary64 u')).unpack (rounded (v - w)) := by
  cases h with
  | zero s =>
    rw [zero_sub] at hsmall ⊢
    rw [rounded_neg, h'.rounded_eq]
    cases h' with
    | zero s' =>
      rw [neg_zero]
      cases s <;> cases s' <;> exact .zero _
    | finite s' hpos hlt hleast he =>
      rw [← neg_mul, ← signValue_neg] at hsmall ⊢
      exact (IsNumberOf.finite (-s') hpos hlt hleast he).pack hsmall
  | @finite s m e hpos hlt hleast he =>
    cases h' with
    | zero s' =>
      rw [sub_zero] at hsmall ⊢
      have h := IsNumberOf.finite s hpos hlt hleast he
      rw [h.rounded_eq]
      exact h.pack hsmall
    | @finite s' m' e' hpos' hlt' hleast' he' =>
      rw [signValue_eq_apply s m (min_le_left e e'), signValue_eq_apply s' m' (min_le_right e e'), ← sub_mul,
        ← Int.cast_sub] at hsmall ⊢
      exact isNumberOf_normalize .positive hsmall

/-- **Multiplying rounds.** -/
theorem IsNumberOf.mul (h : IsNumberOf u v) (h' : IsNumberOf u' w) (hsmall : |v * w| ≤ 2 ^ (1000 : ℤ)) :
    IsNumberOf (Float.Model.pack (u.mul Format.binary64 u')).unpack (rounded (v * w)) := by
  cases h with
  | zero s =>
    rw [zero_mul, rounded_zero]
    cases h' with
    | zero s' => exact isNumberOf_pack_zero _
    | finite s' hpos hlt hleast he => exact isNumberOf_pack_zero _
  | @finite s m e hpos hlt hleast he =>
    cases h' with
    | zero s' =>
      rw [mul_zero, rounded_zero]
      exact isNumberOf_pack_zero _
    | @finite s' m' e' hpos' hlt' hleast' he' =>
      have hvalue : signValue s * (m * 2 ^ e) * (signValue s' * (m' * 2 ^ e')) =
          signValue (s * s') * ((m * m' : ℕ) * 2 ^ (e + e')) := by
        rw [signValue_mul, zpow_add₀ two_ne_zero]
        push_cast
        ring
      have hbits : 52 ≤ (m * m').log2 ∨ e + e' ≤ -1074 := by
        rw [Nat.le_log2 (Nat.mul_pos hpos hpos').ne']
        rcases hleast with rfl | hm
        · rcases hleast' with rfl | hm'
          · exact .inr (by decide)
          · exact .inl (hm'.trans (Nat.le_mul_of_pos_left _ hpos))
        · exact .inl (hm.trans (Nat.le_mul_of_pos_right _ hpos'))
      rw [hvalue, abs_mul, abs_signValue, one_mul, abs_of_nonneg (by positivity)] at hsmall
      rw [hvalue, rounded_signValue]
      exact isNumberOf_roundWithAccuracy _ (carries_exact _) hbits hsmall

/-- a quotient has as many bits as its operands differ by, or one less -/
theorem le_log2_quotient {num den : ℕ} (hden : 0 < den) (hnum : 53 + den.log2 ≤ num.log2) : 52 ≤ (num / den).log2 := by
  have hpos : num ≠ 0 := by
    rintro rfl
    rw [Nat.log2_zero] at hnum
    omega
  have hquot : 2 ^ 52 ≤ num / den := by
    rw [Nat.le_div_iff_mul_le hden]
    calc 2 ^ 52 * den ≤ 2 ^ 52 * 2 ^ (den.log2 + 1) := Nat.mul_le_mul_left _ Nat.lt_log2_self.le
      _ = 2 ^ (53 + den.log2) := by rw [← Nat.pow_add]; congr 1; omega
      _ ≤ num := (Nat.le_log2 hpos).1 hnum
  rwa [Nat.le_log2 (by omega)]

/-- **Dividing rounds.** -/
theorem IsNumberOf.div (h : IsNumberOf u v) (h' : IsNumberOf u' w) (hw : w ≠ 0) (hsmall : |v / w| ≤ 2 ^ (1000 : ℤ)) :
    IsNumberOf (Float.Model.pack (u.div Format.binary64 u')).unpack (rounded (v / w)) := by
  cases h' with
  | zero s' => exact absurd rfl hw
  | @finite s' m' e' hpos' hlt' hleast' he' =>
    cases h with
    | zero s =>
      rw [zero_div, rounded_zero]
      exact isNumberOf_pack_zero _
    | @finite s m e hpos hlt hleast he =>
      set t := min (e - e') (Format.binary64.targetExponent (totalExponent m e - totalExponent m' e')) with ht
      set j := (e - e' - t).toNat with hj
      have htarget : Format.binary64.targetExponent (totalExponent m e - totalExponent m' e') =
          max ((m.log2 : ℤ) + e - (m'.log2 + e') - 53) (-1074) := by
        show max ((m.log2 : ℤ) + 1 + e - (m'.log2 + 1 + e') - 53) (-1074) = _
        congr 1
        ring
      rw [htarget] at ht
      have hcarries := carries_quotient (m <<< j) hpos'
      have hdivisor : (0 : ℝ) < m' := Nat.cast_pos.2 hpos'
      have hvalue : signValue s * (m * 2 ^ e) / (signValue s' * (m' * 2 ^ e')) =
          signValue (s / s') * (((m <<< j : ℕ) : ℝ) / m' * 2 ^ t) := by
        have he' : e = j + e' + t := by omega
        rw [signValue_div, Nat.shiftLeft_eq, he', zpow_add₀ two_ne_zero, zpow_add₀ two_ne_zero, zpow_natCast]
        push_cast
        field_simp
      have hlog := log2_shiftLeft hpos j
      have hbits : 52 ≤ ((m <<< j) / m').log2 ∨ t ≤ -1074 :=
        or_iff_not_imp_right.2 fun hgt => le_log2_quotient hpos' (by omega)
      rw [hvalue, abs_mul, abs_signValue, one_mul, abs_of_nonneg (by positivity)] at hsmall
      rw [hvalue, rounded_signValue]
      exact isNumberOf_roundWithAccuracy _ hcarries hbits hsmall

/-- a square root has half as many bits -/
theorem le_log2_sqrt {m : ℕ} (hm : 104 ≤ m.log2) : 52 ≤ m.sqrt.log2 := by
  have hpos : m ≠ 0 := by
    rintro rfl
    rw [Nat.log2_zero] at hm
    omega
  have hroot : 2 ^ 52 ≤ m.sqrt := by
    rw [Nat.le_sqrt, ← Nat.pow_add]
    exact (Nat.le_log2 hpos).1 hm
  rwa [Nat.le_log2 (by omega)]

/-- **A square root rounds.** -/
theorem IsNumberOf.sqrt (h : IsNumberOf u v) (hv : 0 ≤ v) (hsmall : √v ≤ 2 ^ (1000 : ℤ)) :
    IsNumberOf (Float.Model.pack (u.sqrt Format.binary64)).unpack (rounded √v) := by
  cases h with
  | zero s =>
    rw [Real.sqrt_zero, rounded_zero]
    exact isNumberOf_pack_zero s
  | @finite s m e hpos hlt hleast he =>
    have hcast : (0 : ℝ) < m := Nat.cast_pos.2 hpos
    cases s with
    | negative =>
      have : (0 : ℝ) < m * 2 ^ e := by positivity
      rw [signValue] at hv
      linarith
    | positive =>
      set t := min (e.ediv 2) (Format.binary64.targetExponent ((totalExponent m e + 1).ediv 2)) with ht
      set j := (e - 2 * t).toNat with hj
      have htarget : Format.binary64.targetExponent ((totalExponent m e + 1).ediv 2) =
          max (((m.log2 : ℤ) + e + 2) / 2 - 53) (-1074) := by
        show max (((m.log2 : ℤ) + 1 + e + 1) / 2 - 53) (-1074) = _
        congr 3
        ring
      have hhalf : e.ediv 2 = e / 2 := rfl
      rw [htarget, hhalf] at ht
      have hvalue : √(signValue .positive * (m * 2 ^ e)) = √((m <<< j : ℕ) : ℝ) * 2 ^ t := by
        have he' : e = j + 2 * t := by omega
        have hpow : (0 : ℝ) ≤ 2 ^ t := by positivity
        rw [signValue, one_mul, ← Real.sqrt_sq hpow, ← Real.sqrt_mul (Nat.cast_nonneg _), Nat.shiftLeft_eq]
        congr 1
        rw [he', zpow_add₀ two_ne_zero, zpow_natCast, two_mul t, zpow_add₀ two_ne_zero]
        push_cast
        ring
      have hlog := log2_shiftLeft hpos j
      have hbits : 52 ≤ (m <<< j).sqrt.log2 ∨ t ≤ -1074 := or_iff_not_imp_right.2 fun hgt => le_log2_sqrt (by omega)
      rw [hvalue] at hsmall ⊢
      have := isNumberOf_roundWithAccuracy .positive (carries_sqrt (m <<< j)) hbits hsmall
      rwa [signValue, one_mul] at this

/-! ## Comparing -/

/-- magnitudes compare as their exponents and then their mantissas do -/
theorem compares_magnitude {m n : ℕ} {e f : ℤ} (hm : m < 2 ^ 53) (hn : n < 2 ^ 53)
    (hleast : e = -1074 ∨ 2 ^ 52 ≤ m) (hleast' : f = -1074 ∨ 2 ^ 52 ≤ n) (he : -1074 ≤ e) (hf : -1074 ≤ f) :
    ((compare e f).then (compare m n)).Compares ((m : ℝ) * 2 ^ e) (n * 2 ^ f) := by
  have hless {m n : ℕ} {e f : ℤ} (hm : m < 2 ^ 53) (hn : 2 ^ 52 ≤ n) (hef : e < f) : (m : ℝ) * 2 ^ e < n * 2 ^ f := by
    have hm' : (m : ℝ) < 2 ^ 53 := by exact_mod_cast hm
    have hn' : (2 : ℝ) ^ 52 ≤ n := by exact_mod_cast hn
    calc (m : ℝ) * 2 ^ e < 2 ^ 53 * 2 ^ e := by gcongr
      _ = 2 ^ 52 * 2 ^ (e + 1) := by rw [zpow_add_one₀ two_ne_zero]; ring
      _ ≤ 2 ^ 52 * 2 ^ f := by gcongr <;> [norm_num; omega]
      _ ≤ n * 2 ^ f := by gcongr
  rcases lt_trichotomy e f with hlt | rfl | hgt
  · rw [Int.compare_eq_lt.2 hlt]
    exact hless hm (hleast'.resolve_left (by omega)) hlt
  · rw [Int.compare_eq_eq.2 rfl, Ordering.eq_then]
    have hpos : (0 : ℝ) < 2 ^ e := by positivity
    rcases lt_trichotomy m n with hlt | rfl | hgt
    · rw [Nat.compare_eq_lt.2 hlt]
      exact mul_lt_mul_of_pos_right (Nat.cast_lt.2 hlt) hpos
    · rw [Nat.compare_eq_eq.2 rfl]
      exact rfl
    · rw [Nat.compare_eq_gt.2 hgt]
      exact mul_lt_mul_of_pos_right (Nat.cast_lt.2 hgt) hpos
  · rw [Int.compare_eq_gt.2 hgt]
    exact hless hn (hleast.resolve_left (by omega)) hgt

theorem compares_neg {o : Ordering} {a b : ℝ} (h : o.Compares a b) :
    o.swap.Compares (signValue .negative * a) (signValue .negative * b) := by
  rw [signValue, neg_one_mul, neg_one_mul]
  cases o with
  | lt => exact neg_lt_neg h
  | eq => exact congrArg Neg.neg h
  | gt => exact neg_lt_neg h

/-- **Floats compare as numbers.** -/
theorem IsNumberOf.compare (h : IsNumberOf u v) (h' : IsNumberOf u' w) :
    ∃ o, u.compare u' = some o ∧ o.Compares v w := by
  have hpositive {m : ℕ} (hpos : 0 < m) (e : ℤ) : 0 < signValue .positive * ((m : ℝ) * 2 ^ e) := by
    rw [signValue, one_mul]
    positivity
  have hnegative {m : ℕ} (hpos : 0 < m) (e : ℤ) : signValue .negative * ((m : ℝ) * 2 ^ e) < 0 := by
    rw [signValue, neg_one_mul, neg_lt_zero]
    positivity
  cases h with
  | zero s =>
    cases h' with
    | zero s' => exact ⟨.eq, rfl, rfl⟩
    | finite s' hpos hlt hleast he =>
      cases s' with
      | negative => exact ⟨.gt, rfl, hnegative hpos _⟩
      | positive => exact ⟨.lt, rfl, hpositive hpos _⟩
  | finite s hpos hlt hleast he =>
    cases h' with
    | zero s' =>
      cases s with
      | negative => exact ⟨.lt, rfl, hnegative hpos _⟩
      | positive => exact ⟨.gt, rfl, hpositive hpos _⟩
    | finite s' hpos' hlt' hleast' he' =>
      have hcompares := compares_magnitude hlt hlt' hleast hleast' he he'
      cases s with
      | negative =>
        cases s' with
        | negative => exact ⟨_, rfl, compares_neg hcompares⟩
        | positive => exact ⟨.lt, rfl, (hnegative hpos _).trans (hpositive hpos' _)⟩
      | positive =>
        cases s' with
        | negative => exact ⟨.gt, rfl, (hnegative hpos' _).trans (hpositive hpos _)⟩
        | positive =>
          refine ⟨_, rfl, ?_⟩
          rwa [signValue, one_mul, one_mul]

/-! ## Floats -/

/-- numbers up to a smaller power of two are not too large -/
theorem abs_le_of_le {e : ℤ} (hv : 0 ≤ v) (hle : v ≤ 2 ^ e) (he : e ≤ 1000) : |v| ≤ 2 ^ (1000 : ℤ) := by
  rw [abs_of_nonneg hv]
  exact le_two_zpow_of_le hle he

/-- a float is a number -/
def IsNumber (x : Float) (v : ℝ) : Prop :=
  IsNumberOf x.toModel.unpack v

namespace IsNumber

variable (hx : IsNumber x v) (hy : IsNumber y w)

include hx

theorem rounded_eq : rounded v = v :=
  IsNumberOf.rounded_eq hx

theorem sqrt (hv : 0 ≤ v) (hsmall : √v ≤ 2 ^ (1000 : ℤ)) : IsNumber x.sqrt (rounded √v) :=
  IsNumberOf.sqrt hx hv hsmall

include hy

theorem add (hsmall : |v + w| ≤ 2 ^ (1000 : ℤ)) : IsNumber (x + y) (rounded (v + w)) :=
  IsNumberOf.add hx hy hsmall

theorem sub (hsmall : |v - w| ≤ 2 ^ (1000 : ℤ)) : IsNumber (x - y) (rounded (v - w)) :=
  IsNumberOf.sub hx hy hsmall

theorem mul (hsmall : |v * w| ≤ 2 ^ (1000 : ℤ)) : IsNumber (x * y) (rounded (v * w)) :=
  IsNumberOf.mul hx hy hsmall

theorem div (hw : w ≠ 0) (hsmall : |v / w| ≤ 2 ^ (1000 : ℤ)) : IsNumber (x / y) (rounded (v / w)) :=
  IsNumberOf.div hx hy hw hsmall

theorem le_iff : x ≤ y ↔ v ≤ w := by
  obtain ⟨o, ho, hcompares⟩ := IsNumberOf.compare hx hy
  rw [le_iff_unpack, UnpackedFloat.le, ho, Option.any_some, ← hcompares.ne_gt, Ordering.isLE_iff_ne_gt]

theorem lt_iff : x < y ↔ v < w := by
  obtain ⟨o, ho, hcompares⟩ := IsNumberOf.compare hx hy
  rw [lt_iff_unpack, UnpackedFloat.lt, ho, ← hcompares.eq_lt, beq_iff_eq, Option.some.injEq]

end IsNumber

/-- a magnitude as a fraction -/
theorem Magnitude.num_div_den (size : Magnitude) : (size.num / size.den : ℝ) = size.mantissa * 2 ^ size.exponent := by
  rcases le_or_gt 0 size.exponent with he | he
  · obtain ⟨k, hk⟩ := Int.eq_ofNat_of_zero_le he
    rw [den_of_nonneg he, num, hk, Int.toNat_natCast, Nat.pow_eq, zpow_natCast]
    push_cast
    exact div_one _
  · obtain ⟨k, hk⟩ := Int.eq_ofNat_of_zero_le (neg_nonneg.2 he.le)
    have hk' : size.exponent = -k := by omega
    rw [num_of_neg he, den, hk, hk', Int.toNat_natCast, Nat.pow_eq, zpow_neg, zpow_natCast]
    push_cast
    exact div_eq_mul_inv _ _

/-- the kind of a float says which number it is -/
theorem isNumber_of_kindOf {negative : Bool} {size : Magnitude} (h : kindOf x = .finite negative size)
    (he : -1074 ≤ size.exponent) :
    IsNumber x ((if negative then -1 else 1) * (size.mantissa * 2 ^ size.exponent)) := by
  have hd := decodes x
  unfold IsNumber
  rw [h] at hd
  generalize x.toModel.unpack = u at hd
  cases hd with
  | zero s tight =>
    rw [Nat.cast_zero, zero_mul, mul_zero]
    exact .zero s
  | @finite s m e hpos size hm he' hlt hleast =>
    subst hm he'
    have := IsNumberOf.finite s hpos hlt hleast he
    cases s with
    | negative => exact this
    | positive => exact this

theorem isNumber_one : IsNumber (Float.ofBits 0x3FF0000000000000) 1 := by
  have hkind : kindOf (Float.ofBits 0x3FF0000000000000) = .finite false ⟨2 ^ 52, -52, true⟩ := by decide +kernel
  have := isNumber_of_kindOf hkind (by decide)
  norm_num at this
  exact this

/-- **A whole number of 53 bits stays.** It is made from a word, times one. -/
theorem isNumber_natCast {n : ℕ} (hn : n < 2 ^ 53) : IsNumber (Float.ofNat n) n := by
  have hsmall : |(n : ℝ)| ≤ 2 ^ (1000 : ℤ) := by
    have : (n : ℝ) ≤ 2 ^ (53 : ℤ) := by exact_mod_cast hn.le
    exact abs_le_of_le (Nat.cast_nonneg n) this (by norm_num)
  have hword : IsNumber n.toUInt64.toFloat n := by
    have hcast : n.toUInt64.toNat = n := Nat.mod_eq_of_lt (lt_trans hn (by norm_num))
    have := isNumberOf_normalize (z := n) (e := 0) .positive (by simpa using hsmall)
    rw [zpow_zero, mul_one, Int.cast_natCast, rounded_natCast hn] at this
    show IsNumberOf (Float.Model.pack (UnpackedFloat.normalize Format.binary64 n.toUInt64.toNat 0 .positive)).unpack n
    rwa [hcast]
  have hmul : Float.ofNat n = n.toUInt64.toFloat * Float.ofBits 0x3FF0000000000000 := by
    show Float.ofScientific n false 0 = _
    rw [Float.ofScientific, dif_pos ⟨hn, by decide⟩]
    rfl
  have := hword.mul isNumber_one (by rwa [mul_one])
  rwa [mul_one, rounded_natCast hn, ← hmul] at this

theorem ofScientific_natCast {n : ℕ} (hpos : 0 < n) : UnpackedFloat.ofScientific Format.binary64 n 0 =
    roundWithAccuracy Format.binary64 .positive (n <<< 53 * 10 ^ 0) (-53 + 0) .exact := by
  have hmost : ¬(0 : ℤ) > 2 ^ Format.binary64.exponentBits := by decide
  have hleast : ¬(0 : ℤ) < -((2 ^ Format.binary64.exponentBits : ℤ) + n.log2) := by
    have : (0 : ℤ) ≤ 2 ^ Format.binary64.exponentBits := by decide
    omega
  delta UnpackedFloat.ofScientific
  dsimp only
  rw [dif_neg hpos.ne', if_neg hmost, if_neg hleast, if_pos (le_refl _)]
  rfl

/-- **A whole number is rounded.** -/
theorem isNumber_ofNat (n : ℕ) (hsmall : (n : ℝ) ≤ 2 ^ (1000 : ℤ)) : IsNumber (Float.ofNat n) (rounded n) := by
  by_cases hlt : n < 2 ^ 53
  · rw [rounded_natCast hlt]
    exact isNumber_natCast hlt
  · have hpos : 0 < n := by omega
    have hslow : Float.ofNat n = Float.ofModel (Float.Model.ofScientific n 0) := by
      show Float.ofScientific n false 0 = _
      rw [Float.ofScientific, dif_neg fun h => hlt h.1]
      rfl
    have hvalue : ((n <<< 53 * 10 ^ 0 : ℕ) : ℝ) * 2 ^ (-53 + 0 : ℤ) = n := by
      rw [Nat.shiftLeft_eq, pow_zero, mul_one, Nat.cast_mul, mul_assoc]
      norm_num
    have hbits : 52 ≤ (n <<< 53 * 10 ^ 0).log2 := by
      rw [pow_zero, mul_one, log2_shiftLeft hpos]
      exact le_add_left (by decide)
    have := isNumberOf_roundWithAccuracy .positive (carries_exact _) (.inl hbits) (hvalue ▸ hsmall)
    rw [hvalue, signValue, one_mul] at this
    rw [hslow]
    show IsNumberOf (Float.Model.pack (UnpackedFloat.ofScientific Format.binary64 n 0)).unpack _
    rwa [ofScientific_natCast hpos]

end LoadGen.Decimal
