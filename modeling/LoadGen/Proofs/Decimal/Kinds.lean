/-
What the bits of a float say, and what the operations on floats make of them. A float compares as its parts, sign,
mantissa and exponent, which are those of its kind; so a statement on floats becomes one on whole numbers.

- `decodes`: a float taken apart for comparing, and its kind, say the same.
- `isFinite_of_le`: what lies between zero and a finite float is finite.
- `Magnitude.wordLimit_le_iff`: which magnitudes of 53 bits are at least `2 ^ 64`.
- `exists_magnitude`: a finite float that is not below zero is at least `2 ^ 64` exactly if its magnitude is.
-/
import Mathlib.Algebra.Group.Nat.Defs
import LoadGen.Decimal.Magnitude

namespace LoadGen.Decimal

open Float.Model

/-! ## Bits -/

/-- the sign says minus -/
def isMinus : UnpackedFloat.Sign → Bool
  | .negative => true
  | .positive => false

theorem isMinus_ofBitVec (b : BitVec 1) : isMinus (.ofBitVec b) = decide (b.toNat = 1) := by
  obtain ⟨⟨n, hn⟩⟩ := b
  obtain rfl | rfl : n = 0 ∨ n = 1 := by omega
  · rfl
  · rfl

section Bits

variable (b : BitVec Format.binary64.numBits)

theorem toNat_unpackExponent :
    (UnpackedFloat.unpackExponent b).toNat = b.toNat / Nat.pow 2 52 % Nat.pow 2 11 := by
  simp only [UnpackedFloat.unpackExponent, BitVec.toNat_cast, BitVec.extractLsb_toNat, Nat.shiftRight_eq_div_pow]

theorem toNat_unpackMantissa : (UnpackedFloat.unpackMantissa b).toNat = b.toNat % Nat.pow 2 52 := by
  simp only [UnpackedFloat.unpackMantissa, BitVec.toNat_cast, BitVec.extractLsb_toNat, Nat.shiftRight_zero]

theorem isMinus_unpackSign :
    isMinus (.ofBitVec (UnpackedFloat.unpackSign b)) = decide (b.toNat / Nat.pow 2 63 % 2 = 1) := by
  rw [isMinus_ofBitVec]
  delta UnpackedFloat.unpackSign
  simp only [BitVec.toNat_cast, BitVec.extractLsb_toNat, Nat.shiftRight_eq_div_pow]

theorem unpackExponent_eq_iff {n : Nat} (hn : n < 2 ^ 11) :
    UnpackedFloat.unpackExponent b = BitVec.ofNat 11 n ↔ b.toNat / Nat.pow 2 52 % Nat.pow 2 11 = n := by
  rw [← toNat_unpackExponent, ← BitVec.toNat_inj, BitVec.toNat_ofNat, Nat.mod_eq_of_lt hn]

theorem unpackMantissa_eq_zero_iff : UnpackedFloat.unpackMantissa b = 0#52 ↔ b.toNat % Nat.pow 2 52 = 0 := by
  rw [← toNat_unpackMantissa, ← BitVec.toNat_inj, BitVec.toNat_ofNat]
  rfl

end Bits

/-! ## Kinds -/

/-- a float taken apart, and its kind; a magnitude has 53 bits, and fewer only at the least exponent -/
inductive Decodes : UnpackedFloat → FloatKind → Prop where
  | nan : Decodes .notANumber .nan
  | infinite (s) : Decodes (.infinity s) (.infinite (isMinus s))
  | zero (s) (tight) : Decodes (.zero s) (.finite (isMinus s) ⟨0, -1074, tight⟩)
  | finite (s) {m : Nat} {e : Int} (hpos : 0 < m) {size : Magnitude} (hm : m = size.mantissa) (he : e = size.exponent)
      (hlt : size.mantissa < 2 ^ 53) (hleast : size.exponent = -1074 ∨ 2 ^ 52 ≤ size.mantissa) :
      Decodes (.finite s m e hpos) (.finite (isMinus s) size)

theorem decodes_bits (b : BitVec Format.binary64.numBits) :
    Decodes (UnpackedFloat.unpack _ b) (kindOfBits b.toNat) := by
  have hall : UnpackedFloat.unpackExponent b = -1#11 ↔ b.toNat / Nat.pow 2 52 % Nat.pow 2 11 = 2047 :=
    unpackExponent_eq_iff b (by decide)
  have hnone : UnpackedFloat.unpackExponent b = 0#11 ↔ b.toNat / Nat.pow 2 52 % Nat.pow 2 11 = 0 :=
    unpackExponent_eq_iff b (by decide)
  have hzero := unpackMantissa_eq_zero_iff b
  have hmantissa := toNat_unpackMantissa b
  have hexponent := toNat_unpackExponent b
  have hlt : b.toNat % Nat.pow 2 52 < 2 ^ 52 := Nat.mod_lt _ (by decide)
  rw [kindOfBits, ← isMinus_unpackSign]
  delta UnpackedFloat.unpack
  dsimp only
  by_cases hones : b.toNat / Nat.pow 2 52 % Nat.pow 2 11 = 2047
  · rw [if_pos hones, if_pos (hall.2 hones)]
    by_cases hm : b.toNat % Nat.pow 2 52 = 0
    · rw [if_pos hm, if_pos (hzero.2 hm)]
      exact .infinite _
    · rw [if_neg hm, if_neg (mt hzero.1 hm)]
      exact .nan
  · rw [if_neg hones, if_neg (mt hall.1 hones)]
    by_cases hsub : b.toNat / Nat.pow 2 52 % Nat.pow 2 11 = 0
    · rw [if_pos hsub, if_pos (hnone.2 hsub)]
      by_cases hm : b.toNat % Nat.pow 2 52 = 0
      · rw [dif_pos (hzero.2 hm), hm]
        exact .zero _ _
      · rw [dif_neg (mt hzero.1 hm)]
        refine .finite _ _ hmantissa ?_ (Nat.lt_trans hlt (by decide)) (.inl rfl)
        rw [hexponent, hsub]
        rfl
    · -- the leading bit of the mantissa is not written
      rw [if_neg hsub, if_neg (mt hnone.1 hsub)]
      refine .finite _ _ ?_ ?_ (Nat.add_lt_add_left hlt _) (.inr (Nat.le_add_right _ _))
      · rw [BitVec.toNat_append, hmantissa, ← Nat.shiftLeft_add_eq_or_of_lt hlt]
        rfl
      · rw [hexponent]
        rfl

theorem decodes (x : Float) : Decodes x.toModel.unpack (kindOf x) :=
  decodes_bits x.toModel.toBits.toBitVec

/-! ## Comparing -/

theorem lt_iff_unpack (x y : Float) : x < y ↔ x.toModel.unpack.lt y.toModel.unpack = true := by
  rw [show (x < y) = (decide (x.toModel < y.toModel) = true) from rfl, decide_eq_true_eq]
  rfl

theorem le_iff_unpack (x y : Float) : x ≤ y ↔ x.toModel.unpack.le y.toModel.unpack = true := by
  rw [show (x ≤ y) = (decide (x.toModel ≤ y.toModel) = true) from rfl, decide_eq_true_eq]
  rfl

/-- a number above zero and at most a finite one is finite -/
theorem isFinite_of_le {x bound : Float} (hpos : 0.0 < x) (hle : x ≤ bound) (hbound : bound.isFinite = true) :
    x.isFinite = true := by
  have hbound : bound.toModel.unpack.isFinite = true := hbound
  rw [lt_iff_unpack] at hpos
  rw [le_iff_unpack] at hle
  show x.toModel.unpack.isFinite = true
  generalize x.toModel.unpack = u at *
  generalize bound.toModel.unpack = b at *
  cases u with
  | notANumber => cases hpos
  | infinity s =>
    cases s with
    | negative => cases hpos
    | positive =>
      cases b with
      | notANumber | infinity => cases hbound
      | zero | finite => cases hle
  | zero | finite => rfl

theorem lt_zero_iff (x : Float) : x < 0.0 ↔ x.toModel.unpack.lt (.zero .positive) = true :=
  lt_iff_unpack x 0.0

/-- `2 ^ 64`, the first number that no word holds -/
def wordLimit : Float := 18446744073709551616.0

theorem wordLimit_le_iff (x : Float) :
    wordLimit ≤ x ↔ (UnpackedFloat.finite .positive (2 ^ 52) 12 (by decide)).le x.toModel.unpack = true :=
  le_iff_unpack wordLimit x

theorem not_lt_zero {x : Float} (h : wordLimit ≤ x) : ¬x < 0.0 := by
  rw [wordLimit_le_iff] at h
  rw [lt_zero_iff]
  generalize x.toModel.unpack = u at *
  intro hlt
  cases u with
  | notANumber => cases h
  | infinity s | zero s =>
    cases s with
    | negative => cases h
    | positive => cases hlt
  | finite s m e hpos =>
    cases s with
    | negative => cases h
    | positive => cases hlt

theorem le_finite_iff {m n : Nat} {e f : Int} (hm : 0 < m) (hn : 0 < n) :
    (UnpackedFloat.finite .positive m e hm).le (.finite .positive n f hn) = true ↔ e < f ∨ e = f ∧ m ≤ n := by
  show Option.any _ (some ((compare e f).then (compare m n))) = true ↔ _
  rw [Option.any_some, Ordering.isLE_then_iff_or]
  simp only [Int.compare_eq_lt, Nat.isLE_compare, Int.compare_eq_eq]

theorem Magnitude.den_pos (size : Magnitude) : 0 < size.den :=
  Nat.pow_pos (by decide)

theorem Magnitude.num_of_neg {size : Magnitude} (h : size.exponent < 0) : size.num = size.mantissa := by
  have hzero : size.exponent.toNat = 0 := Int.toNat_of_nonpos (Int.le_of_lt h)
  rw [num, hzero]
  exact Nat.mul_one _

theorem Magnitude.den_of_nonneg {size : Magnitude} (h : 0 ≤ size.exponent) : size.den = 1 := by
  have hzero : (-size.exponent).toNat = 0 := Int.toNat_of_nonpos (Int.neg_nonpos_of_nonneg h)
  rw [den, hzero]

/-- `2 ^ 64` among the magnitudes of 53 bits -/
theorem Magnitude.wordLimit_le_iff {size : Magnitude} (hlt : size.mantissa < 2 ^ 53)
    (hleast : size.exponent = -1074 ∨ 2 ^ 52 ≤ size.mantissa) :
    2 ^ 64 * size.den ≤ size.num ↔ 12 < size.exponent ∨ 12 = size.exponent ∧ 2 ^ 52 ≤ size.mantissa := by
  rcases Int.lt_or_le size.exponent 0 with he | he
  · have hden := size.den_pos
    rw [num_of_neg he]
    omega
  · have hm : 2 ^ 52 ≤ size.mantissa := by omega
    rw [den_of_nonneg he, num, Nat.mul_one]
    rcases Nat.lt_trichotomy size.exponent.toNat 12 with hn | hn | hn
    · have hpow : Nat.pow 2 size.exponent.toNat ≤ 2 ^ 11 := Nat.pow_le_pow_right (by decide) (by omega)
      have := Nat.mul_le_mul (Nat.le_sub_one_of_lt hlt) hpow
      omega
    · have hpow : Nat.pow 2 12 = 4096 := rfl
      rw [hn, hpow]
      omega
    · have hpow : 2 ^ 13 ≤ Nat.pow 2 size.exponent.toNat := Nat.pow_le_pow_right (by decide) hn
      have := Nat.mul_le_mul hm hpow
      omega

/-- a finite float that is not below zero: its magnitude has 53 bits and no minus unless it is zero, and the float is at
least `2 ^ 64` exactly if its magnitude is -/
theorem exists_magnitude {x : Float} (hfinite : x.isFinite = true) (hneg : ¬x < 0.0) :
    ∃ negative size, kindOf x = .finite negative size ∧ ¬(negative = true ∧ size.mantissa ≠ 0) ∧
      size.mantissa < 2 ^ 53 ∧ (wordLimit ≤ x ↔ 2 ^ 64 * size.den ≤ size.num) := by
  have hd := decodes x
  have hfinite : x.toModel.unpack.isFinite = true := hfinite
  rw [lt_zero_iff] at hneg
  rw [wordLimit_le_iff]
  generalize x.toModel.unpack = u at *
  generalize kindOf x = k at *
  cases hd with
  | nan => cases hfinite
  | infinite s => cases hfinite
  | zero s tight =>
    refine ⟨_, _, rfl, fun h => h.2 rfl, Nat.two_pow_pos 53, iff_of_false (fun h => by cases h) fun h => ?_⟩
    have hden := Magnitude.den_pos ⟨0, -1074, tight⟩
    have hnum : (⟨0, -1074, tight⟩ : Magnitude).num = 0 := Nat.zero_mul _
    omega
  | finite s hpos hm he hlt hleast =>
    subst hm he
    cases s with
    | negative => exact absurd rfl hneg
    | positive =>
      refine ⟨_, _, rfl, by simp [isMinus], hlt, ?_⟩
      exact (le_finite_iff _ hpos).trans (Magnitude.wordLimit_le_iff hlt hleast).symm

end LoadGen.Decimal
