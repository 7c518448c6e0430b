/-
Numbers written in decimal read back: the digits of `n` have the value `n`, however it is computed. All of it is by the
last digit, which is how digits are written and how values are read.
-/
import LoadGen.Decimal.Numeral

namespace LoadGen.Decimal

/-- the last digit comes off the end -/
theorem ofNat_eq (n : Nat) : ofNat n = (if n < 10 then [] else ofNat (n / 10)) ++ [Nat.digitChar (n % 10)] := by
  unfold ofNat
  split
  · rename_i hn
    rw [Nat.toDigits_of_lt_base hn, Nat.mod_eq_of_lt hn, List.nil_append]
  · rename_i hn
    exact Nat.toDigits_of_base_le (by decide) (by omega)

theorem ofNat_ne_nil (n : Nat) : ofNat n ≠ [] := by
  rw [ofNat_eq]
  simp

theorem isDigit_of_mem_ofNat {n : Nat} {c : Char} (h : c ∈ ofNat n) : c.isDigit = true :=
  Nat.isDigit_of_mem_toDigits (by decide) (by decide) h

theorem toString_eq_ofNat (n : Nat) : (toString n).toList = ofNat n := by
  rw [Nat.toString_eq_repr, Nat.toList_repr, ofNat]

/-- a digit has the value it is written for -/
theorem digitChar_values : ∀ d < 10, digitOf? 10 (Nat.digitChar d) = some d ∧ (Nat.digitChar d).toNat - 48 = d := by
  decide

theorem valueFrom?_concat (base acc : Nat) (s : List Char) (c : Char) :
    valueFrom? base acc (s ++ [c]) =
      (valueFrom? base acc s).bind fun v => (digitOf? base c).map fun d => v * base + d := by
  induction s generalizing acc with
  | nil => cases hc : digitOf? base c <;> simp [valueFrom?, hc]
  | cons b s ih =>
    cases hb : digitOf? base b with
    | none => simp [valueFrom?, hb]
    | some d => simp [valueFrom?, hb, ih]

theorem valueFrom?_ofNat (n : Nat) : valueFrom? 10 0 (ofNat n) = some n := by
  induction n using Nat.strongRecOn with
  | ind n ih =>
    have hd := (digitChar_values (n % 10) (Nat.mod_lt _ (by decide))).1
    rw [ofNat_eq, valueFrom?_concat, hd]
    split
    · rename_i hn
      simp only [valueFrom?, Option.bind_some, Option.map_some, Option.some.injEq]
      omega
    · rename_i hn
      simp only [ih (n / 10) (by omega), Option.bind_some, Option.map_some, Option.some.injEq]
      omega

theorem value?_ofNat (n : Nat) : value? 10 (ofNat n) = some n := by
  rw [← valueFrom?_ofNat n]
  cases hs : ofNat n with
  | nil => exact absurd hs (ofNat_ne_nil n)
  | cons c s => rfl

theorem digitsValue_ofNat (n : Nat) : digitsValue (ofNat n) = n := by
  induction n using Nat.strongRecOn with
  | ind n ih =>
    have hd := (digitChar_values (n % 10) (Nat.mod_lt _ (by decide))).2
    rw [ofNat_eq, digitsValue, List.foldl_append, List.foldl_cons, List.foldl_nil, hd]
    split
    · rename_i hn
      simp only [List.foldl_nil]
      omega
    · rename_i hn
      have hvalue := ih (n / 10) (by omega)
      rw [digitsValue] at hvalue
      rw [hvalue]
      omega

end LoadGen.Decimal
