/-
Classes of characters, and the run of a class that a text starts with. A class of ASCII characters is given by its
members, so a fact about all of them is a fact about 128 numbers.
-/
import LoadGen.Web.Token

namespace LoadGen.Text

/-- what holds of the first 128 code points holds of every ASCII character -/
theorem of_codePoints {P : Char → Prop} (h : ∀ n < 128, P (Char.ofNat n)) {c : Char} (hc : c.toNat < 128) : P c :=
  Char.ofNat_toNat c ▸ h c.toNat hc

theorem toNat_lt_of_mem {s : List Char} (hs : s.all (fun c => decide (c.toNat < 128)) = true) {c : Char} (hc : c ∈ s) :
    c.toNat < 128 :=
  of_decide_eq_true (List.all_eq_true.1 hs c hc)

theorem isAlphanum_iff {c : Char} :
    c.isAlphanum = true ↔ (c.isUpper = true ∨ c.isLower = true) ∨ c.isDigit = true := by
  rw [← Bool.or_eq_true, ← Bool.or_eq_true]
  rfl

theorem toNat_lt_of_isAlphanum {c : Char} (h : c.isAlphanum = true) : c.toNat < 128 := by
  have hbelow : ∀ {last : UInt32}, c.val ≤ last → last.toNat < 128 → c.toNat < 128 := fun hle hlast =>
    Nat.lt_of_le_of_lt (UInt32.le_iff_toNat_le.1 hle) hlast
  rcases isAlphanum_iff.1 h with (hupper | hlower) | hdigit
  · exact hbelow (of_decide_eq_true hupper).2 (by decide)
  · exact hbelow (of_decide_eq_true (Bool.and_eq_true_iff.1 hlower).2) (by decide)
  · exact hbelow (of_decide_eq_true (Bool.and_eq_true_iff.1 hdigit).2) (by decide)

/-- lower case of a character is the character itself or a letter's -/
theorem isAlphanum_of_toLower {c : Char} (h : c.toLower.isAlphanum = true) : c.isAlphanum = true := by
  by_cases hup : c.isUpper = true
  · exact isAlphanum_iff.2 (.inl (.inl hup))
  · have hself : c.toLower = c := dif_neg fun hin => hup (decide_eq_true hin)
    rwa [hself] at h

/-- only capital letters have a lower case of their own -/
theorem toLower_eq_or_isUpper (c : Char) : c.toLower = c ∨ c.isUpper = true := by
  by_cases hup : c.isUpper = true
  · exact .inr hup
  · exact .inl (dif_neg fun hin => hup (decide_eq_true hin))

/-- a class that holds all letters, if it holds a text in lower case, holds the text -/
theorem of_lowerAscii {p : Char → Bool} (hletters : ∀ c, c.isAlphanum = true → p c = true) {s : List Char}
    (h : ∀ c ∈ lowerAscii s, p c = true) : ∀ c ∈ s, p c = true := by
  intro c hc
  have hlower := h c.toLower (List.mem_map_of_mem hc)
  rcases toLower_eq_or_isUpper c with hself | hup
  · rwa [hself] at hlower
  · exact hletters c (isAlphanum_iff.2 (.inl (.inl hup)))

/-! ## Runs -/

variable {p : Char → Bool} {s t : List Char}

/-- a run ends where the first character comes that does not belong to it -/
theorem takeWhile_run (hs : ∀ c ∈ s, p c = true) (ht : ∀ c ∈ t.head?, p c = false) : (s ++ t).takeWhile p = s := by
  rw [List.takeWhile_append_of_pos hs]
  cases t with
  | nil => simp
  | cons c t => rw [List.takeWhile_cons_of_neg (by rw [ht c rfl]; decide), List.append_nil]

theorem dropWhile_run (hs : ∀ c ∈ s, p c = true) (ht : ∀ c ∈ t.head?, p c = false) : (s ++ t).dropWhile p = t := by
  rw [List.dropWhile_append_of_pos hs]
  cases t with
  | nil => rfl
  | cons c t => exact List.dropWhile_cons_of_neg (by rw [ht c rfl]; decide)

end LoadGen.Text
