/-
Queries that are read back. Letters and digits stand for themselves in a query, so a pair of a name and a word in
decimal, with nothing else in the query, has that word for that name.

- `decode_written`: a piece of letters and digits is the text itself.
- `word?_written`: the word of a written pair.
-/
import LoadGen.Proofs.Decimal.Digits
import LoadGen.Proofs.Text.Characters
import LoadGen.Proofs.Text.Cut
import LoadGen.Web.Form

namespace LoadGen.Text

theorem encodeUtf8_of_lt {c : Char} (hc : c.toNat < 128) : encodeUtf8 [c] = [c.toNat] :=
  of_codePoints (P := fun c => encodeUtf8 [c] = [c.toNat]) (by decide +kernel) hc

theorem decodeFrom_ascii {s : List Char} (hs : ∀ c ∈ s, c.toNat < 128) (acc : List Char) :
    decodeFrom s.length acc (s.map Char.toNat) = (s.reverse ++ acc, true) := by
  induction s generalizing acc with
  | nil => rfl
  | cons c s ih =>
    have hc : c.toNat < 0x80 := hs c List.mem_cons_self
    have hrest := ih (fun d hd => hs d (List.mem_cons_of_mem c hd)) (c :: acc)
    simp only [List.map_cons, List.length_cons, decodeFrom, nextChar?, if_pos hc, Char.ofNat_toNat, hrest,
      List.reverse_cons, List.append_assoc, List.singleton_append]

theorem decodeUtf8_ascii {s : List Char} (hs : ∀ c ∈ s, c.toNat < 128) : decodeUtf8 (s.map Char.toNat) = (s, true) := by
  have hfrom := decodeFrom_ascii hs []
  rw [decodeUtf8, List.length_map, hfrom, List.append_nil]
  simp only [List.reverse_reverse]

end LoadGen.Text

namespace LoadGen.Decimal

/-- a word in decimal reads back -/
theorem readWord?_ofNat {n most : Nat} (hn : n ≤ most) : readWord? 10 most (ofNat n) = some n := by
  have hplus : ∀ r, ofNat n ≠ '+' :: r := by
    intro r h
    have hdigit : '+'.isDigit = true := isDigit_of_mem_ofNat (h ▸ List.mem_cons_self)
    exact absurd hdigit (by decide)
  unfold readWord?
  split
  · rename_i r h
    exact absurd h (hplus r)
  · simp only [value?_ofNat]
    exact Option.filter_eq_some_iff.2 ⟨rfl, decide_eq_true hn⟩

end LoadGen.Decimal

namespace LoadGen.Web.Form

open Decimal Text

variable {s : List Char} {c : Char}

theorem ne_of_isAlphanum {mark : Char} (hmark : mark.isAlphanum = false) (hc : c.isAlphanum = true) : c ≠ mark := by
  rintro rfl
  rw [hc] at hmark
  cases hmark

theorem bytes_written (hs : ∀ c ∈ s, c.isAlphanum = true) : bytes s = s.map Char.toNat := by
  induction s with
  | nil => rfl
  | cons c s ih =>
    have hc := hs c List.mem_cons_self
    have hpercent : c ≠ '%' := ne_of_isAlphanum (by decide) hc
    have hplus : c ≠ '+' := ne_of_isAlphanum (by decide) hc
    have hbytes : bytes (c :: s) = encodeUtf8 [c] ++ bytes s := by
      rw [bytes]
      · exact fun _ _ _ h => absurd h hpercent
      · exact hplus
    rw [hbytes, encodeUtf8_of_lt (toNat_lt_of_isAlphanum hc), ih fun d hd => hs d (List.mem_cons_of_mem c hd)]
    rfl

/-- letters and digits stand for themselves -/
theorem decode_written (hs : ∀ c ∈ s, c.isAlphanum = true) : decode s = String.ofList s := by
  rw [decode, bytes_written hs, decodeUtf8_ascii fun c hc => toNat_lt_of_isAlphanum (hs c hc)]

theorem isAlphanum_of_mem_ofNat {n : Nat} (h : c ∈ ofNat n) : c.isAlphanum = true :=
  isAlphanum_iff.2 (.inr (isDigit_of_mem_ofNat h))

/-- **The word of a written pair** is read back. -/
theorem word?_written {name : String} (hname : ∀ c ∈ name.toList, c.isAlphanum = true) {n : Nat} (hn : n ≤ wordMax) :
    word? name s!"{name}={n}" = some (some n) := by
  have htext : (s!"{name}={n}").toList = name.toList ++ '=' :: ofNat n := by
    have hname : toString name = name := rfl
    have hmark : (toString "=").toList = ['='] := rfl
    rw [String.toList_append, String.toList_append, hname, hmark, toString_eq_ofNat, List.append_assoc,
      List.singleton_append]
  have hdigits : ∀ c ∈ ofNat n, c.isAlphanum = true := fun c => isAlphanum_of_mem_ofNat
  have hone : ∀ c ∈ name.toList ++ '=' :: ofNat n, c ≠ '&' := by
    intro c hc
    rcases List.mem_append.1 hc with hc | hc
    · exact ne_of_isAlphanum (by decide) (hname c hc)
    · rcases List.mem_cons.1 hc with rfl | hc
      · decide
      · exact ne_of_isAlphanum (by decide) (hdigits c hc)
  have hpair : pair (name.toList ++ '=' :: ofNat n) = (name, String.ofList (ofNat n)) := by
    rw [pair, splitOnce_first fun c hc => ne_of_isAlphanum (by decide) (hname c hc)]
    simp only [decode_written hname, decode_written hdigits, String.ofList_toList]
  have hpairs : pairs s!"{name}={n}" = [(name, String.ofList (ofNat n))] := by
    rw [pairs, htext, splitAll_of_free hone]
    simp [hpair]
  rw [word?, hpairs]
  simp [readWord?_ofNat hn]

end LoadGen.Web.Form
