/-
What numbers are written with: the text of a number, whole or floating, holds letters, digits, points and signs only,
and it holds at least one character. So blanks, operators, colons, commas and brackets always stand outside of it.
-/
import Mathlib.Data.List.TakeWhile
import LoadGen.Decimal.Literal
import LoadGen.Proofs.Text.Characters

namespace LoadGen.Decimal

variable {s : List Char} {c : Char}

/-- a character of a number -/
def isNumeral (c : Char) : Bool :=
  c.isAlphanum || c ∈ ['.', '+', '-']

theorem isNumeral_of_isAlphanum (h : c.isAlphanum = true) : isNumeral c = true := by
  rw [isNumeral, h, Bool.true_or]

theorem isNumeral_of_isDigit (h : c.isDigit = true) : isNumeral c = true :=
  isNumeral_of_isAlphanum (Text.isAlphanum_iff.2 (.inr h))

/-! ## Whole numbers -/

theorem isDigit_of_digitOf? {d : Nat} (h : digitOf? 10 c = some d) : c.isDigit = true := by
  unfold digitOf? at h
  obtain ⟨hd, hlt⟩ := (Option.filter_eq_some_iff).1 h
  split at hd
  · rename_i hc
    simp only [Char.isDigit, Bool.and_eq_true, decide_eq_true_eq]
    exact hc
  · split at hd
    · rename_i hc
      have hge : 97 ≤ c.toNat := hc.1
      cases hd
      simp only [decide_eq_true_eq] at hlt
      omega
    · split at hd
      · rename_i hc
        have hge : 65 ≤ c.toNat := hc.1
        cases hd
        simp only [decide_eq_true_eq] at hlt
        omega
      · cases hd

theorem isDigit_of_valueFrom? {acc n : Nat} (h : valueFrom? 10 acc s = some n) : ∀ c ∈ s, c.isDigit = true := by
  induction s generalizing acc with
  | nil => intro c hc; cases hc
  | cons b s ih =>
    unfold valueFrom? at h
    split at h
    · rename_i d hd
      intro c hc
      rcases List.mem_cons.1 hc with rfl | hc
      · exact isDigit_of_digitOf? hd
      · exact ih h c hc
    · cases h

theorem isDigit_of_value? {n : Nat} (h : value? 10 s = some n) : s ≠ [] ∧ ∀ c ∈ s, c.isDigit = true := by
  cases s with
  | nil => cases h
  | cons b s => exact ⟨List.cons_ne_nil b s, isDigit_of_valueFrom? h⟩

theorem isNumeral_of_readWord? {most n : Nat} (h : readWord? 10 most s = some n) :
    s ≠ [] ∧ ∀ c ∈ s, isNumeral c = true := by
  unfold readWord? at h
  obtain ⟨hv, -⟩ := (Option.filter_eq_some_iff).1 h
  split at hv
  · obtain ⟨-, hdigits⟩ := isDigit_of_value? hv
    refine ⟨List.cons_ne_nil _ _, fun c hc => ?_⟩
    rcases List.mem_cons.1 hc with rfl | hc
    · decide
    · exact isNumeral_of_isDigit (hdigits c hc)
  · obtain ⟨hne, hdigits⟩ := isDigit_of_value? hv
    exact ⟨hne, fun c hc => isNumeral_of_isDigit (hdigits c hc)⟩

/-! ## Floats -/

theorem isNumeral_of_readExponent? {e : Int} (h : readExponent? s = some e) : ∀ c ∈ s, isNumeral c = true := by
  have hdigits {r : List Char} (hr : value? 10 r ≠ none) : ∀ c ∈ r, isNumeral c = true := by
    obtain ⟨n, hn⟩ := Option.ne_none_iff_exists'.1 hr
    exact fun c hc => isNumeral_of_isDigit ((isDigit_of_value? hn).2 c hc)
  unfold readExponent? at h
  split at h
  · intro c hc; cases hc
  · rename_i b s
    split at h
    · rename_i hb
      have hb' : isNumeral b = true := by rcases hb with rfl | rfl <;> decide
      refine List.forall_mem_cons.2 ⟨hb', ?_⟩
      split at h
      · exact List.forall_mem_cons.2 ⟨by decide, hdigits fun hn => by rw [hn] at h; cases h⟩
      · exact List.forall_mem_cons.2 ⟨by decide, hdigits fun hn => by rw [hn] at h; cases h⟩
      · exact hdigits fun hn => by rw [hn] at h; cases h
    · cases h

theorem isNumeral_of_readUnsigned? {negative : Bool} {l : Literal} (h : readUnsigned? negative s = some l) :
    s ≠ [] ∧ ∀ c ∈ s, isNumeral c = true := by
  have htake {r : List Char} : ∀ c ∈ r.takeWhile Char.isDigit, isNumeral c = true := fun c hc =>
    isNumeral_of_isDigit (List.mem_takeWhile_imp hc)
  have hjoin {r : List Char} (hr : ∀ c ∈ r.dropWhile Char.isDigit, isNumeral c = true) :
      ∀ c ∈ r, isNumeral c = true := by
    intro c hc
    rw [← List.takeWhile_append_dropWhile (p := Char.isDigit) (l := r)] at hc
    rcases List.mem_append.1 hc with hc | hc
    · exact htake c hc
    · exact hr c hc
  have hne : s ≠ [] := fun hs => by
    rw [hs] at h
    cases h
  refine ⟨hne, hjoin ?_⟩
  unfold readUnsigned? at h
  simp only at h
  split at h
  · rename_i r hr
    split at h
    · cases h
    · obtain ⟨e, he, -⟩ := Option.map_eq_some_iff.1 h
      rw [hr]
      exact List.forall_mem_cons.2 ⟨by decide, hjoin (isNumeral_of_readExponent? he)⟩
  · split at h
    · cases h
    · obtain ⟨e, he, -⟩ := Option.map_eq_some_iff.1 h
      exact isNumeral_of_readExponent? he

theorem isNumeral_of_readNamed? {x : Float} (h : readNamed? s = some x) : s ≠ [] ∧ ∀ c ∈ s, isNumeral c = true := by
  have hname {name : String} (hs : String.ofList (Text.lowerAscii s) = name) (hne : name.toList ≠ [])
      (hall : ∀ c ∈ name.toList, isNumeral c = true) : s ≠ [] ∧ ∀ c ∈ s, isNumeral c = true := by
    have hlower : Text.lowerAscii s = name.toList := by rw [← hs, String.toList_ofList]
    refine ⟨fun hs => hne (by rw [← hlower, hs]; rfl), Text.of_lowerAscii (fun c => isNumeral_of_isAlphanum) ?_⟩
    rwa [hlower]
  unfold readNamed? at h
  simp only at h
  split at h
  · rename_i hs
    rcases hs with hs | hs
    · exact hname hs (by decide) (List.all_eq_true.1 (by decide))
    · exact hname hs (by decide) (List.all_eq_true.1 (by decide))
  · split at h
    · rename_i hs
      exact hname hs (by decide) (List.all_eq_true.1 (by decide))
    · cases h

theorem isNumeral_of_readFloat? {x : Float} (h : readFloat? s = some x) : s ≠ [] ∧ ∀ c ∈ s, isNumeral c = true := by
  have hsigned {sign : Char} {r : List Char} (hsign : isNumeral sign = true)
      (hr : r ≠ [] ∧ ∀ c ∈ r, isNumeral c = true) : sign :: r ≠ [] ∧ ∀ c ∈ sign :: r, isNumeral c = true :=
    ⟨List.cons_ne_nil sign r, List.forall_mem_cons.2 ⟨hsign, hr.2⟩⟩
  unfold readFloat? at h
  split at h
  · rename_i l hl
    unfold Literal.read? at hl
    split at hl
    · exact hsigned (by decide) (isNumeral_of_readUnsigned? hl)
    · exact hsigned (by decide) (isNumeral_of_readUnsigned? hl)
    · exact isNumeral_of_readUnsigned? hl
  · split at h
    · obtain ⟨y, hy, -⟩ := Option.map_eq_some_iff.1 h
      exact hsigned (by decide) (isNumeral_of_readNamed? hy)
    · exact hsigned (by decide) (isNumeral_of_readNamed? h)
    · exact isNumeral_of_readNamed? h

end LoadGen.Decimal
