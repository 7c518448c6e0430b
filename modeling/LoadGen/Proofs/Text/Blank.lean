/-
Trimming and compacting: what is trimmed has no blank at either end, a text without blanks at its ends is its own
trimming, and a compacted text does not depend on whether it was trimmed before.
-/
import LoadGen.Text.Cut

namespace LoadGen.Text

variable {s : List Char}

theorem trimLeft_of_head (h : ∀ c ∈ s.head?, isBlank c = false) : trimLeft s = s := by
  cases s with
  | nil => rfl
  | cons c s => exact List.dropWhile_cons_of_neg (by rw [h c rfl]; decide)

theorem trim_of_ends (hhead : ∀ c ∈ s.head?, isBlank c = false) (hlast : ∀ c ∈ s.getLast?, isBlank c = false) :
    trim s = s := by
  have hright : trimLeft s.reverse = s.reverse := trimLeft_of_head fun c hc => hlast c (by simpa using hc)
  rw [trim, trimLeft_of_head hhead, trimRight]
  exact (congrArg List.reverse hright).trans (List.reverse_reverse s)

theorem head_trimLeft : ∀ c ∈ (trimLeft s).head?, isBlank c = false := by
  intro c hc
  have hnot := List.head?_dropWhile_not isBlank s
  rw [show (s.dropWhile isBlank).head? = some c from hc] at hnot
  exact hnot

theorem trimRight_prefix (s : List Char) : trimRight s <+: s := by
  have hsuffix := List.dropWhile_suffix (l := s.reverse) isBlank
  rw [← List.reverse_prefix, List.reverse_reverse] at hsuffix
  exact hsuffix

theorem head_trim : ∀ c ∈ (trim s).head?, isBlank c = false := by
  intro c hc
  obtain ⟨t, ht⟩ := trimRight_prefix (trimLeft s)
  refine head_trimLeft (s := s) c ?_
  rw [← ht, List.head?_append, show (trimRight (trimLeft s)).head? = some c from hc]
  rfl

theorem last_trim : ∀ c ∈ (trim s).getLast?, isBlank c = false := by
  intro c hc
  rw [trim, trimRight, List.getLast?_reverse] at hc
  exact head_trimLeft c hc

theorem trim_trim (s : List Char) : trim (trim s) = trim s :=
  trim_of_ends head_trim last_trim

theorem compact_trimLeft (s : List Char) : compact (trimLeft s) = compact s := by
  induction s with
  | nil => rfl
  | cons c s ih =>
    cases hc : isBlank c with
    | true => simpa [trimLeft, compact, hc] using ih
    | false => simp [trimLeft, hc]

theorem compact_reverse (s : List Char) : compact s.reverse = (compact s).reverse :=
  List.filter_reverse

theorem compact_trim (s : List Char) : compact (trim s) = compact s := by
  have hright : compact (trimRight (trimLeft s)) = compact (trimLeft s) := by
    have := compact_trimLeft (trimLeft s).reverse
    rw [trimRight, compact_reverse, ← trimLeft, this, compact_reverse, List.reverse_reverse]
  rw [trim, hright, compact_trimLeft]

end LoadGen.Text
