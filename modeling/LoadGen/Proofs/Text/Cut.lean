/-
What the cuts of a text say. A cut has found what it looked for exactly if the pieces put together with it are the text,
and the first occurrence is the one that is found.

- `afterStart?_eq_some`, `beforeEnd?_eq_some`: a known start, a known end.
- `splitOnce_first`, `splitAt?_first`: a separator or token that does not start any earlier.
- `splitAll_intercalate`, `intercalate_splitAll`: items and the text that they are put together to.
-/
import Mathlib.Data.List.Basic
import LoadGen.Text.Cut

namespace LoadGen.Text

variable {s t front rest token : List Char} {c sep : Char}

/-! ## A known start, a known end -/

theorem afterStart?_eq_some : afterStart? t s = some rest ↔ s = t ++ rest := by
  induction t generalizing s with
  | nil => simp [afterStart?]
  | cons c t ih =>
    cases s with
    | nil => simp [afterStart?]
    | cons d s =>
      by_cases hc : c = d
      · simp [afterStart?, hc, ih]
      · simp [afterStart?, hc, Ne.symm hc]

theorem beforeEnd?_eq_some : beforeEnd? t s = some front ↔ s = front ++ t := by
  simp only [beforeEnd?, Option.map_eq_some_iff, afterStart?_eq_some]
  constructor
  · rintro ⟨r, hr, rfl⟩
    rw [← List.reverse_reverse s, hr, List.reverse_append, List.reverse_reverse]
  · rintro rfl
    exact ⟨front.reverse, List.reverse_append, List.reverse_reverse front⟩

theorem enclosed_eq_some {first last : List Char} {inner : List Char} :
    (afterStart? first s).bind (beforeEnd? last) = some inner ↔ s = first ++ (inner ++ last) := by
  simp only [Option.bind_eq_some_iff, afterStart?_eq_some, beforeEnd?_eq_some]
  exact ⟨fun ⟨r, hs, hr⟩ => hr ▸ hs, fun h => ⟨_, h, rfl⟩⟩

/-! ## The first separator, the first token -/

theorem splitOnce_first (h : ∀ c ∈ front, c ≠ sep) : splitOnce sep (front ++ sep :: rest) = some (front, rest) := by
  induction front with
  | nil => simp [splitOnce]
  | cons c front ih =>
    have hc : c ≠ sep := h c List.mem_cons_self
    simp [splitOnce, hc, ih fun d hd => h d (List.mem_cons_of_mem c hd)]

theorem splitOnce_eq_none (h : ∀ c ∈ s, c ≠ sep) : splitOnce sep s = none := by
  induction s with
  | nil => rfl
  | cons c s ih =>
    have hc : c ≠ sep := h c List.mem_cons_self
    simp [splitOnce, hc, ih fun d hd => h d (List.mem_cons_of_mem c hd)]

theorem eq_of_splitAt? (h : splitAt? token s = some (front, rest)) : s = front ++ token ++ rest := by
  induction s generalizing front with
  | nil =>
    cases token with
    | nil => cases h; rfl
    | cons t ts => cases h
  | cons c s ih =>
    unfold splitAt? at h
    split at h
    · rename_i r hr
      cases h
      exact afterStart?_eq_some.1 hr
    · obtain ⟨p, hp, heq⟩ := Option.map_eq_some_iff.1 h
      cases heq
      rw [ih hp]
      rfl

/-- a token is found behind a text without its first character -/
theorem splitAt?_first {first : Char} (h : ∀ c ∈ front, c ≠ first) :
    splitAt? (first :: token) (front ++ first :: token ++ rest) = some (front, rest) := by
  induction front with
  | nil =>
    have hstart : afterStart? (first :: token) (first :: token ++ rest) = some rest := afterStart?_eq_some.2 rfl
    simp only [List.nil_append, List.cons_append] at hstart ⊢
    simp only [splitAt?, hstart]
  | cons c front ih =>
    have hc : first ≠ c := (h c List.mem_cons_self).symm
    have hrest := ih fun d hd => h d (List.mem_cons_of_mem c hd)
    have hmiss : afterStart? (first :: token) (c :: (front ++ first :: token ++ rest)) = none := by
      simp only [afterStart?, if_neg hc]
    simp only [List.cons_append] at hrest hmiss ⊢
    simp only [splitAt?, hmiss, hrest, Option.map_some]

/-! ## Items -/

theorem splitAll_ne_nil (sep : Char) (s : List Char) : splitAll sep s ≠ [] := by
  cases s with
  | nil => simp [splitAll]
  | cons c s =>
    unfold splitAll
    split
    · simp
    · split <;> simp

theorem splitAll_of_free (h : ∀ c ∈ s, c ≠ sep) : splitAll sep s = [s] := by
  induction s with
  | nil => rfl
  | cons c s ih =>
    have hc : c ≠ sep := h c List.mem_cons_self
    simp [splitAll, hc, ih fun d hd => h d (List.mem_cons_of_mem c hd)]

theorem splitAll_append (h : ∀ c ∈ front, c ≠ sep) :
    splitAll sep (front ++ sep :: rest) = front :: splitAll sep rest := by
  induction front with
  | nil => simp [splitAll]
  | cons c front ih =>
    have hc : c ≠ sep := h c List.mem_cons_self
    simp [splitAll, hc, ih fun d hd => h d (List.mem_cons_of_mem c hd)]

/-- what holds of the separator and of all items holds of the whole text -/
theorem forall_mem_intercalate {P : Char → Prop} {items : List (List Char)} (hsep : P sep)
    (h : ∀ item ∈ items, ∀ c ∈ item, P c) : ∀ c ∈ List.intercalate [sep] items, P c := by
  induction items with
  | nil => exact fun c hc => (List.not_mem_nil hc).elim
  | cons item items ih =>
    obtain ⟨hitem, hitems⟩ := List.forall_mem_cons.1 h
    cases items with
    | nil => rw [List.intercalate_singleton]; exact hitem
    | cons next items =>
      rw [List.intercalate_cons_cons, List.forall_mem_append, List.forall_mem_append]
      exact ⟨⟨hitem, List.forall_mem_singleton.2 hsep⟩, ih hitems⟩

/-- items without separators are found again -/
theorem splitAll_intercalate {items : List (List Char)} (hne : items ≠ []) (h : ∀ item ∈ items, ∀ c ∈ item, c ≠ sep) :
    splitAll sep (List.intercalate [sep] items) = items := by
  induction items with
  | nil => exact absurd rfl hne
  | cons item items ih =>
    have hitem := h item List.mem_cons_self
    cases items with
    | nil => rw [List.intercalate_singleton]; exact splitAll_of_free hitem
    | cons next items =>
      rw [List.intercalate_cons_cons, List.append_assoc, List.singleton_append, splitAll_append hitem,
        ih (List.cons_ne_nil _ _) fun i hi => h i (List.mem_cons_of_mem item hi)]

/-- nothing but the separators is lost -/
theorem intercalate_splitAll (sep : Char) (s : List Char) : List.intercalate [sep] (splitAll sep s) = s := by
  induction s with
  | nil => rfl
  | cons c s ih =>
    have hne := splitAll_ne_nil sep s
    by_cases hc : c = sep
    · rw [splitAll, if_pos hc, List.intercalate_cons_of_ne_nil hne, ih, hc]
      rfl
    · cases hs : splitAll sep s with
      | nil => exact absurd hs hne
      | cons item items =>
        rw [hs] at ih
        rw [splitAll, if_neg hc, hs]
        cases items with
        | nil => simp only [List.intercalate_singleton] at ih ⊢; rw [ih]
        | cons next items =>
          simp only [List.intercalate_cons_cons, List.append_assoc] at ih ⊢
          rw [List.cons_append, ih]

end LoadGen.Text
