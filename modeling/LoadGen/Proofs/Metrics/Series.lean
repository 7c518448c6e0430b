/-
The series of seconds. A full series forgets its oldest second when a new one comes, and does not count a second older
than all that it keeps; so what it holds depends on what it held before. Nothing of that shows in the end: a series is
the newest cells of the tally that forgets nothing (`cells_foldl_record`), and that tally does not depend on the order
in which it was made (`bump_comm`). What a series shows in all is the total of its cells (`total_points`), and the tally
has a cell for each second that came up (`length_foldl_bump`).
-/
import Mathlib.Data.List.Dedup
import Mathlib.Data.List.Induction
import LoadGen.Metrics.Rate

namespace LoadGen.Metrics

/-! ## Tallies -/

namespace Tally

/-- the keys ascend, each once -/
def Ascending (t : Tally) : Prop :=
  t.Pairwise fun c d => c.1 < d.1

theorem bump_comm (x y : Nat) (t : Tally) : bump x (bump y t) = bump y (bump x t) := by
  induction t with
  | nil => simp only [bump]; grind
  | cons c rest ih => obtain ⟨k, n⟩ := c; simp only [bump]; grind [bump]

/-- a key below all others comes first -/
theorem bump_of_lt {x : Nat} {t : Tally} (h : ∀ c ∈ t, x < c.1) : bump x t = (x, 1) :: t := by
  cases t with
  | nil => rfl
  | cons c rest => exact if_pos (h c List.mem_cons_self)

theorem length_le_bump (x : Nat) (t : Tally) : t.length ≤ (bump x t).length := by
  induction t with
  | nil => exact Nat.zero_le _
  | cons c rest ih =>
    simp only [bump]
    split
    · exact Nat.le_succ _
    · split
      · exact Nat.le_refl _
      · exact Nat.succ_le_succ ih

theorem mem_bump {x : Nat} {t : Tally} {c : Nat × Nat} (h : c ∈ bump x t) : c.1 = x ∨ ∃ d ∈ t, d.1 = c.1 := by
  induction t with
  | nil => rw [List.mem_singleton.1 h]; exact .inl rfl
  | cons d rest ih =>
    simp only [bump] at h
    split at h
    · rcases List.mem_cons.1 h with rfl | h
      · exact .inl rfl
      · exact .inr ⟨c, h, rfl⟩
    · split at h
      · rcases List.mem_cons.1 h with rfl | h
        · exact .inr ⟨d, List.mem_cons_self, rfl⟩
        · exact .inr ⟨c, List.mem_cons_of_mem _ h, rfl⟩
      · rcases List.mem_cons.1 h with rfl | h
        · exact .inr ⟨_, List.mem_cons_self, rfl⟩
        · rcases ih h with hx | ⟨d', hd', hk⟩
          · exact .inl hx
          · exact .inr ⟨d', List.mem_cons_of_mem _ hd', hk⟩

theorem Ascending.bump {t : Tally} (h : t.Ascending) (x : Nat) : (Tally.bump x t).Ascending := by
  induction t with
  | nil => exact List.pairwise_singleton _ _
  | cons c rest ih =>
    obtain ⟨hlt, hrest⟩ := List.pairwise_cons.1 h
    simp only [Tally.bump]
    split
    · rename_i hx
      refine List.pairwise_cons.2 ⟨fun d hd => ?_, h⟩
      rcases List.mem_cons.1 hd with rfl | hd
      · exact hx
      · exact Nat.lt_trans hx (hlt d hd)
    · split
      · exact List.pairwise_cons.2 ⟨hlt, hrest⟩
      · refine List.pairwise_cons.2 ⟨fun d hd => ?_, ih hrest⟩
        rcases mem_bump hd with hk | ⟨d', hd', hk⟩
        · rw [hk]; omega
        · rw [← hk]; exact hlt d' hd'

/-! ## The newest cells -/

/-- the `n` cells with the largest keys, all if there are no more -/
def newest (n : Nat) (t : Tally) : Tally :=
  t.drop (t.length - n)

theorem newest_of_length_le {n : Nat} {t : Tally} (h : t.length ≤ n) : newest n t = t := by
  simp only [newest, Nat.sub_eq_zero_of_le h, List.drop_zero]

theorem newest_cons {n : Nat} {t : Tally} (h : n ≤ t.length) (c : Nat × Nat) : newest n (c :: t) = newest n t := by
  simp only [newest, List.length_cons, Nat.sub_add_comm h, List.drop_succ_cons]

theorem length_newest (n : Nat) (t : Tally) : (newest n t).length = min n t.length := by
  simp only [newest, List.length_drop]; omega

theorem Ascending.newest {t : Tally} (h : t.Ascending) (n : Nat) : (Tally.newest n t).Ascending :=
  h.sublist (List.drop_sublist _ _)

/-- what was forgotten before does not matter: a cell below the newest ones stays below them -/
theorem newest_bump_newest (n x : Nat) {t : Tally} (h : t.Ascending) :
    newest n (bump x (newest n t)) = newest n (bump x t) := by
  induction t with
  | nil => rw [newest_of_length_le (t := []) (Nat.zero_le _)]
  | cons c rest ih =>
    by_cases hlen : rest.length < n
    · rw [newest_of_length_le (t := c :: rest) hlen]
    · have hfull : n ≤ rest.length := Nat.le_of_not_lt hlen
      obtain ⟨hlt, hrest⟩ := List.pairwise_cons.1 h
      rw [newest_cons hfull, ih hrest]
      -- the first cell is not among the newest, whether the new key comes before it, at it or after it
      rcases Nat.lt_trichotomy x c.1 with hx | hx | hx
      · rw [bump_of_lt fun d hd => Nat.lt_trans hx (hlt d hd), newest_cons hfull,
          bump_of_lt (t := c :: rest) fun d hd => (List.mem_cons.1 hd).elim (fun e => e ▸ hx) fun hd =>
            Nat.lt_trans hx (hlt d hd),
          newest_cons (Nat.le_succ_of_le hfull), newest_cons hfull]
      · have hbump : bump x (c :: rest) = (c.1, c.2 + 1) :: rest := by simp [bump, hx]
        rw [bump_of_lt fun d hd => hx ▸ hlt d hd, hbump, newest_cons hfull, newest_cons hfull]
      · have hbump : bump x (c :: rest) = c :: bump x rest := by
          simp only [bump, if_neg (Nat.not_lt.2 (Nat.le_of_lt hx)), if_neg (Nat.ne_of_gt hx)]
        rw [hbump, newest_cons (Nat.le_trans hfull (length_le_bump x rest))]

/-! ## Totals -/

theorem total_bump (x : Nat) (t : Tally) : total (bump x t) = total t + 1 := by
  induction t with
  | nil => rfl
  | cons c rest ih =>
    obtain ⟨k, n⟩ := c
    simp only [bump]
    split
    · simp only [total]; omega
    · split
      · simp only [total]; omega
      · simp only [total, ih]; omega

/-- one more occurrence of a key counts where the key does -/
theorem total_filter_bump (q : Nat → Bool) (x : Nat) (t : Tally) :
    total ((bump x t).filter fun c => q c.1) = total (t.filter fun c => q c.1) + if q x then 1 else 0 := by
  induction t with
  | nil => by_cases hx : q x <;> simp [bump, total, hx]
  | cons c rest ih =>
    obtain ⟨k, n⟩ := c
    simp only [bump]
    split
    · by_cases hx : q x
      · simp [total, hx, Nat.add_comm]
      · simp [hx]
    · split
      · rename_i heq
        by_cases hx : q x
        · simp [total, ← heq, hx, Nat.add_right_comm]
        · simp [← heq, hx]
      · by_cases hk : q k
        · simp [total, hk, ih, Nat.add_assoc]
        · simp [hk, ih]

theorem total_foldl_bump (xs : List Nat) (t : Tally) :
    total (xs.foldl (fun t x => bump x t) t) = total t + xs.length := by
  induction xs generalizing t with
  | nil => rfl
  | cons x xs ih => rw [List.foldl_cons, ih, total_bump, List.length_cons]; omega

theorem total_append (t u : Tally) : total (t ++ u) = total t + total u := by
  induction t with
  | nil => exact (Nat.zero_add _).symm
  | cons c t ih => rw [List.cons_append, total, total, ih, Nat.add_assoc]

theorem total_newest_le (n : Nat) (t : Tally) : total (newest n t) ≤ total t := by
  have hsplit := total_append (t.take (t.length - n)) (t.drop (t.length - n))
  rw [List.take_append_drop] at hsplit
  show total (t.drop (t.length - n)) ≤ total t
  omega

/-! ## Keys -/

theorem mem_keys_bump {k x : Nat} {t : Tally} : k ∈ (bump x t).map Prod.fst ↔ k = x ∨ k ∈ t.map Prod.fst := by
  induction t with
  | nil => simp [bump]
  | cons c rest ih =>
    obtain ⟨m, n⟩ := c
    simp only [bump]
    split
    · simp
    · split
      · rename_i heq
        simp [heq]
      · simp only [List.map_cons, List.mem_cons, ih]
        exact or_left_comm

theorem mem_keys_foldl_bump {k : Nat} {xs : List Nat} {t : Tally} :
    k ∈ (xs.foldl (fun t x => bump x t) t).map Prod.fst ↔ k ∈ xs ∨ k ∈ t.map Prod.fst := by
  induction xs generalizing t with
  | nil => simp
  | cons x xs ih => rw [List.foldl_cons, ih, mem_keys_bump, List.mem_cons, or_assoc, or_left_comm]

theorem Ascending.nodup_keys {t : Tally} (h : t.Ascending) : (t.map Prod.fst).Nodup :=
  List.pairwise_map.2 (h.imp fun hlt => Nat.ne_of_lt hlt)

end Tally

/-! ## Series -/

namespace RateSeries

/-- what every record keeps: the seconds ascend, and they are no more than the capacity -/
structure Kept (s : RateSeries) : Prop where
  ascending : s.cells.Ascending
  length_le : s.cells.length ≤ s.capacity

theorem kept_empty (capacity : Nat) : (empty capacity).Kept :=
  ⟨List.Pairwise.nil, Nat.zero_le _⟩

@[simp] theorem capacity_record (s : RateSeries) (d : Duration) : (s.record d).capacity = s.capacity := by
  unfold record; split <;> rfl

/-- a late second is one that would be forgotten at once -/
theorem cells_record {s : RateSeries} (h : s.Kept) (d : Duration) :
    (s.record d).cells = Tally.newest s.capacity (Tally.bump d.secs s.cells) := by
  unfold record
  split
  · rename_i hlate
    simp only [isLate, decide_eq_true_eq] at hlate
    obtain ⟨hfull, hbefore⟩ := hlate
    cases hc : s.cells with
    | nil => rw [hc] at hbefore; exact absurd hbefore (by simp)
    | cons c rest =>
      rw [hc] at hfull hbefore
      have hx : d.secs < c.1 := by simpa using hbefore
      have hasc := h.ascending
      rw [hc] at hasc
      have hall : ∀ e ∈ c :: rest, d.secs < e.1 := fun e he =>
        (List.mem_cons.1 he).elim (fun e' => e' ▸ hx) fun he => Nat.lt_trans hx ((List.pairwise_cons.1 hasc).1 e he)
      rw [Tally.bump_of_lt hall, Tally.newest_cons hfull, Tally.newest_of_length_le (hc ▸ h.length_le)]
  · rfl

theorem Kept.record {s : RateSeries} (h : s.Kept) (d : Duration) : (s.record d).Kept := by
  refine ⟨?_, ?_⟩
  · rw [cells_record h]; exact (h.ascending.bump _).newest _
  · rw [cells_record h, capacity_record, Tally.length_newest]; exact Nat.min_le_left _ _

theorem kept_foldl_record {s : RateSeries} (h : s.Kept) (ds : List Duration) : (ds.foldl record s).Kept := by
  induction ds generalizing s with
  | nil => exact h
  | cons d ds ih => exact ih (h.record d)

@[simp] theorem capacity_foldl_record (s : RateSeries) (ds : List Duration) :
    (ds.foldl record s).capacity = s.capacity := by
  induction ds generalizing s with
  | nil => rfl
  | cons d ds ih => exact (ih _).trans (capacity_record s d)

theorem ascending_foldl_bump {t : Tally} (h : t.Ascending) (xs : List Nat) :
    (xs.foldl (fun t x => Tally.bump x t) t).Ascending := by
  induction xs generalizing t with
  | nil => exact h
  | cons x xs ih => exact ih (h.bump x)

/-- the keys of a tally are those that came up, each once -/
theorem perm_keys_foldl_bump (xs : List Nat) :
    ((xs.foldl (fun t x => Tally.bump x t) []).map Prod.fst).Perm xs.dedup := by
  have hkeys := (ascending_foldl_bump List.Pairwise.nil xs).nodup_keys
  refine (List.perm_ext_iff_of_nodup hkeys xs.nodup_dedup).2 fun k => ?_
  rw [Tally.mem_keys_foldl_bump, List.mem_dedup]
  simp

/-- a tally has a cell for each key that came up -/
theorem length_foldl_bump (xs : List Nat) : (xs.foldl (fun t x => Tally.bump x t) []).length = xs.dedup.length := by
  rw [← (perm_keys_foldl_bump xs).length_eq, List.length_map]

/-- **A series is the newest part of the whole tally**, whatever it forgot or left out on the way. -/
theorem cells_foldl_record {s : RateSeries} (h : s.Kept) (ds : List Duration) :
    (ds.foldl record s).cells =
      Tally.newest s.capacity ((ds.map Duration.secs).foldl (fun t x => Tally.bump x t) s.cells) := by
  induction ds using List.reverseRecOn with
  | nil => exact (Tally.newest_of_length_le h.length_le).symm
  | append_singleton ds d ih =>
    rw [List.foldl_append, List.foldl_cons, List.foldl_nil, cells_record (kept_foldl_record h ds),
      capacity_foldl_record, ih, Tally.newest_bump_newest _ _ (ascending_foldl_bump h.ascending _)]
    simp only [List.map_append, List.map_singleton, List.foldl_append, List.foldl_cons, List.foldl_nil]

/-- the seconds that are filled in have no completions -/
theorem total_gap (first last : Nat) : Tally.total (gap first last) = 0 := by
  unfold gap
  induction List.range (last - first - 1) with
  | nil => rfl
  | cons i rest ih => rw [List.map_cons, Tally.total, ih]

theorem total_points (s : RateSeries) : Tally.total s.points = Tally.total s.cells := by
  have hfill (t : Tally) : Tally.total (fill t) = Tally.total t := by
    fun_induction fill t with
    | case1 => rfl
    | case2 c => rfl
    | case3 c d rest ih =>
      rw [Tally.total, Tally.total_append, total_gap, ih, Nat.zero_add]
      rfl
  exact hfill s.cells

theorem cells_record_record {s : RateSeries} (h : s.Kept) (d e : Duration) :
    ((s.record d).record e).cells = Tally.newest s.capacity (Tally.bump e.secs (Tally.bump d.secs s.cells)) := by
  rw [cells_record (h.record d), cells_record h, capacity_record,
    Tally.newest_bump_newest _ _ (h.ascending.bump _)]

/-- two completions may be recorded in either order -/
theorem record_comm {s : RateSeries} (h : s.Kept) (d e : Duration) :
    (s.record d).record e = (s.record e).record d := by
  have hcap : ((s.record d).record e).capacity = ((s.record e).record d).capacity := by simp only [capacity_record]
  have hcells : ((s.record d).record e).cells = ((s.record e).record d).cells := by
    rw [cells_record_record h, cells_record_record h, Tally.bump_comm]
  cases hl : (s.record d).record e
  cases hr : (s.record e).record d
  rw [hl, hr] at hcap hcells
  simp only at hcap hcells
  rw [hcap, hcells]

end RateSeries

end LoadGen.Metrics
