/-
Which seconds a series has in the end, and how often each of them came up. A series bounds the number of seconds with
completions, not the time from the oldest of them to the newest, and what it shows are all seconds of that time.

- `mem_cells_foldl_record`: a second is kept if fewer than `capacity` seconds above it came up, with its full count.
- `fill_eq`: what is shown are the seconds from the first cell to the last, one by one.
- `keeps_largest`: the closed form of a series, whatever the order of the records.
- `points_recent_iff`: what is shown lies within the last `capacity` seconds exactly if nothing older came up or none
  of these seconds was idle.
-/
import Mathlib.Data.List.Perm.Subperm
import Mathlib.Data.List.Range
import LoadGen.Proofs.Metrics.Series

namespace LoadGen.Metrics

/-! ## Cells and counts -/

namespace Tally

theorem count_eq_zero {k : Nat} {t : Tally} (h : ∀ c ∈ t, c.1 ≠ k) : count k t = 0 := by
  induction t with
  | nil => rfl
  | cons c rest ih =>
    rw [count, if_neg (h c List.mem_cons_self).symm, ih fun d hd => h d (List.mem_cons_of_mem c hd)]

theorem Ascending.count_bump {t : Tally} (h : t.Ascending) (k x : Nat) :
    count k (Tally.bump x t) = count k t + if k = x then 1 else 0 := by
  induction t with
  | nil => simp [Tally.bump, count]
  | cons c rest ih =>
    obtain ⟨hlt, hrest⟩ := List.pairwise_cons.1 h
    simp only [Tally.bump]
    split
    · rename_i hx
      by_cases hk : k = x
      · have hzero : count k (c :: rest) = 0 := by
          refine count_eq_zero fun d hd => ?_
          rcases List.mem_cons.1 hd with rfl | hd
          · omega
          · have := hlt d hd; omega
        rw [count, if_pos hk, hzero, if_pos hk]
      · rw [count, if_neg hk, if_neg hk, Nat.add_zero]
    · split
      · rename_i hx
        simp only [count, hx]
        split <;> rfl
      · rename_i hx
        simp only [count, ih hrest]
        split
        · rw [if_neg (by omega), Nat.add_zero]
        · rfl

theorem Ascending.count_foldl_bump {t : Tally} (h : t.Ascending) (k : Nat) (xs : List Nat) :
    count k (xs.foldl (fun t x => Tally.bump x t) t) = count k t + xs.count k := by
  induction xs generalizing t with
  | nil => rfl
  | cons x xs ih =>
    rw [List.foldl_cons, ih (h.bump x), h.count_bump, List.count_cons, Nat.add_right_comm, Nat.add_assoc]
    simp only [beq_iff_eq, eq_comm (a := x)]

/-- a cell holds the count of its key -/
theorem Ascending.mem_iff {t : Tally} (h : t.Ascending) {k n : Nat} :
    (k, n) ∈ t ↔ k ∈ t.map Prod.fst ∧ n = count k t := by
  induction t with
  | nil => simp
  | cons c rest ih =>
    obtain ⟨hlt, hrest⟩ := List.pairwise_cons.1 h
    rw [List.mem_cons, ih hrest, List.map_cons, List.mem_cons, count]
    by_cases hk : k = c.1
    · have hnot : k ∉ rest.map Prod.fst := fun hmem => by
        obtain ⟨d, hd, hdk⟩ := List.mem_map.1 hmem
        have := hlt d hd
        omega
      simp [hk, hk ▸ hnot, Prod.ext_iff]
    · simp [hk, Prod.ext_iff]

/-- the newest cells are those with fewer than `n` above them -/
theorem Ascending.mem_newest {t : Tally} (h : t.Ascending) {n : Nat} {c : Nat × Nat} :
    c ∈ Tally.newest n t ↔ c ∈ t ∧ t.countP (fun d => c.1 < d.1) < n := by
  induction t with
  | nil => simp [Tally.newest]
  | cons e rest ih =>
    obtain ⟨hlt, hrest⟩ := List.pairwise_cons.1 h
    have hfirst : (e :: rest).countP (fun d => e.1 < d.1) = rest.length := by
      rw [List.countP_cons_of_neg (by simp)]
      exact List.countP_eq_length.2 fun d hd => decide_eq_true (hlt d hd)
    have hlater : c ∈ rest → (e :: rest).countP (fun d => c.1 < d.1) = rest.countP fun d => c.1 < d.1 := fun hc =>
      List.countP_cons_of_neg (by simpa using Nat.le_of_lt (hlt c hc))
    by_cases hlen : rest.length < n
    · rw [newest_of_length_le (t := e :: rest) hlen]
      refine ⟨fun hc => ⟨hc, ?_⟩, And.left⟩
      rcases List.mem_cons.1 hc with rfl | hc
      · rwa [hfirst]
      · rw [hlater hc]
        exact Nat.lt_of_le_of_lt List.countP_le_length hlen
    · rw [newest_cons (Nat.le_of_not_lt hlen), ih hrest, List.mem_cons]
      constructor
      · rintro ⟨hc, hn⟩
        exact ⟨.inr hc, by rwa [hlater hc]⟩
      · rintro ⟨rfl | hc, hn⟩
        · exact absurd (hfirst ▸ hn) hlen
        · exact ⟨hc, by rwa [hlater hc] at hn⟩

/-- the last key is the largest -/
theorem Ascending.le_last {t : Tally} (h : Tally.Ascending t) {last : Nat × Nat} (hlast : t.getLast? = some last) :
    ∀ c ∈ t, c.1 ≤ last.1 := by
  obtain ⟨before, rfl⟩ := List.getLast?_eq_some_iff.1 hlast
  intro c hc
  rcases List.mem_append.1 hc with hc | hc
  · exact Nat.le_of_lt ((List.pairwise_append.1 h).2.2 c hc last (List.mem_singleton.2 rfl))
  · rw [List.mem_singleton.1 hc]

end Tally

namespace RateSeries

variable {capacity : Nat} {ds : List Duration}

/-- `sec` is one of the `n` largest of some seconds, which may come up more than once -/
def IsAmongLargest (n : Nat) (secs : List Nat) (sec : Nat) : Prop :=
  sec ∈ secs ∧ secs.dedup.countP (sec < ·) < n

/-- a series from the start, as the newest part of the tally of its seconds -/
theorem cells_record_empty (capacity : Nat) (ds : List Duration) :
    (ds.foldl record (empty capacity)).cells =
      Tally.newest (max 1 capacity) ((ds.map Duration.secs).foldl (fun t x => Tally.bump x t) []) :=
  cells_foldl_record (kept_empty capacity) ds

theorem ascending_cells (capacity : Nat) (ds : List Duration) :
    (ds.foldl record (empty capacity)).cells.Ascending :=
  (kept_foldl_record (kept_empty capacity) ds).ascending

/-- a cell of a series: the second is one of the `capacity` largest that came up, and all its completions count -/
theorem mem_cells_foldl_record {sec n : Nat} :
    (sec, n) ∈ (ds.foldl record (empty capacity)).cells ↔
      IsAmongLargest (max 1 capacity) (ds.map Duration.secs) sec ∧ n = (ds.map Duration.secs).count sec := by
  have hasc := ascending_foldl_bump List.Pairwise.nil (ds.map Duration.secs)
  have hcount := Tally.Ascending.count_foldl_bump List.Pairwise.nil sec (ds.map Duration.secs)
  rw [cells_record_empty, hasc.mem_newest, hasc.mem_iff, Tally.mem_keys_foldl_bump, hcount, IsAmongLargest,
    ← (perm_keys_foldl_bump _).countP_eq, List.countP_map, and_right_comm]
  simp only [Tally.count, Nat.zero_add, List.map_nil, List.not_mem_nil, or_false, Function.comp_def]

theorem mem_seconds_foldl_record {sec : Nat} :
    sec ∈ (ds.foldl record (empty capacity)).cells.map Prod.fst ↔
      IsAmongLargest (max 1 capacity) (ds.map Duration.secs) sec := by
  constructor
  · intro h
    obtain ⟨c, hc, rfl⟩ := List.mem_map.1 h
    exact (mem_cells_foldl_record.1 hc).1
  · exact fun h => List.mem_map.2 ⟨_, mem_cells_foldl_record.2 ⟨h, rfl⟩, rfl⟩

/-- a second that is not among the largest of some is not among the largest of more -/
theorem IsAmongLargest.of_append {n sec : Nat} {xs ys : List Nat} (h : IsAmongLargest n (xs ++ ys) sec)
    (hsec : sec ∈ xs) : IsAmongLargest n xs sec := by
  refine ⟨hsec, Nat.lt_of_le_of_lt ?_ h.2⟩
  have hsub : xs.dedup ⊆ (xs ++ ys).dedup := fun x hx =>
    List.mem_dedup.2 (List.mem_append_left ys (List.mem_dedup.1 hx))
  exact (List.subperm_of_subset xs.nodup_dedup hsub).countP_le _

/-! ## What is shown -/

/-- between two cells the seconds have no completions -/
theorem gap_eq {first last : Nat} {t : Tally} (h : ∀ c ∈ t, c.1 ≤ first ∨ last ≤ c.1) :
    gap first last = (List.range' (first + 1) (last - first - 1)).map fun k => (k, Tally.count k t) := by
  rw [gap, List.range'_eq_map_range, List.map_map]
  refine List.map_congr_left fun i hi => ?_
  have hi := List.mem_range.1 hi
  have hzero : Tally.count (first + 1 + i) t = 0 := Tally.count_eq_zero fun c hc => by
    have := h c hc
    omega
  rw [Function.comp_apply, hzero]

/-- seconds one by one from the first cell to the last, each with its count -/
theorem fill_eq {c last : Nat × Nat} {rest : Tally} (h : Tally.Ascending (c :: rest))
    (hlast : (c :: rest).getLast? = some last) :
    fill (c :: rest) = (List.range' c.1 (last.1 + 1 - c.1)).map fun k => (k, Tally.count k (c :: rest)) := by
  induction rest generalizing c with
  | nil =>
    obtain rfl := Option.some.inj hlast
    simp [fill, Tally.count]
  | cons d rest ih =>
    obtain ⟨hlt, hrest⟩ := List.pairwise_cons.1 h
    have hle : ∀ e ∈ d :: rest, d.1 ≤ e.1 := fun e he => by
      rcases List.mem_cons.1 he with rfl | he
      · exact Nat.le_refl _
      · exact Nat.le_of_lt ((List.pairwise_cons.1 hrest).1 e he)
    have hcd : c.1 < d.1 := hlt d List.mem_cons_self
    have hdlast : d.1 ≤ last.1 := hle last (List.mem_of_getLast? (List.getLast?_cons_cons ▸ hlast))
    have hgap : gap c.1 d.1 =
        (List.range' (c.1 + 1) (d.1 - c.1 - 1)).map fun k => (k, Tally.count k (c :: d :: rest)) :=
      gap_eq fun e he => (List.mem_cons.1 he).imp (fun he => Nat.le_of_eq (congrArg Prod.fst he)) (hle e)
    have hfill : fill (d :: rest) =
        (List.range' d.1 (last.1 + 1 - d.1)).map fun k => (k, Tally.count k (c :: d :: rest)) := by
      rw [ih hrest (List.getLast?_cons_cons ▸ hlast)]
      refine List.map_congr_left fun k hk => ?_
      have hne : k ≠ c.1 := by have := (List.mem_range'_1.1 hk).1; omega
      rw [Tally.count.eq_2 k c.1, if_neg hne]
    -- the first second, those up to the next cell, and those from there on
    have hsplit : List.range' c.1 (last.1 + 1 - c.1) =
        c.1 :: (List.range' (c.1 + 1) (d.1 - c.1 - 1) ++ List.range' d.1 (last.1 + 1 - d.1)) := by
      have hd : d.1 = c.1 + 1 + (d.1 - c.1 - 1) := by omega
      have hlength : last.1 + 1 - c.1 = d.1 - c.1 - 1 + (last.1 + 1 - d.1) + 1 := by omega
      rw [hlength, List.range'_succ, ← List.range'_append_1, ← hd]
    rw [fill, hgap, hfill, hsplit, List.map_cons, List.map_append, Tally.count.eq_2 c.1 c.1, if_pos rfl]

/-- a series with a cell shows the seconds from its first cell to its last -/
theorem points_eq {s : RateSeries} (h : s.cells.Ascending) (hne : s.cells ≠ []) :
    ∃ first ∈ s.cells, ∃ last ∈ s.cells, (∀ c ∈ s.cells, first.1 ≤ c.1 ∧ c.1 ≤ last.1) ∧
      s.points = (List.range' first.1 (last.1 + 1 - first.1)).map fun k => (k, Tally.count k s.cells) := by
  unfold points
  cases hs : s.cells with
  | nil => exact absurd hs hne
  | cons first rest =>
    rw [hs] at h
    have hlast := List.getLast?_eq_some_getLast (List.cons_ne_nil first rest)
    refine ⟨first, List.mem_cons_self, _, List.getLast_mem _, fun c hc => ⟨?_, Tally.Ascending.le_last h hlast c hc⟩,
      fill_eq h hlast⟩
    rcases List.mem_cons.1 hc with rfl | hc
    · exact Nat.le_refl _
    · exact Nat.le_of_lt ((List.pairwise_cons.1 h).1 c hc)

theorem ascending_points {s : RateSeries} (h : s.cells.Ascending) : Tally.Ascending s.points := by
  by_cases hne : s.cells = []
  · rw [points, hne]
    exact List.Pairwise.nil
  · obtain ⟨first, -, last, -, -, heq⟩ := points_eq h hne
    rw [heq]
    exact List.pairwise_map.2 List.pairwise_lt_range'

theorem mem_points {s : RateSeries} (h : s.cells.Ascending) {sec n : Nat} :
    (sec, n) ∈ s.points ↔
      (∃ c ∈ s.cells, c.1 ≤ sec) ∧ (∃ c ∈ s.cells, sec ≤ c.1) ∧ n = Tally.count sec s.cells := by
  by_cases hne : s.cells = []
  · simp [points, fill, hne]
  · obtain ⟨first, hfirst, last, hlast, hspan, heq⟩ := points_eq h hne
    have hbetween : sec ∈ List.range' first.1 (last.1 + 1 - first.1) ↔ first.1 ≤ sec ∧ sec ≤ last.1 := by
      have := (hspan last hlast).1
      rw [List.mem_range'_1]
      omega
    rw [heq, List.mem_map]
    constructor
    · rintro ⟨k, hk, hpair⟩
      cases hpair
      obtain ⟨hge, hle⟩ := hbetween.1 hk
      exact ⟨⟨first, hfirst, hge⟩, ⟨last, hlast, hle⟩, rfl⟩
    · rintro ⟨⟨c, hc, hge⟩, ⟨d, hd, hle⟩, rfl⟩
      exact ⟨sec, hbetween.2 ⟨Nat.le_trans (hspan c hc).1 hge, Nat.le_trans hle (hspan d hd).2⟩, rfl⟩

/-! ## Whole sequences -/

theorem IsAmongLargest.of_le {n sec later : Nat} {secs : List Nat} (h : IsAmongLargest n secs sec)
    (hle : sec ≤ later) (hlater : later ∈ secs) : IsAmongLargest n secs later := by
  refine ⟨hlater, Nat.lt_of_le_of_lt (List.countP_mono_left fun x _ hx => ?_) h.2⟩
  have := of_decide_eq_true hx
  exact decide_eq_true (by omega)

/-- from the oldest cell on, the counts of a series are those of the sequence -/
theorem count_cells {sec : Nat} (h : ∃ c ∈ (ds.foldl record (empty capacity)).cells, c.1 ≤ sec) :
    Tally.count sec (ds.foldl record (empty capacity)).cells = (ds.map Duration.secs).count sec := by
  obtain ⟨c, hc, hle⟩ := h
  by_cases hsec : sec ∈ ds.map Duration.secs
  · have hkept := (mem_cells_foldl_record.1 hc).1.of_le hle hsec
    exact (((ascending_cells capacity ds).mem_iff).1 (mem_cells_foldl_record.2 ⟨hkept, rfl⟩)).2.symm
  · rw [List.count_eq_zero.2 hsec]
    exact Tally.count_eq_zero fun d hd hk => hsec (hk ▸ (mem_cells_foldl_record.1 hd).1.1)

theorem length_cells (capacity : Nat) (ds : List Duration) :
    (ds.foldl record (empty capacity)).cells.length = min (max 1 capacity) (ds.map Duration.secs).dedup.length := by
  rw [cells_record_empty, Tally.length_newest, length_foldl_bump]

/-- **A series keeps the largest seconds, with full counts.** After any sequence of records, in whatever order, the
cells ascend and hold the `capacity` largest seconds that came up, all if there are no more, each with the number of its
records; a second that is forgotten stays forgotten, whatever comes later. What is shown ascends from the first of these
seconds to the last and leaves none out, with a count of zero for a second that never came up. -/
theorem keeps_largest (capacity : Nat) (ds : List Duration) :
    let secs := ds.map Duration.secs
    let s := ds.foldl record (empty capacity)
    (s.cells.Ascending ∧ s.cells.length = min (max 1 capacity) secs.dedup.length ∧
      ∀ sec n, (sec, n) ∈ s.cells ↔ IsAmongLargest (max 1 capacity) secs sec ∧ n = secs.count sec) ∧
    (∀ es : List Duration, ∀ sec ∈ secs, sec ∉ s.cells.map Prod.fst →
      sec ∉ (es.foldl record s).cells.map Prod.fst) ∧
    Tally.Ascending s.points ∧
    ∀ sec n, (sec, n) ∈ s.points ↔
      (∃ c ∈ s.cells, c.1 ≤ sec) ∧ (∃ c ∈ s.cells, sec ≤ c.1) ∧ n = secs.count sec := by
  intro secs s
  have hasc := ascending_cells capacity ds
  refine ⟨⟨hasc, length_cells capacity ds, fun sec n => mem_cells_foldl_record⟩, ?_, ascending_points hasc,
    fun sec n => ?_⟩
  · intro es sec hsec hgone hback
    rw [← List.foldl_append, mem_seconds_foldl_record, List.map_append] at hback
    exact hgone (mem_seconds_foldl_record.2 (hback.of_append hsec))
  · rw [mem_points hasc]
    exact and_congr_right fun hfrom => and_congr_right fun _ => by rw [count_cells hfrom]

/-! ## The last seconds -/

/-- `sec` is one of the `n` seconds that end with the newest of some -/
def IsRecent (n : Nat) (secs : List Nat) (sec : Nat) : Prop :=
  ∃ newest ∈ secs, (∀ other ∈ secs, other ≤ newest) ∧ sec ≤ newest ∧ newest < sec + n

/-- the seconds shown that have completions are the cells -/
theorem filter_fill {t : Tally} (h : ∀ c ∈ t, 0 < c.2) : (fill t).filter (fun c => 0 < c.2) = t := by
  fun_induction fill t with
  | case1 => rfl
  | case2 c => simpa using h c
  | case3 c d rest ih =>
    have hgap : (gap c.1 d.1).filter (fun c => 0 < c.2) = [] := by
      refine List.filter_eq_nil_iff.2 fun e he => ?_
      obtain ⟨i, -, rfl⟩ := List.mem_map.1 he
      simp
    have hc : decide (0 < c.2) = true := decide_eq_true (h c List.mem_cons_self)
    rw [List.filter_cons, if_pos hc, List.filter_append, hgap, List.nil_append,
      ih fun e he => h e (List.mem_cons_of_mem c he)]

theorem length_filter_points (capacity : Nat) (ds : List Duration) :
    ((ds.foldl record (empty capacity)).points.filter fun p => 0 < p.2).length ≤ max 1 capacity := by
  have hkept := (kept_foldl_record (kept_empty capacity) ds).length_le
  rw [capacity_foldl_record] at hkept
  rw [points, filter_fill fun c hc => ?_]
  · exact hkept
  · obtain ⟨hsec, hcount⟩ := mem_cells_foldl_record.1 hc
    rw [hcount]
    exact List.count_pos_iff.2 hsec.1

/-- `first` and `last` are the ends of the `n` largest of some seconds -/
structure Spans (n : Nat) (secs : List Nat) (first last : Nat) : Prop where
  first_mem : IsAmongLargest n secs first
  last_mem : IsAmongLargest n secs last
  between : ∀ sec, IsAmongLargest n secs sec → first ≤ sec ∧ sec ≤ last

namespace Spans

variable {n first last : Nat} {secs : List Nat}

theorem first_le_last (h : Spans n secs first last) : first ≤ last :=
  (h.between last h.last_mem).1

/-- the last of the largest is the newest of all -/
theorem le_last (h : Spans n secs first last) {sec : Nat} (hsec : sec ∈ secs) : sec ≤ last := by
  by_contra hlt
  exact hlt (h.between sec (h.last_mem.of_le (Nat.le_of_not_le hlt) hsec)).2

theorem isRecent_iff (h : Spans n secs first last) (sec : Nat) :
    IsRecent n secs sec ↔ sec ≤ last ∧ last < sec + n := by
  constructor
  · rintro ⟨newest, hnewest, hall, hle, hlt⟩
    have := h.le_last hnewest
    have := hall last h.last_mem.1
    omega
  · exact fun hsec => ⟨last, h.last_mem.1, fun _ => h.le_last, hsec⟩

/-- if each of the last `n` seconds came up, these are the largest -/
theorem lt_first_add (h : Spans n secs first last) (hall : ∀ sec, IsRecent n secs sec → sec ∈ secs) :
    last < first + n := by
  by_contra hlong
  have hn : 0 < n := Nat.lt_of_le_of_lt (Nat.zero_le _) h.first_mem.2
  have habove : ∀ sec ∈ List.range' (last + 1 - n) n, sec ∈ secs.dedup.filter fun other => first < other := by
    intro sec hsec
    have := List.mem_range'_1.1 hsec
    have hmem : sec ∈ secs := hall sec ((h.isRecent_iff sec).2 (by omega))
    exact List.mem_filter.2 ⟨List.mem_dedup.2 hmem, decide_eq_true (by omega)⟩
  have hcount := (List.subperm_of_subset List.nodup_range' habove).length_le
  rw [List.length_range', ← List.countP_eq_length_filter] at hcount
  exact absurd h.first_mem.2 (Nat.not_lt.2 hcount)

end Spans

/-- a series with records shows the seconds from one end of the largest to the other -/
theorem exists_spans (capacity : Nat) (hne : ds ≠ []) :
    ∃ first last, Spans (max 1 capacity) (ds.map Duration.secs) first last ∧
      (ds.foldl record (empty capacity)).points.map Prod.fst = List.range' first (last + 1 - first) := by
  have hcells : (ds.foldl record (empty capacity)).cells ≠ [] := by
    rw [← List.length_pos_iff, length_cells]
    have : (ds.map Duration.secs).dedup ≠ [] := by simpa using hne
    have := List.length_pos_iff.2 this
    omega
  obtain ⟨first, hfirst, last, hlast, hbetween, heq⟩ := points_eq (ascending_cells capacity ds) hcells
  refine ⟨first.1, last.1, ⟨(mem_cells_foldl_record.1 hfirst).1, (mem_cells_foldl_record.1 hlast).1, ?_⟩, ?_⟩
  · exact fun sec hsec => hbetween _ (mem_cells_foldl_record.2 ⟨hsec, rfl⟩)
  · rw [heq, List.map_map, Function.comp_def, List.map_id']

theorem mem_seconds_of_spans {first last : Nat} (h : Spans (max 1 capacity) (ds.map Duration.secs) first last)
    {sec : Nat} (hsec : sec ∈ (ds.foldl record (empty capacity)).cells.map Prod.fst) : first ≤ sec ∧ sec ≤ last :=
  h.between sec (mem_seconds_foldl_record.1 hsec)

/-- where a second is left out, the cells are as many as they may be -/
theorem length_cells_of_left_out {sec : Nat} (hsec : sec ∈ ds.map Duration.secs)
    (hout : sec ∉ (ds.foldl record (empty capacity)).cells.map Prod.fst) :
    (ds.foldl record (empty capacity)).cells.length = max 1 capacity := by
  have hsub : sec :: (ds.foldl record (empty capacity)).cells.map Prod.fst ⊆ (ds.map Duration.secs).dedup := by
    refine List.cons_subset.2 ⟨List.mem_dedup.2 hsec, fun x hx => ?_⟩
    exact List.mem_dedup.2 (mem_seconds_foldl_record.1 hx).1
  have hnodup := List.nodup_cons.2 ⟨hout, (ascending_cells capacity ds).nodup_keys⟩
  have hmore := (List.subperm_of_subset hnodup hsub).length_le
  have hlength := length_cells capacity ds
  rw [List.length_cons, List.length_map] at hmore
  omega

/-- if the cells lie within the last seconds and a second before them came up, the cells are the last seconds -/
theorem Spans.mem_of_isRecent {first last : Nat} (h : Spans (max 1 capacity) (ds.map Duration.secs) first last)
    (hshort : last < first + max 1 capacity) {old sec : Nat} (hold : old ∈ ds.map Duration.secs) (hlt : old < first)
    (hsec : IsRecent (max 1 capacity) (ds.map Duration.secs) sec) : sec ∈ ds.map Duration.secs := by
  by_contra hidle
  have hsec := (h.isRecent_iff sec).1 hsec
  have hfull := length_cells_of_left_out hold fun hmem => by
    have := (mem_seconds_of_spans h hmem).1
    omega
  have hnew : sec ∉ (ds.foldl record (empty capacity)).cells.map Prod.fst := fun hmem =>
    hidle (mem_seconds_foldl_record.1 hmem).1
  -- the idle second and the cells are one too many for the last seconds
  have hsub : sec :: (ds.foldl record (empty capacity)).cells.map Prod.fst ⊆
      List.range' (last + 1 - max 1 capacity) (last + 1 - (last + 1 - max 1 capacity)) := by
    refine List.cons_subset.2 ⟨List.mem_range'_1.2 (by omega), fun x hx => List.mem_range'_1.2 ?_⟩
    have := mem_seconds_of_spans h hx
    omega
  have hnodup := List.nodup_cons.2 ⟨hnew, (ascending_cells capacity ds).nodup_keys⟩
  have hmore := (List.subperm_of_subset hnodup hsub).length_le
  rw [List.length_cons, List.length_map, List.length_range'] at hmore
  omega

/-- **What a series shows is not bounded by its capacity.** The seconds with completions are at most `capacity` many.
What is shown lies within the last `capacity` seconds exactly if it is at most as many seconds, and that is so exactly
if no second before them came up at all or each of them did. -/
theorem points_recent_iff (capacity : Nat) (ds : List Duration) :
    let secs := ds.map Duration.secs
    let s := ds.foldl record (empty capacity)
    let n := max 1 capacity
    (s.points.filter fun p => 0 < p.2).length ≤ n ∧
    (s.points.length ≤ n ↔ ∀ p ∈ s.points, IsRecent n secs p.1) ∧
    ((∀ p ∈ s.points, IsRecent n secs p.1) ↔
      (∀ sec ∈ secs, IsRecent n secs sec) ∨ ∀ sec, IsRecent n secs sec → sec ∈ secs) := by
  intro secs s n
  refine ⟨length_filter_points capacity ds, ?_⟩
  by_cases hne : ds = []
  · simp [s, secs, hne, points, fill, empty]
  obtain ⟨first, last, h, hpoints⟩ := exists_spans capacity hne
  have hle := h.first_le_last
  have hall : (∀ p ∈ s.points, IsRecent n secs p.1) ↔ last < first + n := by
    rw [← List.forall_mem_map (f := Prod.fst) (P := IsRecent n secs), hpoints]
    constructor
    · intro hrecent
      exact ((h.isRecent_iff first).1 (hrecent first (List.mem_range'_1.2 (by omega)))).2
    · intro hshort sec hsec
      have := List.mem_range'_1.1 hsec
      exact (h.isRecent_iff sec).2 (by omega)
  refine ⟨?_, hall.trans ⟨fun hshort => ?_, ?_⟩⟩
  · rw [hall, ← List.length_map Prod.fst, hpoints, List.length_range']
    omega
  · by_cases hold : ∃ old ∈ secs, old < first
    · obtain ⟨old, hmem, hlt⟩ := hold
      exact .inr fun sec hsec => h.mem_of_isRecent hshort hmem hlt hsec
    · refine .inl fun sec hsec => (h.isRecent_iff sec).2 ⟨h.le_last hsec, ?_⟩
      have := Nat.not_lt.1 fun hlt => hold ⟨sec, hsec, hlt⟩
      omega
  · rintro (hrecent | hidle)
    · exact ((h.isRecent_iff first).1 (hrecent first h.first_mem.1)).2
    · exact h.lt_first_add hidle

/-- records ten seconds apart: a series of two seconds shows eleven, and not all of them are the last two -/
theorem idle_seconds_shown :
    let ds : List Duration := [.ofSecs 0, .ofSecs 10]
    let s := ds.foldl record (empty 2)
    s.points.length = 11 ∧ ∃ p ∈ s.points, ¬IsRecent 2 (ds.map Duration.secs) p.1 := by
  refine ⟨by decide, (0, 1), by decide, ?_⟩
  rintro ⟨newest, -, hmax, -, hlt⟩
  have := hmax 10 (by decide)
  omega

end RateSeries

end LoadGen.Metrics
