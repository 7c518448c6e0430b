/-
Quotas as counters of their own. The windows of all keys stand in one list, and ended ones leave it at moments that
depend on how many keys there are; what a hit counts depends on the hits of its key alone.

- `FixedWindow.opened`, `FixedWindow.count`: the rule for one key, told by the instants of its hits.
- `live`: the window of a key, if it is open. Hits go by it alone (`next_eq`), and to forget ended windows changes no
  live window, now or later (`live_prune`).
- `live_run`: after any hits in the order of time, the live window of a key is that of its own hits.
- `hit_counts_own`: what a hit counts, whatever the other keys do and whenever windows are forgotten.
-/
import Mathlib.Data.List.Induction
import LoadGen.Stub.Quota

namespace LoadGen.Stub

/-! ## The rule for one key -/

namespace FixedWindow

/-- the opening of the window that a hit is in, where the window before opened at `start` -/
def reopen (start now : Duration) : Duration :=
  if windowLength ≤ now - start then now else start

/-- when the window of the last of some hits opened: a window opens with the first hit, and with each that comes at
least a minute after the last window opened -/
def opened : List Duration → Duration
  | [] => .zero
  | first :: later => later.foldl reopen first

/-- the hits since the window of the last of them opened -/
def count (hits : List Duration) : Nat :=
  hits.countP fun t => opened hits ≤ t

variable {hits : List Duration} {now : Duration}

theorem opened_concat (hne : hits ≠ []) (now : Duration) : opened (hits ++ [now]) = reopen (opened hits) now := by
  cases hits with
  | nil => exact absurd rfl hne
  | cons first later => simp only [opened, List.cons_append, List.foldl_append, List.foldl_cons, List.foldl_nil]

/-- a window opens with a hit -/
theorem opened_mem (hne : hits ≠ []) : opened hits ∈ hits := by
  induction hits using List.reverseRecOn with
  | nil => exact absurd rfl hne
  | append_singleton hits now ih =>
    by_cases hnil : hits = []
    · subst hnil
      exact List.mem_singleton.2 rfl
    · rw [opened_concat hnil, reopen]
      split
      · exact List.mem_append_right hits (List.mem_singleton.2 rfl)
      · exact List.mem_append_left _ (ih hnil)

theorem le_of_ordered (hordered : (hits ++ [now]).Pairwise (· ≤ ·)) : ∀ t ∈ hits, t ≤ now := fun t ht =>
  (List.pairwise_append.1 hordered).2.2 t ht now (List.mem_singleton.2 rfl)

/-- no hit comes after the end of the window that is open -/
theorem sub_opened_lt (hordered : hits.Pairwise (· ≤ ·)) : ∀ t ∈ hits, t - opened hits < windowLength := by
  induction hits using List.reverseRecOn with
  | nil => exact fun t ht => absurd ht List.not_mem_nil
  | append_singleton hits now ih =>
    have hfirst : ∀ t ∈ hits ++ [now], t - now < windowLength := by
      intro t ht
      have hle : t ≤ now := by
        rcases List.mem_append.1 ht with ht | ht
        · exact le_of_ordered hordered t ht
        · exact List.mem_singleton.1 ht ▸ Nat.le_refl _
      rw [Duration.lt_iff, Duration.nanos_sub, Nat.sub_eq_zero_of_le hle]
      decide
    by_cases hnil : hits = []
    · subst hnil
      exact hfirst
    · rw [opened_concat hnil, reopen]
      split
      · exact hfirst
      · rename_i hopen
        intro t ht
        rcases List.mem_append.1 ht with ht | ht
        · exact ih (List.pairwise_append.1 hordered).1 t ht
        · exact List.mem_singleton.1 ht ▸ Nat.lt_of_not_le hopen

theorem count_singleton (now : Duration) : count [now] = 1 := by
  have hnow : now ≤ now := Nat.le_refl _
  rw [count, List.countP_singleton]
  exact if_pos (decide_eq_true hnow)

/-- one more hit is the first of a new window, or one more of the last -/
theorem count_concat (hne : hits ≠ []) (hordered : (hits ++ [now]).Pairwise (· ≤ ·)) :
    count (hits ++ [now]) = if windowLength ≤ now - opened hits then 1 else count hits + 1 := by
  rw [count, opened_concat hne, reopen, List.countP_append]
  split
  · rename_i hended
    have hnone : hits.countP (fun t => decide (now ≤ t)) = 0 := by
      refine List.countP_eq_zero.2 fun t ht hge => ?_
      have hopen := sub_opened_lt (List.pairwise_append.1 hordered).1 t ht
      have hge := of_decide_eq_true hge
      simp only [Duration.le_iff, Duration.lt_iff, Duration.nanos_sub] at hopen hge hended
      omega
    have hnow : now ≤ now := Nat.le_refl _
    rw [hnone, List.countP_singleton, if_pos (decide_eq_true hnow)]
  · have hopened := le_of_ordered hordered _ (opened_mem hne)
    rw [List.countP_singleton, if_pos (decide_eq_true hopened), count]

/-- the window of a key after its hits, none before the first -/
def window? (k : QuotaKey) : List Duration → Option QuotaWindow
  | [] => none
  | first :: later => some ⟨k, opened (first :: later), count (first :: later)⟩

theorem window?_of_ne_nil (k : QuotaKey) (hne : hits ≠ []) : window? k hits = some ⟨k, opened hits, count hits⟩ := by
  cases hits with
  | nil => exact absurd rfl hne
  | cons first later => rfl

end FixedWindow

namespace Quotas

variable {q : Quotas} {w : QuotaWindow} {j k : QuotaKey} {now later : Duration}

/-! ## Live windows -/

/-- no key has two windows -/
def Distinct (q : Quotas) : Prop :=
  (q.windows.map QuotaWindow.key).Nodup

/-- the window of a key, if it is open -/
def live (q : Quotas) (k : QuotaKey) (now : Duration) : Option QuotaWindow :=
  (q.find? k).filter fun w => w.isOpen now

/-- a window that is open later is open now -/
theorem isOpen_mono (h : now ≤ later) (hopen : w.isOpen later = true) : w.isOpen now = true := by
  simp only [QuotaWindow.isOpen, decide_eq_true_eq, Duration.lt_iff, Duration.le_iff, Duration.nanos_sub] at *
  omega

theorem next_eq (q : Quotas) (k : QuotaKey) (now : Duration) :
    q.next k now = match q.live k now with
      | some w => { w with hits := w.hits + 1 }
      | none => ⟨k, now, 1⟩ := rfl

theorem find?_key (h : q.find? k = some w) : w.key = k := by
  simpa using List.find?_some h

/-- a window that is put in place is found for its key, and for other keys what was there before -/
theorem find?_put (q : Quotas) (w : QuotaWindow) (k : QuotaKey) :
    (q.put w).find? k = if w.key = k then some w else q.find? k := by
  unfold put
  cases hq : q.find? w.key with
  | none => by_cases hk : w.key = k <;> simp [find?, hk]
  | some old =>
    have hkeys : (fun v : QuotaWindow => decide ((if v.key = w.key then w else v).key = k)) =
        fun v => decide (v.key = k) := by
      funext v
      split
      · rename_i hv
        rw [hv]
      · rfl
    show (q.windows.map _).find? _ = _
    rw [List.find?_map, Function.comp_def, hkeys]
    by_cases hk : w.key = k
    · have hfound : q.windows.find? (fun v => v.key = k) = some old := hk ▸ hq
      rw [if_pos hk, hfound, Option.map_some, if_pos (find?_key hq)]
    · rw [if_neg hk]
      cases hfound : q.find? k with
      | none => exact congrArg (Option.map _) hfound
      | some v =>
        have hne : v.key ≠ w.key := fun hv => hk (hv.symm.trans (find?_key hfound))
        refine (congrArg (Option.map _) hfound).trans ?_
        rw [Option.map_some, if_neg hne]

theorem distinct_put (h : q.Distinct) (w : QuotaWindow) : (q.put w).Distinct := by
  unfold put
  cases hq : q.find? w.key with
  | none =>
    refine List.nodup_cons.2 ⟨fun hmem => ?_, h⟩
    obtain ⟨v, hv, hkey⟩ := List.mem_map.1 hmem
    exact List.find?_eq_none.1 hq v hv (decide_eq_true hkey)
  | some old =>
    have hkeys : (q.windows.map fun v => if v.key = w.key then w else v).map QuotaWindow.key =
        q.windows.map QuotaWindow.key := by
      rw [List.map_map]
      refine List.map_congr_left fun v _ => ?_
      rw [Function.comp_apply]
      split
      · rename_i hv
        exact hv.symm
      · rfl
    show (List.map _ _).Nodup
    rw [hkeys]
    exact h

/-- where no key has two windows, to leave windows out is to leave them out for their keys -/
theorem find?_filter {ws : List QuotaWindow} (hws : (ws.map QuotaWindow.key).Nodup) (p : QuotaWindow → Bool)
    (k : QuotaKey) : (ws.filter p).find? (fun w => w.key = k) = (ws.find? fun w => w.key = k).filter p := by
  induction ws with
  | nil => rfl
  | cons w ws ih =>
    obtain ⟨hnew, hws⟩ := List.nodup_cons.1 hws
    by_cases hk : w.key = k
    · have hnone : ws.find? (fun v => v.key = k) = none := List.find?_eq_none.2 fun v hv hkey =>
        hnew (List.mem_map.2 ⟨v, hv, (of_decide_eq_true hkey).trans hk.symm⟩)
      cases hp : p w with
      | true => simp [Option.filter, hp, hk]
      | false => simp [Option.filter, hp, hk, ih hws, hnone]
    · cases hp : p w with
      | true => simp [hp, hk, ih hws]
      | false => simp [hp, hk, ih hws]

theorem distinct_prune (h : q.Distinct) (now : Duration) : (q.prune now).Distinct := by
  unfold prune
  split
  · exact h.sublist (List.filter_sublist.map _)
  · exact h

/-- **Forgetting is invisible**: windows that have ended are as good as none, now and at any later instant. -/
theorem live_prune (h : q.Distinct) (hle : now ≤ later) (k : QuotaKey) :
    (q.prune now).live k later = q.live k later := by
  unfold prune
  split
  · have hfind : ({ q with windows := q.windows.filter fun w => w.isOpen now } : Quotas).find? k =
        (q.find? k).filter fun w => w.isOpen now := find?_filter h _ k
    rw [live, hfind, live]
    cases q.find? k with
    | none => rfl
    | some w =>
      cases hopen : w.isOpen later with
      | false => cases hnow : w.isOpen now <;> simp [Option.filter, hopen, hnow]
      | true => simp [Option.filter, hopen, isOpen_mono hle hopen]
  · rfl

theorem live_put (q : Quotas) (w : QuotaWindow) (k : QuotaKey) (now : Duration) :
    (q.put w).live k now = if w.key = k then (some w).filter (fun w => w.isOpen now) else q.live k now := by
  rw [live, find?_put]
  split <;> rfl

/-! ## Hits -/

theorem next_prune (h : q.Distinct) (k : QuotaKey) (now : Duration) : (q.prune now).next k now = q.next k now := by
  have hnow : now ≤ now := Nat.le_refl _
  rw [next_eq, next_eq, live_prune h hnow]

theorem next_key (q : Quotas) (k : QuotaKey) (now : Duration) : (q.next k now).key = k := by
  rw [next_eq]
  cases hw : q.live k now with
  | none => rfl
  | some w =>
    show w.key = k
    exact find?_key (Option.filter_eq_some_iff.1 hw).1

theorem distinct_hit (h : q.Distinct) (k : QuotaKey) (now : Duration) : (q.hit k now).1.Distinct :=
  distinct_put (distinct_prune h now) _

/-- a hit changes the live window of its key, to the window that it counts in, and no other -/
theorem live_hit (h : q.Distinct) (hle : now ≤ later) (j k : QuotaKey) :
    (q.hit j now).1.live k later =
      if j = k then (some (q.next j now)).filter (fun w => w.isOpen later) else q.live k later := by
  rw [hit, live_put, next_prune h, next_key, live_prune h hle]

/-! ## Runs -/

/-- a hit: its key and its instant -/
abbrev Hit := QuotaKey × Duration

/-- no hit comes before an earlier one -/
def InOrder (hits : List Hit) : Prop :=
  hits.Pairwise fun a b => a.2 ≤ b.2

instance (hits : List Hit) : Decidable (InOrder hits) :=
  inferInstanceAs (Decidable (hits.Pairwise fun a b => a.2 ≤ b.2))

/-- the state after some hits -/
def run (q : Quotas) (hits : List Hit) : Quotas :=
  hits.foldl (fun q h => (q.hit h.1 h.2).1) q

/-- the instants of the hits of one key -/
def instants (k : QuotaKey) (hits : List Hit) : List Duration :=
  (hits.filter fun h => h.1 = k).map Prod.snd

theorem instants_concat (k j : QuotaKey) (hits : List Hit) (now : Duration) :
    instants k (hits ++ [(j, now)]) = if j = k then instants k hits ++ [now] else instants k hits := by
  by_cases hk : j = k <;> simp [instants, hk]

theorem ordered_instants {hits : List Hit} (hordered : InOrder hits)
    (k : QuotaKey) : (instants k hits).Pairwise (· ≤ ·) :=
  List.pairwise_map.2 (hordered.sublist List.filter_sublist)

theorem distinct_run (pruneAt : Nat) (hits : List Hit) : ((empty pruneAt).run hits).Distinct := by
  induction hits using List.reverseRecOn with
  | nil => exact List.nodup_nil
  | append_singleton hits h ih =>
    rw [run, List.foldl_append]
    exact distinct_hit ih h.1 h.2

/-- what a hit makes of the live window of its key is what the rule says of one more hit -/
theorem next_of_live {hits : List Duration} (hordered : (hits ++ [now]).Pairwise (· ≤ ·))
    (hlive : q.live k now = (FixedWindow.window? k hits).filter fun w => w.isOpen now) :
    some (q.next k now) = FixedWindow.window? k (hits ++ [now]) := by
  rw [next_eq, hlive]
  by_cases hnil : hits = []
  · subst hnil
    simp [FixedWindow.window?, FixedWindow.opened, FixedWindow.count_singleton]
  · rw [FixedWindow.window?_of_ne_nil k hnil, FixedWindow.window?_of_ne_nil k (by simp), FixedWindow.opened_concat hnil,
      FixedWindow.count_concat hnil hordered, FixedWindow.reopen]
    by_cases hended : windowLength ≤ now - FixedWindow.opened hits
    · have hclosed : ¬now - FixedWindow.opened hits < windowLength := Nat.not_lt.2 hended
      simp [Option.filter, QuotaWindow.isOpen, hclosed, hended]
    · have hopen : now - FixedWindow.opened hits < windowLength := Nat.lt_of_not_le hended
      simp [Option.filter, QuotaWindow.isOpen, hopen, hended]

/-- after any hits in the order of time, the live window of a key is that of its own hits -/
theorem live_run (pruneAt : Nat) {hits : List Hit} (hordered : InOrder hits)
    (k : QuotaKey) (now : Duration) (hnow : ∀ h ∈ hits, h.2 ≤ now) :
    ((empty pruneAt).run hits).live k now = (FixedWindow.window? k (instants k hits)).filter fun w => w.isOpen now := by
  induction hits using List.reverseRecOn generalizing k now with
  | nil => rfl
  | append_singleton hits h ih =>
    obtain ⟨j, at'⟩ := h
    obtain ⟨hbefore, -, hlast⟩ := List.pairwise_append.1 hordered
    have hle : at' ≤ now := hnow (j, at') (by simp)
    have hearlier : ∀ h ∈ hits, h.2 ≤ at' := fun h hh => hlast h hh _ (List.mem_singleton.2 rfl)
    have hstep : (empty pruneAt).run (hits ++ [(j, at')]) = (((empty pruneAt).run hits).hit j at').1 := by
      rw [run, List.foldl_append]
      rfl
    rw [hstep, live_hit (distinct_run pruneAt hits) hle, instants_concat]
    by_cases hk : j = k
    · subst hk
      have hown := ordered_instants hordered j
      rw [instants_concat, if_pos rfl] at hown
      rw [if_pos rfl, if_pos rfl, next_of_live hown (ih hbefore j at' hearlier)]
    · rw [if_neg hk, if_neg hk]
      exact ih hbefore k now fun h hh => hnow h (List.mem_append_left _ hh)

/-- what a hit makes of the window of its key, in the order of time: the window of its own hits, this one with them -/
theorem next_run (pruneAt : Nat) {before : List Hit} (hordered : InOrder (before ++ [(k, now)])) :
    some (((empty pruneAt).run before).next k now) = FixedWindow.window? k (instants k (before ++ [(k, now)])) := by
  obtain ⟨hbefore, -, hlast⟩ := List.pairwise_append.1 hordered
  have hown := ordered_instants hordered k
  rw [instants_concat, if_pos rfl] at hown
  rw [instants_concat, if_pos rfl]
  exact next_of_live hown (live_run pruneAt hbefore k now fun h hh => hlast h hh _ (List.mem_singleton.2 rfl))

/-- **A hit counts with the hits of its own key.** Of hits on any keys, none before an earlier one, the last is told
the number of hits of its key since the window of that key opened, each minute counted from its first hit; it depends
neither on the other keys nor on when ended windows are forgotten. -/
theorem hit_counts_own (pruneAt : Nat) (before : List Hit) (k : QuotaKey) (now : Duration)
    (hordered : InOrder (before ++ [(k, now)])) :
    (((empty pruneAt).run before).hit k now).2 = FixedWindow.count (instants k (before ++ [(k, now)])) := by
  obtain ⟨hbefore, -, hlast⟩ := List.pairwise_append.1 hordered
  have hown := ordered_instants hordered k
  rw [instants_concat, if_pos rfl] at hown
  have hlive := live_run pruneAt hbefore k now fun h hh => hlast h hh _ (List.mem_singleton.2 rfl)
  have hnext := next_of_live hown hlive
  rw [FixedWindow.window?_of_ne_nil k (by simp)] at hnext
  rw [hit, next_prune (distinct_run pruneAt before), Option.some.inj hnext, instants_concat, if_pos rfl]

/-- the window of the second client is still open when that of the first has ended and is forgotten -/
theorem hit_counts_own_pruned :
    let hits : List Hit :=
      [(⟨"b", "/quota"⟩, .zero), (⟨"a", "/quota"⟩, .ofSecs 20), (⟨"a", "/quota"⟩, .ofSecs 61)]
    InOrder (hits ++ [(⟨"a", "/quota"⟩, .ofSecs 79)]) ∧ ((empty 2).run hits).tracked = 1 ∧
      (((empty 2).run hits).hit ⟨"a", "/quota"⟩ (.ofSecs 79)).2 = 3 := by
  intro hits
  have hordered : InOrder (hits ++ [(⟨"a", "/quota"⟩, .ofSecs 79)]) := by decide
  have hcount := hit_counts_own 2 hits ⟨"a", "/quota"⟩ (.ofSecs 79) hordered
  exact ⟨hordered, by decide, hcount.trans (by decide)⟩

end Quotas

end LoadGen.Stub
