/-
Ordered maps as maps. A map is determined by what it has for each key, and writing one entry changes what it has for one
key only.

- `get?_put`, `Ascending.put`: one entry written.
- `Ascending.ext`: two ascending lists that have the same for every key are the same list.
- `ofPairs_ascending`: a list that ascends already is the map of its pairs.
-/
import LoadGen.Scenario.Options

namespace LoadGen.Ordered

variable {α : Type} {m : Ordered α} {key k : String} {value v : α}

/-- in ascending order of the keys, each key once -/
def Ascending (m : Ordered α) : Prop :=
  m.Pairwise fun a b => a.1 < b.1

instance (m : Ordered α) : Decidable m.Ascending :=
  inferInstanceAs (Decidable (m.Pairwise fun a b => a.1 < b.1))

theorem ascending_nil : Ascending ([] : Ordered α) :=
  List.Pairwise.nil

theorem Ascending.tail {e : String × α} (h : Ascending (e :: m)) : Ascending m :=
  (List.pairwise_cons.1 h).2

theorem Ascending.head_lt {e f : String × α} (h : Ascending (e :: m)) (hf : f ∈ m) : e.1 < f.1 :=
  (List.pairwise_cons.1 h).1 f hf

theorem Ascending.mapValues {β : Type} (h : Ascending m) (f : α → β) :
    Ascending (m.map fun e => (e.1, f e.2) : Ordered β) :=
  List.pairwise_map.2 h

/-! ## One entry -/

theorem get?_put : get? k (put key value m) = if k = key then some value else get? k m := by
  induction m with
  | nil => simp [put, get?]
  | cons e m ih =>
    obtain ⟨j, w⟩ := e
    unfold put
    split
    · rfl
    · split
      · rename_i hkey
        rw [get?, get?, ← hkey]
        split <;> rfl
      · rename_i hkey
        rw [get?, ih, get?]
        by_cases hk : k = j
        · have hne : k ≠ key := fun hkk => hkey (hkk.symm.trans hk)
          rw [if_pos hk, if_neg hne, if_pos hk]
        · rw [if_neg hk, if_neg hk]

theorem mem_put {e : String × α} (h : e ∈ put key value m) : e = (key, value) ∨ e ∈ m := by
  induction m with
  | nil => simpa [put] using h
  | cons f m ih =>
    unfold put at h
    split at h
    · exact List.mem_cons.1 h
    · split at h
      · rcases List.mem_cons.1 h with h | h
        · exact .inl h
        · exact .inr (List.mem_cons_of_mem f h)
      · rcases List.mem_cons.1 h with h | h
        · exact .inr (List.mem_cons.2 (.inl h))
        · exact (ih h).imp_right (List.mem_cons_of_mem f)

theorem Ascending.put (h : Ascending m) : Ascending (Ordered.put key value m) := by
  induction m with
  | nil => exact List.pairwise_singleton _ _
  | cons e m ih =>
    obtain ⟨j, w⟩ := e
    unfold Ordered.put
    split
    · rename_i hlt
      refine List.pairwise_cons.2 ⟨fun f hf => ?_, h⟩
      rcases List.mem_cons.1 hf with rfl | hf
      · exact hlt
      · exact String.lt_trans hlt (h.head_lt hf)
    · rename_i hnot
      split
      · rename_i hkey
        refine List.pairwise_cons.2 ⟨fun f hf => ?_, h.tail⟩
        rw [hkey]
        exact h.head_lt hf
      · rename_i hkey
        refine List.pairwise_cons.2 ⟨fun f hf => ?_, ih h.tail⟩
        rcases mem_put hf with rfl | hf
        · have hle : j ≤ key := String.not_lt.1 hnot
          exact String.not_le.1 fun hge => hkey (String.le_antisymm hge hle)
        · exact h.head_lt hf

/-! ## Lists as maps -/

theorem mem_of_get? (h : get? k m = some v) : (k, v) ∈ m := by
  induction m with
  | nil => cases h
  | cons e m ih =>
    obtain ⟨j, w⟩ := e
    rw [get?] at h
    split at h
    · rename_i hk
      cases h
      rw [hk]
      exact List.mem_cons_self
    · exact List.mem_cons_of_mem _ (ih h)

theorem get?_of_mem (hm : Ascending m) (h : (k, v) ∈ m) : get? k m = some v := by
  induction m with
  | nil => cases h
  | cons e m ih =>
    obtain ⟨j, w⟩ := e
    rcases List.mem_cons.1 h with heq | hmem
    · cases heq
      exact if_pos rfl
    · have hne : k ≠ j := fun hk => String.lt_irrefl j (hk ▸ hm.head_lt hmem)
      rw [get?, if_neg hne]
      exact ih hm.tail hmem

/-- the first key of an ascending list is the least of its keys -/
theorem Ascending.head_le {e : String × α} (h : Ascending (e :: m)) (hk : get? k (e :: m) = some v) : e.1 ≤ k := by
  rcases List.mem_cons.1 (mem_of_get? hk) with rfl | hmem
  · exact String.le_refl _
  · exact String.not_lt.1 fun hlt => String.lt_irrefl _ (String.lt_trans hlt (h.head_lt hmem))

theorem Ascending.get?_head {e : String × α} (h : Ascending (e :: m)) : get? e.1 m = none := by
  cases hget : get? e.1 m with
  | none => rfl
  | some w => exact absurd (h.head_lt (mem_of_get? hget)) (String.lt_irrefl _)

theorem Ascending.ext {n : Ordered α} (hm : Ascending m) (hn : Ascending n) (h : ∀ k, get? k m = get? k n) : m = n := by
  induction m generalizing n with
  | nil =>
    cases n with
    | nil => rfl
    | cons f n => cases (h f.1).trans (get?_of_mem hn (v := f.2) List.mem_cons_self)
  | cons e m ih =>
    cases n with
    | nil => cases (get?_of_mem hm (v := e.2) List.mem_cons_self).symm.trans (h e.1)
    | cons f n =>
      have he : get? e.1 (f :: n) = some e.2 := h e.1 ▸ get?_of_mem hm List.mem_cons_self
      have hf : get? f.1 (e :: m) = some f.2 := h f.1 ▸ get?_of_mem hn List.mem_cons_self
      have hkey : e.1 = f.1 := String.le_antisymm (hm.head_le hf) (hn.head_le he)
      have hvalue : e.2 = f.2 := by
        rw [hkey, get?_of_mem hn (v := f.2) List.mem_cons_self] at he
        exact (Option.some.inj he).symm
      have htail : ∀ k, get? k m = get? k n := by
        intro k
        by_cases hk : k = e.1
        · rw [hk, hm.get?_head, hkey, hn.get?_head]
        · have hk' : k ≠ f.1 := hkey ▸ hk
          have hboth := h k
          rwa [get?, get?, if_neg hk, if_neg hk'] at hboth
      rw [ih hm.tail hn.tail htail, Prod.ext hkey hvalue]

/-! ## Maps of pairs -/

theorem put_last (h : ∀ e ∈ m, e.1 < key) : put key value m = m ++ [(key, value)] := by
  induction m with
  | nil => rfl
  | cons e m ih =>
    have hlt := h e List.mem_cons_self
    have hnot : ¬key < e.1 := fun hgt => String.lt_irrefl _ (String.lt_trans hlt hgt)
    have hne : key ≠ e.1 := fun heq => String.lt_irrefl _ (heq ▸ hlt)
    rw [put, if_neg hnot, if_neg hne, ih fun f hf => h f (List.mem_cons_of_mem e hf)]
    rfl

theorem ofPairs_ascending (h : Ascending m) : ofPairs m = m := by
  suffices hall : ∀ (l acc : Ordered α), Ascending (acc ++ l) →
      l.foldl (fun m p => put p.1 p.2 m) acc = acc ++ l from hall m [] h
  intro l
  induction l with
  | nil => intro acc _; exact (List.append_nil acc).symm
  | cons e l ih =>
    intro acc hacc
    have hlast : ∀ f ∈ acc, f.1 < e.1 := fun f hf => (List.pairwise_append.1 hacc).2.2 f hf e List.mem_cons_self
    have happend : acc ++ e :: l = acc ++ [e] ++ l := by simp
    rw [List.foldl_cons, put_last hlast, ih _ (happend ▸ hacc), happend]

end LoadGen.Ordered
