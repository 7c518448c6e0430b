/-
Steps that may fail, in a row: all of them succeed, or the first that does not is the answer.

- `bind_eq_ok`: a step that has succeeded, and what came after it.
- `guard_eq_ok`: a guard that has let pass.
- `forM_eq_ok_iff`, `mapM_ok`: a list of checks, and a list of readings that all succeed.
- `bind_eq_error`, `mapM_eq_error`, `foldlM_eq_error`: where a fault comes from; all before it has succeeded.
-/
namespace LoadGen

variable {α β ε : Type}

/-- what a step that succeeded has given to the next -/
theorem bind_eq_ok {x : Except ε α} {f : α → Except ε β} {b : β} :
    (x >>= f) = .ok b ↔ ∃ a, x = .ok a ∧ f a = .ok b := by
  cases x with
  | error e => exact iff_of_false (fun h => by cases h) fun ⟨_, h, _⟩ => by cases h
  | ok a => exact ⟨fun h => ⟨a, rfl, h⟩, fun ⟨_, ha, h⟩ => by cases ha; exact h⟩

/-- whether a step has succeeded with a given result -/
instance decidableEqOk [DecidableEq α] (x : Except ε α) (a : α) : Decidable (x = .ok a) :=
  match x with
  | .error _ => isFalse fun h => by cases h
  | .ok b => decidable_of_iff (b = a) ⟨fun h => congrArg Except.ok h, fun h => by cases h; rfl⟩

theorem eq_ok_get {x : Except ε α} (h : x.toOption.isSome = true) : x = .ok (x.toOption.get h) := by
  cases x with
  | error e => cases h
  | ok a => rfl

/-- a list of checks passes if each of them does -/
theorem forM_eq_ok_iff {f : α → Except ε Unit} {xs : List α} : xs.forM f = .ok () ↔ ∀ x ∈ xs, f x = .ok () := by
  induction xs with
  | nil => simp [List.forM, pure, Except.pure]
  | cons y xs ih =>
    have hcons : (y :: xs).forM f = f y >>= fun _ => xs.forM f := rfl
    rw [hcons, bind_eq_ok, List.forall_mem_cons, ← ih]
    exact ⟨fun ⟨_, hy, hxs⟩ => ⟨hy, hxs⟩, fun ⟨hy, hxs⟩ => ⟨_, hy, hxs⟩⟩

/-- a list of readings, each of which succeeds -/
theorem mapM_ok {f : α → Except ε β} {g : α → β} {xs : List α} (h : ∀ x ∈ xs, f x = .ok (g x)) :
    xs.mapM f = .ok (xs.map g) := by
  induction xs with
  | nil => rfl
  | cons y xs ih =>
    rw [List.mapM_cons, h y (by simp), ih fun x hx => h x (by simp [hx])]
    rfl

/-- each result of a list of readings is the reading of an item -/
theorem exists_of_mem_mapM {f : α → Except ε β} {xs : List α} {ys : List β} (h : xs.mapM f = .ok ys) :
    ∀ y ∈ ys, ∃ x ∈ xs, f x = .ok y := by
  induction xs generalizing ys with
  | nil =>
    cases h
    intro y hy
    cases hy
  | cons x xs ih =>
    rw [List.mapM_cons, bind_eq_ok] at h
    obtain ⟨y, hx, h⟩ := h
    obtain ⟨ys', hxs, h⟩ := bind_eq_ok.1 h
    cases h
    intro z hz
    rcases List.mem_cons.1 hz with rfl | hz
    · exact ⟨x, List.mem_cons_self, hx⟩
    · obtain ⟨w, hw, hfw⟩ := ih hxs z hz
      exact ⟨w, List.mem_cons_of_mem x hw, hfw⟩

/-- a list that was written item by item, each of which is read back -/
theorem mapM_map_ok {γ : Type} {f : β → Except ε γ} {g : α → β} {h : α → γ} {xs : List α}
    (hread : ∀ x ∈ xs, f (g x) = .ok (h x)) : (xs.map g).mapM f = .ok (xs.map h) := by
  rw [List.mapM_map]
  exact mapM_ok hread

theorem mapM_written {f : β → Except ε α} {g : α → β} {xs : List α} (hread : ∀ x ∈ xs, f (g x) = .ok x) :
    (xs.map g).mapM f = .ok xs := by
  rw [mapM_map_ok hread, List.map_id']

/-- a check that fails ends what it stands in -/
theorem error_bind (e : ε) (f : α → Except ε β) : (.error e >>= f) = .error e := rfl

/-! ## Faults -/

/-- a fault is the first step's, or the next one's after the first has succeeded -/
theorem bind_eq_error {x : Except ε α} {f : α → Except ε β} {e : ε} :
    (x >>= f) = .error e ↔ x = .error e ∨ ∃ a, x = .ok a ∧ f a = .error e := by
  cases x with
  | error d =>
    rw [error_bind, Except.error.injEq, Except.error.injEq]
    exact ⟨fun h => .inl h, fun h => h.resolve_right fun ⟨_, ha, _⟩ => by cases ha⟩
  | ok a =>
    refine ⟨fun h => .inr ⟨a, rfl, h⟩, ?_⟩
    rintro (h | ⟨_, ha, h⟩)
    · cases h
    · cases ha
      exact h

theorem map_eq_error {x : Except ε α} {f : α → β} {e : ε} : x.map f = .error e ↔ x = .error e := by
  cases x with
  | error d => exact Iff.of_eq (by rw [Except.map, Except.error.injEq, Except.error.injEq])
  | ok a => exact iff_of_false (fun h => by cases h) fun h => by cases h

/-- a list of readings ends with the fault of the first item that has one -/
theorem mapM_eq_error {f : α → Except ε β} {xs : List α} {e : ε} : xs.mapM f = .error e ↔
    ∃ before x after, xs = before ++ x :: after ∧ (∀ y ∈ before, ∃ b, f y = .ok b) ∧ f x = .error e := by
  induction xs with
  | nil => exact iff_of_false (fun h => by cases h) fun ⟨before, x, after, h, _⟩ => by simp at h
  | cons x xs ih =>
    rw [List.mapM_cons, bind_eq_error]
    constructor
    · rintro (hx | ⟨b, hx, hrest⟩)
      · exact ⟨[], x, xs, rfl, (fun y hy => by cases hy), hx⟩
      · rcases bind_eq_error.1 hrest with hrest | ⟨bs, -, hpure⟩
        · obtain ⟨before, y, after, rfl, hbefore, hy⟩ := ih.1 hrest
          exact ⟨x :: before, y, after, rfl, List.forall_mem_cons.2 ⟨⟨b, hx⟩, hbefore⟩, hy⟩
        · cases hpure
    · rintro ⟨before, y, after, heq, hbefore, hy⟩
      cases before with
      | nil =>
        cases heq
        exact .inl hy
      | cons z before =>
        cases heq
        obtain ⟨⟨b, hx⟩, hbefore⟩ := List.forall_mem_cons.1 hbefore
        exact .inr ⟨b, hx, bind_eq_error.2 (.inl (ih.2 ⟨before, y, after, rfl, hbefore, hy⟩))⟩

/-- steps in a row end with the fault of the first that has one -/
theorem foldlM_eq_error {f : β → α → Except ε β} {xs : List α} {s : β} {e : ε} : xs.foldlM f s = .error e ↔
    ∃ before x after t, xs = before ++ x :: after ∧ before.foldlM f s = .ok t ∧ f t x = .error e := by
  induction xs generalizing s with
  | nil => exact iff_of_false (fun h => by cases h) fun ⟨before, x, after, t, h, _⟩ => by simp at h
  | cons x xs ih =>
    rw [List.foldlM_cons, bind_eq_error]
    constructor
    · rintro (hx | ⟨t, hx, hrest⟩)
      · exact ⟨[], x, xs, s, rfl, rfl, hx⟩
      · obtain ⟨before, y, after, u, rfl, hbefore, hy⟩ := ih.1 hrest
        exact ⟨x :: before, y, after, u, rfl, bind_eq_ok.2 ⟨t, hx, hbefore⟩, hy⟩
    · rintro ⟨before, y, after, u, heq, hbefore, hy⟩
      cases before with
      | nil =>
        cases heq
        cases hbefore
        exact .inl hy
      | cons z before =>
        cases heq
        obtain ⟨t, hx, hbefore⟩ := bind_eq_ok.1 hbefore
        exact .inr ⟨t, hx, ih.2 ⟨before, y, after, u, rfl, hbefore, hy⟩⟩

/-- a guard that has let pass -/
theorem guard_eq_ok {p : Prop} [Decidable p] {e : ε} {x : Except ε α} {a : α} :
    (if p then .error e else x) = .ok a ↔ ¬p ∧ x = .ok a := by
  by_cases hp : p
  · rw [if_pos hp]
    exact iff_of_false (fun h => by cases h) fun h => h.1 hp
  · rw [if_neg hp]
    exact ⟨fun h => ⟨hp, h⟩, fun h => h.2⟩

end LoadGen
