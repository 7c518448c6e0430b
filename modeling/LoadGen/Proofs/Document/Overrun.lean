/-
Where reading a document meets a number of seconds beyond the longest span of time. Nothing ends such a reading but the
number itself, so a reader is described by the nodes in which it meets one.

- `Overruns`: the nodes in which a reader meets one. A reader that has none of them is `Timeless`.
- `Node.MeetsItem`, `Shape.Meets`: it stands in a list or in the fields of a mapping, and all that stands before it has
  been read.
-/
import LoadGen.Document.Field
import LoadGen.Proofs.Steps

namespace LoadGen.Document

variable {α β γ : Type}

/-- a reader meets a number beyond the longest span just in the nodes that `P` tells -/
def Overruns (read : Node → Outcome α) (P : Node → Prop) : Prop :=
  ∀ n, read n = .error .unrepresentable ↔ P n

/-- a reader that meets no such number -/
abbrev Timeless (read : γ → Outcome α) : Prop :=
  ∀ c, read c ≠ .error .unrepresentable

variable {read : Node → Outcome α} {P : Node → Prop}

theorem Timeless.overruns (h : Timeless read) : Overruns read fun _ => False :=
  fun n => iff_of_false (h n) id

theorem Overruns.timeless (h : Overruns read P) (hnone : ∀ n, ¬P n) : Timeless read :=
  fun n hn => hnone n ((h n).1 hn)

/-! ## Steps in a row -/

theorem expect_eq_ok {o : Option α} {a : α} : expect o = .ok a ↔ o = some a := by
  cases o with
  | none => exact iff_of_false (fun h => by cases h) fun h => by cases h
  | some b => exact ⟨fun h => by cases h; rfl, fun h => by cases h; rfl⟩

theorem expect_timeless : Timeless (@expect α) := by
  intro o h
  cases o <;> cases h

/-- what has been read is refused, which is another fault -/
theorem pure_or_malformed {c : Prop} [Decidable c] {a : α} :
    (if c then pure a else .error .malformed : Outcome α) ≠ .error .unrepresentable := by
  intro h
  split at h <;> cases h

/-- what comes after a reading meets no such number -/
theorem bind_overruns {x : Outcome α} {f : α → Outcome β} (hf : Timeless f) :
    (x >>= f) = .error .unrepresentable ↔ x = .error .unrepresentable :=
  bind_eq_error.trans (or_iff_left fun ⟨a, _, ha⟩ => hf a ha)

theorem timeless_bind_overruns {x : Outcome α} {f : α → Outcome β} (hx : x ≠ .error .unrepresentable) :
    (x >>= f) = .error .unrepresentable ↔ ∃ a, x = .ok a ∧ f a = .error .unrepresentable :=
  bind_eq_error.trans (or_iff_right hx)

theorem bind_timeless {x : Outcome α} {f : α → Outcome β} (hx : x ≠ .error .unrepresentable) (hf : Timeless f) :
    (x >>= f) ≠ .error .unrepresentable :=
  fun h => hx ((bind_overruns hf).1 h)

theorem Timeless.bind {read : γ → Outcome α} (h : Timeless read) {f : α → Outcome β} (hf : Timeless f) :
    Timeless fun c => read c >>= f :=
  fun c => bind_timeless (h c) hf

theorem Timeless.map {read : γ → Outcome α} (h : Timeless read) (f : α → β) :
    Timeless fun c => read c >>= fun a => pure (f a) :=
  h.bind fun _ ha => by cases ha

theorem Timeless.mapM {read : γ → Outcome α} (h : Timeless read) (items : List γ) :
    items.mapM read ≠ .error .unrepresentable := by
  intro hitems
  obtain ⟨-, item, -, -, -, hitem⟩ := mapM_eq_error.1 hitems
  exact h item hitem

theorem Overruns.map (h : Overruns read P) (f : α → β) : Overruns (fun n => read n >>= fun a => pure (f a)) P :=
  fun n => (bind_overruns fun _ ha => by cases ha).trans (h n)

theorem overruns_meaning (f : Datum → Outcome α) : Overruns (fun n => expect n.meaning? >>= f)
    fun n => ∃ d, n.meaning? = some d ∧ f d = .error .unrepresentable := by
  intro n
  rw [timeless_bind_overruns (expect_timeless _)]
  exact exists_congr fun d => and_congr_left fun _ => expect_eq_ok

/-! ## Scalars and values that may be left out -/

theorem readText_timeless : Timeless Node.readText := by
  intro n h
  unfold Node.readText at h
  split at h <;> cases h

theorem readWord_timeless : Timeless Node.readWord := by
  intro n h
  unfold Node.readWord at h
  split at h
  · split at h <;> cases h
  · split at h
    · exact expect_timeless _ h
    · cases h
  · cases h

theorem readSmallWord_timeless : Timeless Node.readSmallWord :=
  readWord_timeless.bind fun _ => pure_or_malformed

theorem isNothing_timeless : Timeless Node.isNothing := by
  intro n h
  unfold Node.isNothing at h
  split at h
  · cases h
  · cases h
  · split at h
    · cases h
    · split at h
      · cases h
      · split at h
        · cases h
        · split at h <;> cases h
  · cases h

/-- under its own tag a null means nothing, and everything else has no meaning -/
theorem scalarMeaning?_null (style : Style) (s : String) :
    scalarMeaning? (some (coreTag "null")) style s = if Plain.isNull s then some .null else none := by
  have hlocal : ¬isLocalTag (some (coreTag "null")) = true := by decide +kernel
  have hbool : coreTag "null" ≠ coreTag "bool" := by decide
  have hint : coreTag "null" ≠ coreTag "int" := by decide
  have hfloat : coreTag "null" ≠ coreTag "float" := by decide
  rw [scalarMeaning?, if_neg hlocal, if_neg hbool, if_neg hint, if_neg hfloat, if_pos rfl]

/-- what means something other than nothing is written -/
theorem isNothing_of_meaning {n : Node} {d : Datum} (h : n.meaning? = some d) (hd : d ≠ .null) :
    n.isNothing = .ok false := by
  cases n with
  | cut | bool b | number m | text s | seq tag items | map tag entries => rfl
  | absent => cases h
  | null =>
    cases h
    exact absurd rfl hd
  | scalar tag style s =>
    rw [Node.meaning?] at h
    by_cases hplain : style = .plain
    · subst hplain
      cases tag with
      | none =>
        by_cases hempty : (s.isEmpty || Plain.isNull s) = true
        · have hnull : scalarMeaning? none .plain s = some .null := if_pos hempty
          cases hnull.symm.trans h
          exact absurd rfl hd
        · exact congrArg Except.ok (Bool.eq_false_iff.2 hempty)
      | some t =>
        -- of all tags only that of a null lets a plain scalar stand for nothing
        by_cases ht : t = coreTag "null"
        · rw [ht, scalarMeaning?_null] at h
          split at h
          · cases h
            exact absurd rfl hd
          · cases h
        · exact if_pos ht
    · exact if_pos hplain

theorem Overruns.optional (h : Overruns read P) :
    Overruns (Node.optional read) fun n => n.isNothing = .ok false ∧ P n := by
  intro n
  rw [Node.optional, timeless_bind_overruns (isNothing_timeless n)]
  constructor
  · rintro ⟨_ | _, hn, hread⟩
    · exact ⟨hn, (h.map some n).1 hread⟩
    · cases hread
  · rintro ⟨hn, hp⟩
    exact ⟨false, hn, (h.map some n).2 hp⟩

/-- a number that is met has a meaning, so it has not been left out -/
theorem Overruns.optional_of_meaning (h : Overruns read P) (hp : ∀ n, P n → ∃ d, n.meaning? = some d ∧ d ≠ .null) :
    Overruns (Node.optional read) P := by
  intro n
  rw [h.optional n]
  refine and_iff_right_of_imp fun hn => ?_
  obtain ⟨d, hmeaning, hd⟩ := hp n hn
  exact isNothing_of_meaning hmeaning hd

theorem Timeless.optional (h : Timeless read) : Timeless (Node.optional read) :=
  (h.overruns.optional_of_meaning fun _ => False.elim).timeless fun _ => id

/-! ## Lists and mappings -/

/-- a list has an item that `P` tells, and the items before it can be read -/
def Node.MeetsItem (read : Node → Outcome α) (P : Node → Prop) (n : Node) : Prop :=
  ∃ tag before item after, n = .seq tag (before ++ item :: after) ∧ (∀ x ∈ before, ∃ a, read x = .ok a) ∧ P item

theorem Overruns.readList (h : Overruns read P) : Overruns (Node.readList read) (Node.MeetsItem read P) := by
  intro n
  constructor
  · intro hn
    unfold Node.readList at hn
    split at hn
    · obtain ⟨before, item, after, rfl, hbefore, hitem⟩ := mapM_eq_error.1 hn
      exact ⟨_, before, item, after, rfl, hbefore, (h item).1 hitem⟩
    · split at hn <;> cases hn
  · rintro ⟨tag, before, item, after, rfl, hbefore, hitem⟩
    exact mapM_eq_error.2 ⟨before, item, after, rfl, hbefore, (h item).2 hitem⟩

theorem Timeless.readList (h : Timeless read) : Timeless (Node.readList read) :=
  h.overruns.readList.timeless fun _ ⟨_, _, _, _, _, _, hnone⟩ => hnone

theorem readEntries_timeless {read : Node × Node → Outcome α} (h : Timeless read) :
    Timeless (Node.readEntries read) := by
  intro n hn
  unfold Node.readEntries at hn
  split at hn
  · exact h.mapM _ hn
  · split at hn <;> cases hn

section Fields

variable {F : Type} {shape : Shape F α} {bad : F → Node → Prop}

/-- a field has a value that `bad` tells: the field is known and has not come yet, and all that stands before it has
been read -/
inductive Shape.Meets [DecidableEq F] (shape : Shape F α) (bad : F → Node → Prop) (start : α) : Format → Node → Prop
  | entry {format tag before key value after state name field}
      (hbefore : before.foldlM shape.takeEntry (start, []) = .ok state) (hname : key.readText = .ok name)
      (hfield : shape.named? name = some field) (hnew : field ∉ state.2) (hbad : bad field value) :
      Meets shape bad start format (.map tag (before ++ (key, value) :: after))
  | item {tag items before field value after state}
      (hitems : shape.fields.zip items = before ++ (field, value) :: after)
      (hbefore : before.foldlM (fun state p => shape.take state p.1 p.2) (start, []) = .ok state)
      (hnew : field ∉ state.2) (hbad : bad field value) : Meets shape bad start .json (.seq tag items)

variable [DecidableEq F]

theorem take_overruns (hset : ∀ a field, Overruns (shape.set a field) (bad field)) (state : α × List F) (field : F)
    (value : Node) : shape.take state field value = .error .unrepresentable ↔ field ∉ state.2 ∧ bad field value := by
  rw [Shape.take]
  by_cases hold : field ∈ state.2
  · rw [if_pos hold]
    exact iff_of_false (fun h => by cases h) fun h => h.1 hold
  · rw [if_neg hold, and_iff_right hold]
    exact (hset state.1 field).map _ value

theorem takeEntry_overruns (hset : ∀ a field, Overruns (shape.set a field) (bad field)) (state : α × List F)
    (key value : Node) : shape.takeEntry state (key, value) = .error .unrepresentable ↔
      ∃ name field, key.readText = .ok name ∧ shape.named? name = some field ∧ field ∉ state.2 ∧ bad field value := by
  rw [Shape.takeEntry, timeless_bind_overruns (readText_timeless key)]
  simp only [timeless_bind_overruns (expect_timeless _), expect_eq_ok, take_overruns hset, exists_and_left]

/-- values that are too many or too few are read before they are refused -/
theorem readValues_overruns (start : α) (items : List Node) :
    shape.readValues start items = .error .unrepresentable ↔
      (shape.fields.zip items).foldlM (fun state p => shape.take state p.1 p.2) (start, []) = .error .unrepresentable :=
  bind_overruns fun state h => by split at h <;> cases h

theorem Overruns.readShape (hset : ∀ a field, Overruns (shape.set a field) (bad field)) (format : Format) (start : α) :
    Overruns (shape.read format start) (shape.Meets bad start format) := by
  intro n
  constructor
  · intro hn
    unfold Shape.read at hn
    -- the entries of a mapping, the values of a list, or no fields at all
    split at hn
    · obtain ⟨before, ⟨key, value⟩, after, state, rfl, hbefore, htake⟩ := foldlM_eq_error.1 hn
      obtain ⟨name, field, hname, hfield, hnew, hbad⟩ := (takeEntry_overruns hset state key value).1 htake
      exact .entry hbefore hname hfield hnew hbad
    · obtain ⟨before, ⟨field, value⟩, after, state, hitems, hbefore, htake⟩ :=
        foldlM_eq_error.1 ((readValues_overruns _ _).1 hn)
      obtain ⟨hnew, hbad⟩ := (take_overruns hset state field value).1 htake
      exact .item hitems hbefore hnew hbad
    · split at hn <;> cases hn
  · intro hmeets
    cases hmeets with
    | entry hbefore hname hfield hnew hbad =>
      refine foldlM_eq_error.2 ⟨_, _, _, _, rfl, hbefore, ?_⟩
      exact (takeEntry_overruns hset _ _ _).2 ⟨_, _, hname, hfield, hnew, hbad⟩
    | item hitems hbefore hnew hbad =>
      refine (readValues_overruns _ _).2 (foldlM_eq_error.2 ⟨_, _, _, _, hitems, hbefore, ?_⟩)
      exact (take_overruns hset _ _ _).2 ⟨hnew, hbad⟩

theorem Timeless.readShape (hset : ∀ a field, Timeless (shape.set a field)) (format : Format) (start : α) :
    Timeless (shape.read format start) := by
  refine (Overruns.readShape (fun a field => (hset a field).overruns) format start).timeless fun n hmeets => ?_
  cases hmeets with
  | entry _ _ _ _ hnone => exact hnone
  | item _ _ _ hnone => exact hnone

end Fields

end LoadGen.Document
