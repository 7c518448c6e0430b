/-
Trees that read back. What was written as a text may come back as a scalar with a style, a number as a scalar too, so a
tree that was written and read again is another tree. It reads back if each part is still taken for what it was: a text
for that text and for nothing else, a word for that word, a list or a mapping part by part. Readers of documents then
cannot tell the two trees apart.

- `ReadBack`: the second tree is what was read where the first was written. It can be decided.
- `ReadBack.meaning`: it means the same.
- `Faithful`: a reader that reads what was written wherever it reads back; the readers of fields and lists are.
-/
import LoadGen.Document.Field
import LoadGen.Proofs.Steps

namespace LoadGen.Document

/-! ## Reading back -/

instance decidableText (d : Option Datum) (s : String) : Decidable (d = some (.text s)) :=
  match d with
  | some (.text t) => decidable_of_iff (t = s) ⟨fun h => by rw [h], fun h => by cases h; rfl⟩
  | none | some .null | some (.bool _) | some (.number _) | some (.seq _) | some (.map _) =>
    isFalse fun h => by cases h

instance decidableNat (d : Option Datum) (w : Nat) : Decidable (d = some (.number (.nat w))) :=
  match d with
  | some (.number (.nat k)) => decidable_of_iff (k = w) ⟨fun h => by rw [h], fun h => by cases h; rfl⟩
  | none | some .null | some (.bool _) | some (.text _) | some (.number (.negative _)) | some (.number (.real _))
  | some (.seq _) | some (.map _) => isFalse fun h => by cases h

mutual

/-- the second tree is what was read where the first was written -/
def Node.readsBack : Node → Node → Bool
  | .text s, n => n.readText = .ok s ∧ n.isNothing = .ok false ∧ n.meaning? = some (.text s)
  | .number m, n => match m.value? with
    | some (.nat w) => n.readWord = .ok w ∧ n.isNothing = .ok false ∧ n.meaning? = some (.number (.nat w))
    | _ => false
  | .seq none ws, .seq none ns => itemsReadBack ws ns
  | .map none ws, .map none ns => entriesReadBack ws ns
  | _, _ => false

def itemsReadBack : List Node → List Node → Bool
  | [], [] => true
  | w :: ws, n :: ns => w.readsBack n && itemsReadBack ws ns
  | _, _ => false

def entriesReadBack : List (Node × Node) → List (Node × Node) → Bool
  | [], [] => true
  | (j, w) :: ws, (k, n) :: ns => j.readsBack k && (w.readsBack n && entriesReadBack ws ns)
  | _, _ => false

end

/-- nothing was lost from the first tree in the second -/
def Node.ReadBack (w n : Node) : Prop :=
  w.readsBack n = true

instance (w n : Node) : Decidable (w.ReadBack n) :=
  inferInstanceAs (Decidable (w.readsBack n = true))

def ItemsReadBack (ws ns : List Node) : Prop :=
  itemsReadBack ws ns = true

def EntriesReadBack (ws ns : List (Node × Node)) : Prop :=
  entriesReadBack ws ns = true

theorem readBack_text {s : String} {n : Node} : (Node.text s).ReadBack n ↔
    n.readText = .ok s ∧ n.isNothing = .ok false ∧ n.meaning? = some (.text s) := by
  rw [Node.ReadBack, Node.readsBack, decide_eq_true_iff]

theorem readBack_number {m : Numeral} {n : Node} : (Node.number m).ReadBack n ↔
    ∃ w, m.value? = some (.nat w) ∧ n.readWord = .ok w ∧ n.isNothing = .ok false ∧
      n.meaning? = some (.number (.nat w)) := by
  rw [Node.ReadBack, Node.readsBack]
  split
  · rename_i w hw
    rw [decide_eq_true_iff]
    exact ⟨fun h => ⟨w, hw, h⟩, fun ⟨k, hk, h⟩ => by cases hw.symm.trans hk; exact h⟩
  · rename_i hno
    exact iff_of_false (by decide) fun ⟨w, hw, _⟩ => hno w hw

theorem itemsReadBack_cons {w n : Node} {ws ns : List Node} :
    ItemsReadBack (w :: ws) (n :: ns) ↔ w.ReadBack n ∧ ItemsReadBack ws ns := by
  rw [ItemsReadBack, itemsReadBack, Bool.and_eq_true]
  rfl

theorem entriesReadBack_cons {j k w n : Node} {ws ns : List (Node × Node)} :
    EntriesReadBack ((j, w) :: ws) ((k, n) :: ns) ↔ j.ReadBack k ∧ w.ReadBack n ∧ EntriesReadBack ws ns := by
  rw [EntriesReadBack, entriesReadBack, Bool.and_eq_true, Bool.and_eq_true]
  rfl

theorem Node.ReadBack.seq_inv {tag : Option String} {ws : List Node} {n : Node} (h : (Node.seq tag ws).ReadBack n) :
    tag = none ∧ ∃ ns, n = .seq none ns ∧ ItemsReadBack ws ns := by
  unfold Node.ReadBack Node.readsBack at h
  split at h
  · contradiction
  · contradiction
  · rename_i heq
    cases heq
    exact ⟨rfl, _, rfl, h⟩
  · contradiction
  · cases h

theorem Node.ReadBack.map_inv {tag : Option String} {ws : List (Node × Node)} {n : Node}
    (h : (Node.map tag ws).ReadBack n) : tag = none ∧ ∃ ns, n = .map none ns ∧ EntriesReadBack ws ns := by
  unfold Node.ReadBack Node.readsBack at h
  split at h
  · contradiction
  · contradiction
  · contradiction
  · rename_i heq
    cases heq
    exact ⟨rfl, _, rfl, h⟩
  · cases h

/-- only texts, words, lists and mappings are written -/
theorem Node.ReadBack.not_other {w n : Node} (h : w.ReadBack n) :
    (∃ s, w = .text s) ∨ (∃ m, w = .number m) ∨ (∃ ws, w = .seq none ws) ∨ ∃ ws, w = .map none ws := by
  unfold Node.ReadBack Node.readsBack at h
  split at h
  · exact .inl ⟨_, rfl⟩
  · exact .inr (.inl ⟨_, rfl⟩)
  · exact .inr (.inr (.inl ⟨_, rfl⟩))
  · exact .inr (.inr (.inr ⟨_, rfl⟩))
  · cases h

/-! ## What reads back means the same -/

mutual

theorem Node.ReadBack.meaning : ∀ {w n : Node}, w.ReadBack n → n.meaning? = w.meaning?
  | .text s, n, h => (readBack_text.1 h).2.2
  | .number m, n, h => by
    obtain ⟨w, hw, -, -, hmeaning⟩ := readBack_number.1 h
    rw [hmeaning, Node.meaning?, hw]
    rfl
  | .seq tag ws, n, h => by
    obtain ⟨rfl, ns, rfl, hitems⟩ := h.seq_inv
    rw [Node.meaning?, Node.meaning?, ItemsReadBack.meanings hitems]
  | .map tag ws, n, h => by
    obtain ⟨rfl, ns, rfl, hentries⟩ := h.map_inv
    rw [Node.meaning?, Node.meaning?, EntriesReadBack.meanings hentries]
  | .cut, n, h | .absent, n, h | .null, n, h | .bool _, n, h | .scalar .., n, h => by cases h

theorem ItemsReadBack.meanings : ∀ {ws ns : List Node}, ItemsReadBack ws ns → itemMeanings? ns = itemMeanings? ws
  | [], [], _ => rfl
  | w :: ws, n :: ns, h => by
    obtain ⟨hw, hws⟩ := itemsReadBack_cons.1 h
    rw [itemMeanings?, itemMeanings?, hw.meaning, ItemsReadBack.meanings hws]
  | [], _ :: _, h | _ :: _, [], h => by cases h

theorem EntriesReadBack.meanings : ∀ {ws ns : List (Node × Node)}, EntriesReadBack ws ns →
    entryMeanings? ns = entryMeanings? ws
  | [], [], _ => rfl
  | (j, w) :: ws, (k, n) :: ns, h => by
    obtain ⟨hj, hw, hws⟩ := entriesReadBack_cons.1 h
    rw [entryMeanings?, entryMeanings?, hj.meaning, hw.meaning, EntriesReadBack.meanings hws]
  | [], _ :: _, h | _ :: _, [], h => by cases h

end

theorem Node.ReadBack.isNothing {w n : Node} (h : w.ReadBack n) :
    w.isNothing = .ok false ∧ n.isNothing = .ok false := by
  rcases h.not_other with ⟨s, rfl⟩ | ⟨m, rfl⟩ | ⟨ws, rfl⟩ | ⟨ws, rfl⟩
  · exact ⟨rfl, (readBack_text.1 h).2.1⟩
  · obtain ⟨w, -, -, hnothing, -⟩ := readBack_number.1 h
    exact ⟨rfl, hnothing⟩
  · obtain ⟨-, ns, rfl, -⟩ := h.seq_inv
    exact ⟨rfl, rfl⟩
  · obtain ⟨-, ns, rfl, -⟩ := h.map_inv
    exact ⟨rfl, rfl⟩

/-! ## Readers that cannot tell the trees apart -/

/-- a reader that reads what was written wherever it reads back -/
def Faithful {α : Type} (read : Node → Outcome α) : Prop :=
  ∀ ⦃w n a⦄, w.ReadBack n → read w = .ok a → read n = .ok a

variable {α β : Type} {read : Node → Outcome α}

/-- a reader of the meaning alone -/
theorem faithful_of_meaning (f : Datum → Outcome α) : Faithful fun n => expect n.meaning? >>= f := by
  intro w n a h hw
  simpa only [h.meaning] using hw

theorem Faithful.bind (hread : Faithful read) (f : α → Outcome β) : Faithful fun n => read n >>= f := by
  intro w n b h hw
  cases hr : read w with
  | error e =>
    simp only [hr] at hw
    cases hw
  | ok a =>
    simp only [hr] at hw
    simp only [hread h hr]
    exact hw

theorem faithful_readText : Faithful Node.readText := by
  intro w n a h hw
  rcases h.not_other with ⟨s, rfl⟩ | ⟨m, rfl⟩ | ⟨ws, rfl⟩ | ⟨ws, rfl⟩
  · cases hw
    exact (readBack_text.1 h).1
  all_goals cases hw

theorem faithful_readWord : Faithful Node.readWord := by
  intro w n a h hw
  rcases h.not_other with ⟨s, rfl⟩ | ⟨m, rfl⟩ | ⟨ws, rfl⟩ | ⟨ws, rfl⟩
  case inr.inl =>
    obtain ⟨k, hk, hread, -, -⟩ := readBack_number.1 h
    simp only [Node.readWord, hk] at hw
    cases hw
    exact hread
  all_goals cases hw

theorem faithful_readSmallWord : Faithful Node.readSmallWord :=
  faithful_readWord.bind _

theorem Faithful.optional (hread : Faithful read) : Faithful (Node.optional read) := by
  intro w n a h hw
  obtain ⟨hnw, hnn⟩ := h.isNothing
  simp only [Node.optional, hnw] at hw
  simp only [Node.optional, hnn]
  exact hread.bind (fun a => pure (some a)) h hw

/-! ### Lists -/

theorem Faithful.items (hread : Faithful read) : ∀ {ws ns : List Node} {as : List α}, ItemsReadBack ws ns →
    ws.mapM read = .ok as → ns.mapM read = .ok as
  | [], [], _, _, hw => hw
  | w :: ws, n :: ns, as, h, hw => by
    obtain ⟨hitem, hrest⟩ := itemsReadBack_cons.1 h
    rw [List.mapM_cons, bind_eq_ok] at hw ⊢
    obtain ⟨a, ha, hw⟩ := hw
    obtain ⟨as', has, hw⟩ := bind_eq_ok.1 hw
    exact ⟨a, hread hitem ha, bind_eq_ok.2 ⟨as', hread.items hrest has, hw⟩⟩
  | [], _ :: _, _, h, _ | _ :: _, [], _, h, _ => by cases h

theorem Faithful.readList (hread : Faithful read) : Faithful (Node.readList read) := by
  intro w n a h hw
  rcases h.not_other with ⟨s, rfl⟩ | ⟨m, rfl⟩ | ⟨ws, rfl⟩ | ⟨ws, rfl⟩
  case inr.inr.inl =>
    obtain ⟨-, ns, rfl, hitems⟩ := h.seq_inv
    exact hread.items hitems hw
  all_goals cases hw

/-! ### Mappings -/

/-- a step along the entries of a mapping that takes what was written wherever key and value read back -/
def FaithfulEntry {σ : Type} (take : σ → Node × Node → Outcome σ) : Prop :=
  ∀ ⦃j w k n s t⦄, j.ReadBack k → w.ReadBack n → take s (j, w) = .ok t → take s (k, n) = .ok t

theorem FaithfulEntry.foldlM {σ : Type} {take : σ → Node × Node → Outcome σ} (htake : FaithfulEntry take) :
    ∀ {ws ns : List (Node × Node)} {s t : σ}, EntriesReadBack ws ns → ws.foldlM take s = .ok t →
      ns.foldlM take s = .ok t
  | [], [], _, _, _, hw => hw
  | (j, w) :: ws, (k, n) :: ns, s, t, h, hw => by
    obtain ⟨hkey, hvalue, hrest⟩ := entriesReadBack_cons.1 h
    rw [List.foldlM_cons, bind_eq_ok] at hw ⊢
    obtain ⟨u, hu, hw⟩ := hw
    exact ⟨u, htake hkey hvalue hu, htake.foldlM hrest hw⟩
  | [], _ :: _, _, _, h, _ | _ :: _, [], _, _, h, _ => by cases h

theorem mapM_entries {read : Node × Node → Outcome α}
    (hread : ∀ ⦃j w k n a⦄, j.ReadBack k → w.ReadBack n → read (j, w) = .ok a → read (k, n) = .ok a) :
    ∀ {ws ns : List (Node × Node)} {as : List α}, EntriesReadBack ws ns → ws.mapM read = .ok as →
      ns.mapM read = .ok as
  | [], [], _, _, hw => hw
  | (j, w) :: ws, (k, n) :: ns, as, h, hw => by
    obtain ⟨hkey, hvalue, hrest⟩ := entriesReadBack_cons.1 h
    rw [List.mapM_cons, bind_eq_ok] at hw ⊢
    obtain ⟨a, ha, hw⟩ := hw
    obtain ⟨as', has, hw⟩ := bind_eq_ok.1 hw
    exact ⟨a, hread hkey hvalue ha, bind_eq_ok.2 ⟨as', mapM_entries hread hrest has, hw⟩⟩
  | [], _ :: _, _, h, _ | _ :: _, [], _, h, _ => by cases h

theorem faithful_readEntries {read : Node × Node → Outcome α}
    (hread : ∀ ⦃j w k n a⦄, j.ReadBack k → w.ReadBack n → read (j, w) = .ok a → read (k, n) = .ok a) :
    Faithful (Node.readEntries read) := by
  intro w n a h hw
  rcases h.not_other with ⟨s, rfl⟩ | ⟨m, rfl⟩ | ⟨ws, rfl⟩ | ⟨ws, rfl⟩
  case inr.inr.inr =>
    obtain ⟨-, ns, rfl, hentries⟩ := h.map_inv
    exact mapM_entries hread hentries hw
  all_goals cases hw

section Fields

variable {F : Type} [DecidableEq F] {shape : Shape F α}

theorem faithful_takeEntry (hset : ∀ a f, Faithful (shape.set a f)) : FaithfulEntry shape.takeEntry := by
  intro j w k n s t hkey hvalue hw
  simp only [Shape.takeEntry, bind_eq_ok] at hw ⊢
  obtain ⟨name, hname, field, hfield, hw⟩ := hw
  refine ⟨name, faithful_readText hkey hname, field, hfield, ?_⟩
  unfold Shape.take at hw ⊢
  split at hw
  · cases hw
  · rename_i hnew
    rw [if_neg hnew]
    exact (hset s.1 field).bind (fun a => pure (a, field :: s.2)) hvalue hw

/-- fields are read from a mapping that reads back -/
theorem faithful_read (hset : ∀ a f, Faithful (shape.set a f)) (start : α) : Faithful (shape.read .yaml start) := by
  intro w n a h hw
  rcases h.not_other with ⟨s, rfl⟩ | ⟨m, rfl⟩ | ⟨ws, rfl⟩ | ⟨ws, rfl⟩
  case inr.inr.inr =>
    obtain ⟨-, ns, rfl, hentries⟩ := h.map_inv
    exact (faithful_takeEntry hset).foldlM hentries hw
  all_goals cases hw

end Fields

end LoadGen.Document
