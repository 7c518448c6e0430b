/-
The outcomes that a run still owes. A request that is out has an outcome to come, at an instant that is known.

- `Run.awaited`: the outcomes to come before an instant from the requests that are out.
- `Within`: a list is part of another, and where exchanges are in turn it is how that one starts.
- `work_awaited`: what a worker emits was awaited of it, and before all else that is.
-/
import Mathlib.Data.List.Perm.Subperm
import LoadGen.Proofs.Run.Regular

namespace LoadGen

open Metrics

/-! ## Parts and starts of a list -/

/-- `l` is part of `l'` and, where `p` holds, how it starts -/
structure Within {α : Type} (p : Prop) (l l' : List α) : Prop where
  part : l.Subperm l'
  start : p → l <+: l'

namespace Within

variable {α : Type} {p : Prop} {k l l' : List α}

theorem refl (p : Prop) (l : List α) : Within p l l :=
  ⟨.refl l, fun _ => List.prefix_refl l⟩

theorem nil (p : Prop) (l : List α) : Within p [] l :=
  ⟨List.nil_subperm, fun _ => List.nil_prefix⟩

theorem trans (h : Within p k l) (h' : Within p l l') : Within p k l' :=
  ⟨h.part.trans h'.part, fun hp => (h.start hp).trans (h'.start hp)⟩

theorem append (h : Within p l l') (k : List α) : Within p (k ++ l) (k ++ l') :=
  ⟨(List.subperm_append_left k).2 h.part, fun hp => (List.prefix_append_right_inj k).2 (h.start hp)⟩

theorem of_isPrefix (h : l <+: l') : Within p l l' :=
  ⟨h.sublist.subperm, fun _ => h⟩

/-- two lists that hold the same, and where `p` holds are the same -/
theorem of_perm (h : l.Perm l') (heq : p → l = l') : Within p l l' :=
  ⟨h.subperm, fun hp => heq hp ▸ List.prefix_refl l⟩

theorem congr {q : Prop} (h : Within q l l') (hq : q ↔ p) : Within p l l' :=
  ⟨h.part, fun hp => h.start (hq.2 hp)⟩

end Within

/-! ## What is awaited -/

/-- the outcome that a worker is to emit before an instant -/
def Worker.promise? (instant : Duration) (w : Worker) : Option Outcome :=
  match w.activity with
  | .requesting request startedAt deadline x =>
    if deadline < instant then
      some (Web.classify request ⟨w.dispatch.seq, w.dispatch.slot, startedAt, deadline - startedAt⟩ x)
    else none
  | .fresh | .thinking _ => none

/-- the outcomes to come before an instant from the requests that are out -/
def Run.awaited (instant : Duration) (r : Run) : List Outcome :=
  r.workers.filterMap (Worker.promise? instant)

/-- the exchanges of a run are in turn -/
def Run.IsInTurn (r : Run) : Prop :=
  r.scenario.IsInTurn r.peer

/-- the exchanges of a run take no time -/
def Run.IsInstant (r : Run) : Prop :=
  r.scenario.IsInstant r.peer

namespace Run

variable {r : Run} {w : Worker} {before after : List Worker} {instant : Duration} {o : Option Outcome}
  {rest : Option Worker}

theorem promise?_eq_none (h : ∀ d ∈ w.due?, instant ≤ d) : w.promise? instant = none := by
  unfold Worker.promise?
  unfold Worker.due? at h
  cases ha : w.activity with
  | fresh | thinking => rfl
  | requesting request startedAt deadline x =>
    rw [ha] at h
    exact if_neg (Nat.not_lt.2 (h deadline rfl))

theorem filterMap_promise?_eq_nil {workers : List Worker} (h : ∀ w ∈ workers, ∀ d ∈ w.due?, instant ≤ d) :
    workers.filterMap (Worker.promise? instant) = [] :=
  List.filterMap_eq_nil_iff.2 fun w hw => promise?_eq_none (h w hw)

/-- an instant that has come is not waited for -/
theorem awaited_of_le (h : r.Regular) (hlate : instant ≤ r.now) : r.awaited instant = [] := by
  exact filterMap_promise?_eq_nil fun w hw d hd =>
    Nat.le_trans hlate ((h.times w hw).le_timer (Worker.timer?_of_due? hd))

theorem awaited_split (rest : Option Worker) (hsplit : r.workers = before ++ rest.toList ++ after) : r.awaited instant =
    before.filterMap (Worker.promise? instant) ++ (rest.bind (Worker.promise? instant)).toList ++
      after.filterMap (Worker.promise? instant) := by
  rw [awaited, hsplit, List.filterMap_append, List.filterMap_append]
  cases rest with
  | none => rfl
  | some v => cases hv : v.promise? instant <;> simp [hv]

theorem promise?_of_isFresh (h : w.isFresh = true) : w.promise? instant = none :=
  promise?_eq_none fun d hd => by rw [Worker.due?_of_isFresh h] at hd; cases hd

/-- behind a worker that has not begun nothing is awaited -/
theorem filterMap_after (h : r.Regular) (hsplit : r.workers = before ++ w :: after) (hfresh : w.isFresh = true) :
    after.filterMap (Worker.promise? instant) = [] := by
  have hbegun := h.begun
  rw [hsplit] at hbegun
  have hafter := (List.pairwise_cons.1 (List.pairwise_append.1 hbegun).2.1).1
  exact List.filterMap_eq_nil_iff.2 fun a ha => promise?_of_isFresh (hafter a ha hfresh)

/-- before a worker whose exchange has ended nothing is awaited, if exchanges are in turn -/
theorem filterMap_before (h : r.Regular) (hturn : r.IsInTurn) (hsplit : r.workers = before ++ w :: after)
    (hwaiting : ∀ v ∈ before, v.isReady r.now = false) {deadline : Duration} (hdue : w.due? = some deadline)
    (hlate : deadline ≤ r.now) (instant : Duration) : before.filterMap (Worker.promise? instant) = [] := by
  have hends := h.inTurn hturn
  rw [hsplit] at hends
  refine List.filterMap_eq_nil_iff.2 fun b hb => promise?_eq_none fun d hd => ?_
  obtain ⟨timer, htimer, hahead⟩ := Worker.timer?_of_isReady (hwaiting b hb)
  have hle := (List.pairwise_append.1 hends).2.2 b hb w List.mem_cons_self d hd deadline hdue
  have heq : timer = d := Option.some.inj (htimer.symm.trans (Worker.timer?_of_due? hd))
  exact absurd (Nat.le_trans hle hlate) (Nat.not_le.2 (heq ▸ hahead))

/-- the outcome of an exchange that ends now is the one that was awaited -/
theorem promise?_of_requesting (h : r.Times w) {request : Web.RequestSpec} {startedAt deadline : Duration}
    {x : Web.Exchange} (hw : w.activity = .requesting request startedAt deadline x) (hlate : deadline ≤ r.now)
    (hinstant : r.now < instant) : w.promise? instant = some (r.outcome w request startedAt x) := by
  unfold Times at h
  rw [hw] at h
  have hnow : deadline = r.now := Duration.eq_of_nanos (Nat.le_antisymm hlate h.2.2.1)
  unfold Worker.promise?
  rw [hw]
  subst hnow
  exact if_pos hinstant

/-- **What a worker does was awaited.** What is awaited before a worker goes on is part of what it emits and what is
awaited then; and if it has begun, before an instant that is still to come, nothing is added to it. -/
theorem work_awaited (h : r.Regular) (hsplit : r.workers = before ++ w :: after)
    (hwaiting : ∀ v ∈ before, v.isReady r.now = false) (hready : w.isReady r.now = true) (instant : Duration) :
    let now := (r.outcome? (.work before.length)).toList ++ (r.work before.length).awaited instant
    Within r.IsInTurn (r.awaited instant) now ∧
      (w.isFresh = false → r.now < instant → Within r.IsInTurn now (r.awaited instant)) := by
  obtain ⟨rest, hmoves, hworkers⟩ := work_moves hsplit hready
  have hmem : w ∈ r.workers := by
    rw [hsplit]
    exact List.mem_append_right _ List.mem_cons_self
  have hbefore : r.awaited instant = before.filterMap (Worker.promise? instant) ++ (w.promise? instant).toList ++
      after.filterMap (Worker.promise? instant) :=
    awaited_split (some w) (by rw [hsplit, Option.toList_some, List.append_assoc]; rfl)
  simp only [awaited_split rest hworkers]
  generalize r.outcome? (.work before.length) = o at hmoves ⊢
  cases hmoves with
  | send fresh request found =>
    have hfresh := Worker.isFresh_iff.2 fresh
    rw [hbefore, promise?_of_isFresh hfresh, filterMap_after h hsplit hfresh]
    refine ⟨.of_isPrefix ?_, fun hbegun => ?_⟩
    · simp
    · rw [hfresh] at hbegun; cases hbegun
  | lose fresh =>
    have hfresh := Worker.isFresh_iff.2 fresh
    rw [hbefore, promise?_of_isFresh hfresh]
    refine ⟨.refl _ _, fun hbegun => ?_⟩
    rw [hfresh] at hbegun; cases hbegun
  | leave deadline activity =>
    have hnone : w.promise? instant = none := promise?_eq_none fun d hd => by
      rw [Worker.due?, activity] at hd
      cases hd
    rw [hbefore, hnone]
    exact ⟨.refl _ _, fun _ _ => .refl _ _⟩
  | settle request startedAt deadline x activity late pause =>
    have hpause : (pause.map fun d => { w with activity := .thinking (r.now + d) }).bind (Worker.promise? instant) =
        none := by
      cases pause <;> rfl
    rw [hpause]
    rcases Nat.lt_or_ge r.now.nanos instant.nanos with hinstant | hinstant
    · -- its outcome moves to the front, where it is already if exchanges are in turn
      have hperm (front back : List Outcome) (out : Outcome) :
          (front ++ (some out).toList ++ back).Perm
            ((some out).toList ++ (front ++ (none : Option Outcome).toList ++ back)) := by
        simp
      have hdue : w.due? = some deadline := by rw [Worker.due?, activity]
      have hfront (hturn : r.IsInTurn) := filterMap_before h hturn hsplit hwaiting hdue late instant
      rw [hbefore, promise?_of_requesting (h.times w hmem) activity late hinstant]
      refine ⟨.of_perm (hperm _ _ _) fun hturn => ?_, fun _ _ => .of_perm (hperm _ _ _).symm fun hturn => ?_⟩
      · rw [hfront hturn]
        simp
      · rw [hfront hturn]
        simp
    · rw [awaited_of_le h hinstant]
      exact ⟨.nil _ _, fun _ hlt => absurd hinstant (Nat.not_le.2 hlt)⟩

end Run

end LoadGen
