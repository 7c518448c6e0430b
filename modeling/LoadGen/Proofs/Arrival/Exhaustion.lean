/-
The end of the arrivals of an open loop. The one who takes arrivals may ask again after the end. Every call that finds
no arrival leaves the arrivals where it stopped looking, and from there the next call finds none either, so the state at
the end is one that further calls leave as it is. That makes the calls the same as those of a taker who stops at the
end, and every arrival among them is due before it.

- `call`: what every call comes to, those after the end too.
- `pop_of_finished`: the state at the end stays.
- `call_eq_nth`: calls after the end change nothing.
- `calls_end`: no arrival at or after the end, and the end is for good.
-/
import LoadGen.Proofs.Arrival.Instants

namespace LoadGen

/-- no arrival comes -/
def NextArrival.isFinished {α S : Type} : NextArrival α S → Bool
  | finished _ => true
  | due .. | unrepresentable => false

theorem NextArrival.isFinished_iff {α S : Type} {next : NextArrival α S} :
    next.isFinished = true ↔ ∃ rest, next = .finished rest := by
  cases next <;> simp [isFinished]

/-! ## The search for the next arrival -/

namespace RampingArrivals

variable {R S : Type} [Add R] [Sub R] [Mul R] [Div R] [RateArithmetic R S]
variable {a last : RampingArrivals R} {stages : List Stage} {rate start before : R}

/-- a search that finds none passes over stages without one, up to where it stops: none remains, or the arrival there is
after the end. From there on it would stop at once. -/
theorem seek_of_finished (h : a.seek stages rate start before = .finished last) :
    last.timeUnit = a.timeUnit ∧ last.seek last.stages last.rate last.start last.before = .finished last := by
  induction stages generalizing rate start before with
  | nil =>
    cases h
    exact ⟨rfl, rfl⟩
  | cons s rest ih =>
    simp only [seek] at h
    split at h
    case h_1 hnone => exact ih h
    case h_2 t hsome =>
      split at h
      case h_1 => cases h
      case h_2 offset hspan =>
        split at h
        case isTrue hover =>
          cases h
          refine ⟨rfl, ?_⟩
          simp only [seek, hsome, hspan, hover, if_true]
        case isFalse => cases h

/-- **The state at the end stays**, whatever the arithmetic. -/
theorem pop_of_finished (h : a.pop = .finished last) : last.pop = .finished last := by
  unfold pop at h ⊢
  split at h
  case isTrue hunit =>
    cases h
    exact if_pos hunit
  case isFalse hunit =>
    obtain ⟨htimeUnit, hseek⟩ := seek_of_finished h
    rw [htimeUnit, if_neg hunit]
    exact hseek

end RampingArrivals

namespace Arrivals

/-- what call `k` for the next arrival comes to. Calls go on after the end, from where the one before stopped; only an
offset that is no span of time ends them -/
def call (a : Arrivals) : Nat → NextArrival Arrivals
  | 0 => a.pop
  | k + 1 => match a.call k with
    | .due _ rest | .finished rest => rest.pop
    | .unrepresentable => .unrepresentable

variable {a last : Arrivals} {j k : Nat}

/-! ## The end -/

theorem pop_of_finished (h : a.pop = .finished last) : last.pop = .finished last := by
  cases a with
  | constant c =>
    simp only [pop] at h
    split at h <;> cases h
    rename_i hnone
    simp only [pop, hnone]
  | ramping b =>
    simp only [pop] at h
    split at h <;> cases h
    rename_i hend
    simp only [pop, RampingArrivals.pop_of_finished hend]

theorem nth_of_finished (h : a.nth k = .finished last) (hkj : k ≤ j) : a.nth j = .finished last := by
  induction hkj with
  | refl => exact h
  | step _ ih => simp only [nth, ih]

/-- an end that is reached is one that stays -/
theorem pop_of_nth_finished (h : a.nth k = .finished last) : last.pop = .finished last := by
  induction k with
  | zero => exact pop_of_finished h
  | succ k ih =>
    cases hk : a.nth k with
    | due offset rest =>
      rw [nth_succ hk] at h
      exact pop_of_finished h
    | finished rest =>
      simp only [nth, hk] at h
      cases h
      exact ih hk
    | unrepresentable => simp only [nth, hk, reduceCtorEq] at h

/-! ## Every call -/

/-- **Calls after the end change nothing**, by induction on the calls. -/
theorem call_eq_nth (a : Arrivals) (k : Nat) : a.call k = a.nth k := by
  induction k with
  | zero => rfl
  | succ k ih =>
    simp only [call, nth, ih]
    cases hk : a.nth k with
    | due offset rest => rfl
    | finished rest => exact pop_of_nth_finished hk
    | unrepresentable => rfl

/-- **No arrival at or after the end, and the end is for good.** Whatever the rates, the time unit, the stages and the
duration of an open loop, every call that comes to an arrival comes to one before the end of the model, and once a call
has come to none, every later call comes to none and leaves all as it is. -/
theorem calls_end {m : ArrivalModel} (h : ofModel? m = some a) :
    (∀ k offset rest, a.call k = .due offset rest → offset < m.totalDuration) ∧
      ∀ k last, a.call k = .finished last → ∀ j, k ≤ j → a.call j = .finished last := by
  constructor
  · intro k offset rest hdue
    rw [call_eq_nth] at hdue
    rw [← total_ofModel? h]
    exact (nth_due hdue).2
  · intro k last hend j hkj
    rw [call_eq_nth] at hend ⊢
    exact nth_of_finished hend hkj

/-- two arrivals in the longest span: no word holds the offset of the second, which is cut but comes before the end, and
after it none comes. One a second for two seconds: the search stops in the only stage, where the second is due at the
end. -/
theorem calls_end_saturated :
    let longest : Duration := ⟨maxNanos, Nat.le_refl _⟩
    let steady : ArrivalModel := .constantArrivalRate 2 longest longest 1 1
    let evenRamp : ArrivalModel := .rampingArrivalRate 1 (.ofSecs 1) [⟨.ofSecs 2, 1⟩] 1 1
    ∃ a b, ofModel? steady = some a ∧ ofModel? evenRamp = some b ∧
      (∃ rest, a.call 1 = .due ⟨Decimal.wordMax, by decide⟩ rest) ∧ Decimal.wordMax < steady.totalDuration.nanos ∧
      (∃ last, ∀ j, 2 ≤ j → a.call j = .finished last) ∧ ∃ last, ∀ j, 1 ≤ j → b.call j = .finished last := by
  intro longest steady evenRamp
  have hsteady : ofModel? steady = some (constant ⟨2, longest, longest, 0⟩) := rfl
  have heven : ofModel? evenRamp = some (ramping (.init 1 (.ofSecs 1) [⟨.ofSecs 2, 1⟩])) := rfl
  have hcut : (constant ⟨2, longest, longest, 0⟩).call 1 =
      .due ⟨Decimal.wordMax, by decide⟩ (constant ⟨2, longest, longest, 2⟩) := by cbv
  have hnone : (constant ⟨2, longest, longest, 0⟩).call 2 = .finished (constant ⟨2, longest, longest, 2⟩) := by cbv
  have hends : ((ramping (.init 1 (.ofSecs 1) [⟨.ofSecs 2, 1⟩])).call 1).isFinished = true := by decide +kernel
  obtain ⟨last, hlast⟩ := NextArrival.isFinished_iff.1 hends
  have hbefore := (calls_end hsteady).1 1 _ _ hcut
  exact ⟨_, _, hsteady, heven, ⟨_, hcut⟩, hbefore, ⟨_, (calls_end hsteady).2 2 _ hnone⟩,
    ⟨last, (calls_end heven).2 1 last hlast⟩⟩

end Arrivals

end LoadGen
