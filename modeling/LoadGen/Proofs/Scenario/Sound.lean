/-
What the checks of a scenario establish about its arrival model. Each model has checks of its own, on its own fields;
the parts of a run read them through what all models have in common: their slots, their stages and how long they last.

- `stages`, `timeUnit?`, `rate?`: what the models have of these.
- `ArrivalModel.Sound`: all that a run takes for granted of its model.
- `check_eq_ok_iff`: the checks pass exactly for a sound model.
- `Ramp.exists_segment?`: on a ramp whose stages take time every instant lies in such a stage.
-/
import LoadGen.Proofs.Arrival.Targets
import LoadGen.Proofs.Scenario.Checks

namespace LoadGen

/-! ## Stages -/

namespace Duration

theorem pos_of_isZero {d : Duration} (h : d.isZero = false) : 0 < d.nanos :=
  Nat.pos_of_ne_zero (of_decide_eq_false h)

theorem isZero_of_pos {d : Duration} (h : 0 < d.nanos) : d.isZero = false :=
  decide_eq_false (Nat.ne_of_gt h)

end Duration

section

variable {stages : List Stage}

/-- some stages, each of which takes time, take time together -/
theorem stagesDuration_pos (some : stages ≠ []) (last : ∀ stage ∈ stages, stage.duration.isZero = false) :
    0 < (stagesDuration stages).nanos := by
  cases stages with
  | nil => exact absurd rfl some
  | cons stage rest =>
    have hstage := Duration.pos_of_isZero (last stage List.mem_cons_self)
    have hle := Ramp.le_end (.zero + stage.duration) rest
    have hmax := stage.duration.le_max
    have hfirst : (Duration.zero + stage.duration).nanos = min (0 + stage.duration.nanos) maxNanos := rfl
    show 0 < ((rest.map Stage.duration).foldl (· + ·) (Duration.zero + stage.duration)).nanos
    rw [Duration.le_iff] at hle
    omega

/-- without stages no time is taken -/
theorem ne_nil_of_stagesDuration_pos (h : 0 < (stagesDuration stages).nanos) : stages ≠ [] := by
  rintro rfl
  exact absurd h (Nat.lt_irrefl 0)

theorem checkStages_eq_ok_iff :
    checkStages stages = .ok () ↔ stages ≠ [] ∧ ∀ stage ∈ stages, stage.duration.isZero = false := by
  unfold checkStages
  rw [guard_eq_ok, List.isEmpty_iff]
  refine and_congr Iff.rfl ?_
  rw [← List.findIdx?_eq_none_iff]
  cases stages.findIdx? fun stage => stage.duration.isZero with
  | none => exact iff_of_true rfl rfl
  | some i => exact iff_of_false (fun h => by cases h) fun h => by cases h

theorem checkBounds_eq_ok_iff {preAllocated maxVus : Nat} :
    checkBounds preAllocated maxVus = .ok () ↔ 1 ≤ maxVus ∧ preAllocated ≤ maxVus := by
  unfold checkBounds
  rw [guard_eq_ok, not_or, Nat.not_lt, Nat.one_le_iff_ne_zero]
  exact and_iff_left rfl

end

/-! ## Sound models -/

namespace ArrivalModel

/-- the stages of a model that has some -/
def stages : ArrivalModel → List Stage
  | rampingArrivalRate _ _ stages _ _ | rampingVus _ stages => stages
  | constantArrivalRate .. | constantVus .. => []

/-- the time unit of an open-loop model -/
def timeUnit? : ArrivalModel → Option Duration
  | constantArrivalRate _ timeUnit _ _ _ | rampingArrivalRate _ timeUnit _ _ _ => some timeUnit
  | constantVus .. | rampingVus .. => none

/-- the rate of a model with a constant one -/
def rate? : ArrivalModel → Option Nat
  | constantArrivalRate rate _ _ _ _ => some rate
  | rampingArrivalRate .. | constantVus .. | rampingVus .. => none

/-- all that a run takes for granted of its model -/
structure Sound (m : ArrivalModel) : Prop where
  slots : 1 ≤ m.poolBounds.2
  warm : m.poolBounds.1 ≤ m.poolBounds.2
  lasts : 0 < m.totalDuration.nanos
  stages : ∀ stage ∈ m.stages, stage.duration.isZero = false
  timeUnit : ∀ unit ∈ m.timeUnit?, unit.isZero = false
  rate : ∀ rate ∈ m.rate?, 1 ≤ rate

variable {m : ArrivalModel}

/-- a model that passes its checks is sound, whichever it is -/
theorem sound_of_check (h : m.check = .ok ()) : m.Sound := by
  have hnone {α : Type} {P : α → Prop} : ∀ a ∈ (none : Option α), P a := fun _ ha => by cases ha
  have hsome {α : Type} {P : α → Prop} {b : α} (hb : P b) : ∀ a ∈ some b, P a := by
    intro a ha
    cases ha
    exact hb
  cases m with
  | constantArrivalRate rate timeUnit duration preAllocated maxVus =>
    simp only [check, guard_eq_ok, checkBounds_eq_ok_iff, Bool.not_eq_true] at h
    obtain ⟨hrate, hunit, hduration, hslots, hwarm⟩ := h
    exact ⟨hslots, hwarm, Duration.pos_of_isZero hduration, fun _ hs => (by cases hs), hsome hunit,
      hsome (Nat.one_le_iff_ne_zero.2 hrate)⟩
  | rampingArrivalRate startRate timeUnit stages preAllocated maxVus =>
    simp only [check, guard_eq_ok, bind_eq_ok, checkBounds_eq_ok_iff, Bool.not_eq_true] at h
    obtain ⟨hunit, _, hstages, hslots, hwarm⟩ := h
    obtain ⟨hne, hlast⟩ := checkStages_eq_ok_iff.1 hstages
    exact ⟨hslots, hwarm, stagesDuration_pos hne hlast, hlast, hsome hunit, hnone⟩
  | constantVus vus duration =>
    simp only [check, guard_eq_ok, Bool.not_eq_true, and_true] at h
    obtain ⟨hvus, hduration⟩ := h
    exact ⟨Nat.one_le_iff_ne_zero.2 hvus, Nat.le_refl _, Duration.pos_of_isZero hduration, fun _ hs => (by cases hs),
      hnone, hnone⟩
  | rampingVus startVus stages =>
    simp only [check, guard_eq_ok, bind_eq_ok, and_true] at h
    obtain ⟨_, hstages, hpeak⟩ := h
    obtain ⟨hne, hlast⟩ := checkStages_eq_ok_iff.1 hstages
    exact ⟨Nat.one_le_iff_ne_zero.2 hpeak, le_peakTarget startVus stages, stagesDuration_pos hne hlast, hlast, hnone,
      hnone⟩

/-- **The checks of a model pass exactly if it is sound.** -/
theorem check_eq_ok_iff : m.check = .ok () ↔ m.Sound := by
  refine ⟨sound_of_check, fun h => ?_⟩
  cases m with
  | constantArrivalRate rate timeUnit duration preAllocated maxVus =>
    simp only [check, guard_eq_ok, checkBounds_eq_ok_iff, Bool.not_eq_true]
    exact ⟨Nat.one_le_iff_ne_zero.1 (h.rate rate rfl), h.timeUnit timeUnit rfl, Duration.isZero_of_pos h.lasts,
      h.slots, h.warm⟩
  | rampingArrivalRate startRate timeUnit stages preAllocated maxVus =>
    simp only [check, guard_eq_ok, bind_eq_ok, checkBounds_eq_ok_iff, Bool.not_eq_true]
    exact ⟨h.timeUnit timeUnit rfl, (),
      checkStages_eq_ok_iff.2 ⟨ne_nil_of_stagesDuration_pos h.lasts, h.stages⟩, h.slots, h.warm⟩
  | constantVus vus duration =>
    simp only [check, guard_eq_ok, Bool.not_eq_true, and_true]
    exact ⟨Nat.one_le_iff_ne_zero.1 h.slots, Duration.isZero_of_pos h.lasts⟩
  | rampingVus startVus stages =>
    simp only [check, guard_eq_ok, bind_eq_ok, and_true]
    exact ⟨(), checkStages_eq_ok_iff.2 ⟨ne_nil_of_stagesDuration_pos h.lasts, h.stages⟩,
      Nat.one_le_iff_ne_zero.1 h.slots⟩

end ArrivalModel

/-- a scenario that passes its checks has a sound model -/
theorem Scenario.sound_of_check {s : Scenario} (h : s.check = .ok ()) : s.model.Sound :=
  ArrivalModel.sound_of_check (check_eq_ok_iff.1 h).1

/-! ## Ramps -/

namespace Ramp

/-- every instant lies in one of the stages, if there are any -/
theorem exists_locate {stages : List Stage} (elapsed start : Duration) (target : Nat) (some : stages ≠ []) :
    ∃ segment, locate elapsed start target stages = .some segment ∧
      ∃ stage ∈ stages, segment.duration = stage.duration ∧ segment.endTarget = stage.target := by
  induction stages generalizing start target with
  | nil => exact absurd rfl some
  | cons stage rest ih =>
    cases rest with
    | nil => exact ⟨_, rfl, stage, List.mem_cons_self, rfl, rfl⟩
    | cons next rest =>
      simp only [locate]
      split
      · exact ⟨_, rfl, stage, List.mem_cons_self, rfl, rfl⟩
      · obtain ⟨segment, hlocate, found, hmem, hsame⟩ := ih (start + stage.duration) stage.target (by simp)
        exact ⟨segment, hlocate, found, List.mem_cons_of_mem _ hmem, hsame⟩

/-- **The guards of a target are for other ramps**: where all stages take time, the target at an instant is the end of
its stage once the ramp is over, and before that the one that the stage comes to. -/
theorem exists_segment? {r : Ramp} (some : r.stages ≠ []) (last : ∀ stage ∈ r.stages, stage.duration.isZero = false)
    (elapsed : Duration) : ∃ segment, r.segment? elapsed = .some segment ∧ segment.duration.isZero = false ∧
      r.targetAt elapsed = if r.isDone elapsed then segment.endTarget
        else min 18446744073709551615 (Segment.targetAt segment elapsed) := by
  obtain ⟨segment, hsegment, stage, hmem, hduration, -⟩ := exists_locate elapsed .zero r.start some
  have hlast : segment.duration.isZero = false := by
    rw [hduration]
    exact last stage hmem
  refine ⟨segment, hsegment, hlast, ?_⟩
  unfold targetAt
  rw [show r.segment? elapsed = .some segment from hsegment]
  simp only [hlast, Bool.false_eq_true, or_false]

end Ramp

end LoadGen
