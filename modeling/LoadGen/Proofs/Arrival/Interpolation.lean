/-
The target at an instant as a formula. An instant before the end of a ramp lies in exactly one stage, and what the
target has gone of the way through it is what the instant has gone of its time, rounded down and, where the product is
too large for a signed double word, cut there. Cut or not, it is at most the whole way and never goes back, so a target
lies between those at the two ends of its stage.

- `startOf`, `targetBefore`: when a stage starts, and from which target.
- `segment?_eq`, `existsUnique_stage`: the stage of an instant.
- `gone`, `targetAt_rising`, `targetAt_falling`: the way gone in a stage.
- `targetAt_interpolates`: the target at every instant of every ramp.
-/
import LoadGen.Proofs.Arrival.Targets
import LoadGen.Decimal.Numeral
import Mathlib.Algebra.Group.Nat.Defs
import Mathlib.Data.Nat.Find
import Mathlib.Logic.ExistsUnique

namespace LoadGen.Ramp

open Decimal

/-- when stage `i` starts: after all stages before it -/
def startOf (r : Ramp) (i : Nat) : Duration :=
  stagesDuration (r.stages.take i)

/-- the target that stage `i` starts from: that of the stage before it -/
def targetBefore (r : Ramp) (i : Nat) : Nat :=
  ((r.stages.take i).map Stage.target).getLastD r.start

variable {r : Ramp} {stages : List Stage} {stage : Stage} {s : Segment} {start elapsed later : Duration}
variable {target i j : Nat}

/-! ## The way gone in a stage -/

/-- how much of a way of `n` is behind after `p` of `d` nanoseconds, where products stop at `most` -/
def gone (most n p d : Nat) : Nat :=
  min most (n * p) / max 1 d

theorem gone_le (most n : Nat) {p d : Nat} (hp : p ≤ d) : gone most n p d ≤ n := by
  have hway : n * p ≤ n * max 1 d := Nat.mul_le_mul_left n (by omega)
  have hcut : min most (n * p) ≤ max 1 d * n := by
    rw [Nat.mul_comm (max 1 d)]
    omega
  exact Nat.div_le_of_le_mul hcut

theorem gone_mono {most n p q d : Nat} (h : p ≤ q) : gone most n p d ≤ gone most n q d := by
  have hproduct : n * p ≤ n * q := Nat.mul_le_mul_left n h
  exact Nat.div_le_div_right (by omega)

/-- a product that is not cut is divided as it is -/
theorem gone_eq {most n p d : Nat} (hd : 0 < d) (hproduct : n * p ≤ most) : gone most n p d = n * p / d := by
  rw [gone, Nat.min_eq_right hproduct, Nat.max_eq_right hd]

theorem clampSigned_natCast (n : Nat) : clampSigned n = (min (2 ^ 127 - 1) n : Nat) := by
  rw [clampSigned]
  omega

theorem clampSigned_neg_natCast (n : Nat) : clampSigned (-n) = -(min (2 ^ 127) n : Nat) := by
  rw [clampSigned]
  omega

theorem targetAt_rising (h : s.startTarget ≤ s.endTarget) (elapsed : Duration) :
    Segment.targetAt s elapsed = s.startTarget +
      gone (2 ^ 127 - 1) (s.endTarget - s.startTarget) (elapsed - s.start).nanos s.duration.nanos := by
  have hproduct : ((s.endTarget : Int) - s.startTarget) * (elapsed - s.start).nanos =
      ((s.endTarget - s.startTarget) * (elapsed - s.start).nanos : Nat) := by
    rw [Int.natCast_mul, Int.natCast_sub h]
  have hlength : max (1 : Int) s.duration.nanos = (max 1 s.duration.nanos : Nat) := by omega
  rw [Segment.targetAt, hproduct, clampSigned_natCast, hlength, ← Int.ofNat_tdiv, ← Int.natCast_add,
    Int.toNat_natCast, gone]

theorem targetAt_falling (h : s.endTarget ≤ s.startTarget) (elapsed : Duration) :
    Segment.targetAt s elapsed = s.startTarget -
      gone (2 ^ 127) (s.startTarget - s.endTarget) (elapsed - s.start).nanos s.duration.nanos := by
  have hproduct : ((s.endTarget : Int) - s.startTarget) * (elapsed - s.start).nanos =
      -((s.startTarget - s.endTarget) * (elapsed - s.start).nanos : Nat) := by
    rw [Int.natCast_mul, Int.natCast_sub h, ← Int.neg_mul, Int.neg_sub]
  have hlength : max (1 : Int) s.duration.nanos = (max 1 s.duration.nanos : Nat) := by omega
  rw [Segment.targetAt, hproduct, clampSigned_neg_natCast, hlength, Int.neg_tdiv, ← Int.ofNat_tdiv, gone]
  omega

/-! ## The stage of an instant -/

/-- some stages from `start` on, up to and with stage `i` -/
theorem end_succ (hstage : stages[i]? = some stage) (start : Duration) :
    ((stages.take (i + 1)).map Stage.duration).foldl (· + ·) start =
      ((stages.take i).map Stage.duration).foldl (· + ·) start + stage.duration := by
  rw [List.take_add_one, hstage, List.map_append, List.foldl_append]
  rfl

theorem startOf_succ (hstage : r.stages[i]? = some stage) : r.startOf (i + 1) = r.startOf i + stage.duration :=
  end_succ hstage .zero

theorem startOf_mono (hij : i ≤ j) : r.startOf i ≤ r.startOf j := by
  obtain ⟨more, rfl⟩ := Nat.exists_eq_add_of_le hij
  rw [startOf, startOf, List.take_add, stagesDuration, stagesDuration, Duration.sum, Duration.sum, List.map_append,
    List.foldl_append]
  exact le_end _ _

theorem startOf_length (r : Ramp) : r.startOf r.stages.length = r.totalDuration := by
  rw [startOf, List.take_length, totalDuration]

/-- the stage that is looked for is the one that the instant lies in -/
theorem locate_eq (hstage : stages[i]? = some stage)
    (hfrom : ((stages.take i).map Stage.duration).foldl (· + ·) start ≤ elapsed)
    (hto : elapsed < ((stages.take i).map Stage.duration).foldl (· + ·) start + stage.duration) :
    locate elapsed start target stages =
      some ⟨((stages.take i).map Stage.duration).foldl (· + ·) start, stage.duration,
        ((stages.take i).map Stage.target).getLastD target, stage.target⟩ := by
  induction stages generalizing start target i with
  | nil => cases hstage
  | cons first rest ih =>
    cases i with
    | zero =>
      cases hstage
      cases rest with
      | nil => rfl
      | cons next rest => exact if_pos hto
    | succ i =>
      cases rest with
      | nil => cases hstage
      | cons next rest =>
        have hpast : ¬elapsed < start + first.duration := fun hlt =>
          Nat.lt_irrefl _ (Nat.lt_of_lt_of_le hlt (Nat.le_trans (le_end _ _) hfrom))
        have hlast : ((((first :: next :: rest).take (i + 1)).map Stage.target).getLastD target) =
            (((next :: rest).take i).map Stage.target).getLastD first.target := List.getLastD_cons
        rw [hlast]
        exact (if_neg hpast).trans (ih hstage hfrom hto)

theorem segment?_eq (hstage : r.stages[i]? = some stage) (hfrom : r.startOf i ≤ elapsed)
    (hto : elapsed < r.startOf (i + 1)) :
    r.segment? elapsed = some ⟨r.startOf i, stage.duration, r.targetBefore i, stage.target⟩ := by
  rw [startOf_succ hstage] at hto
  exact locate_eq hstage hfrom hto

/-- **An instant before the end lies in exactly one stage.** -/
theorem existsUnique_stage (hbefore : elapsed < r.totalDuration) :
    ∃! i, i < r.stages.length ∧ r.startOf i ≤ elapsed ∧ elapsed < r.startOf (i + 1) := by
  have hend : ∃ n, elapsed < r.startOf n := ⟨r.stages.length, by rwa [startOf_length]⟩
  -- the stage before the first that starts too late
  obtain ⟨i, hi⟩ : ∃ i, Nat.find hend = i + 1 := by
    refine Nat.exists_eq_succ_of_ne_zero fun hzero => ?_
    have hstart := Nat.find_spec hend
    rw [hzero] at hstart
    exact Nat.not_lt_zero _ hstart
  have hto : elapsed < r.startOf (i + 1) := hi ▸ Nat.find_spec hend
  have hfrom : r.startOf i ≤ elapsed := Nat.le_of_not_lt (Nat.find_min hend (by omega))
  have hlength : Nat.find hend ≤ r.stages.length := Nat.find_min' hend (by rwa [startOf_length])
  refine ⟨i, ⟨by omega, hfrom, hto⟩, ?_⟩
  rintro j ⟨-, hjfrom, hjto⟩
  have hij : ¬i + 1 ≤ j := fun h => Nat.lt_irrefl _ (Nat.lt_of_lt_of_le hto (Nat.le_trans (startOf_mono h) hjfrom))
  have hji : ¬j + 1 ≤ i := fun h => Nat.lt_irrefl _ (Nat.lt_of_lt_of_le hjto (Nat.le_trans (startOf_mono h) hfrom))
  omega

/-! ## Targets -/

/-- a stage takes time if an instant lies in it, and the instant is less than that into it -/
theorem passed_lt (hstage : r.stages[i]? = some stage) (hfrom : r.startOf i ≤ elapsed)
    (hto : elapsed < r.startOf (i + 1)) : (elapsed - r.startOf i).nanos < stage.duration.nanos := by
  rw [startOf_succ hstage, Duration.lt_iff, Duration.nanos_add] at hto
  rw [Duration.le_iff] at hfrom
  rw [Duration.nanos_sub]
  omega

/-- the target in a stage that the instant lies in -/
theorem targetAt_eq (hstage : r.stages[i]? = some stage) (hfrom : r.startOf i ≤ elapsed)
    (hto : elapsed < r.startOf (i + 1)) :
    r.targetAt elapsed =
      min wordMax (Segment.targetAt ⟨r.startOf i, stage.duration, r.targetBefore i, stage.target⟩ elapsed) := by
  have hlive : r.isDone elapsed = false := by
    have hlength : i + 1 ≤ r.stages.length := (List.getElem?_eq_some_iff.1 hstage).1
    have hend : r.startOf (i + 1) ≤ r.totalDuration := startOf_length r ▸ startOf_mono hlength
    exact decide_eq_false (Nat.not_le.2 (Nat.lt_of_lt_of_le hto hend))
  have hlasts : stage.duration.isZero = false :=
    decide_eq_false (Nat.ne_of_gt (Nat.zero_lt_of_lt (passed_lt hstage hfrom hto)))
  simp only [targetAt, segment?_eq hstage hfrom hto, hlive, hlasts, Bool.false_eq_true, or_self, if_false, wordMax]

/-- the targets of a ramp are words -/
structure InWords (r : Ramp) : Prop where
  start : r.start ≤ wordMax
  stages : ∀ stage ∈ r.stages, stage.target ≤ wordMax

/-- where a stage starts from is where the ramp does, or where another stage leads to -/
theorem targetBefore_cases (r : Ramp) (i : Nat) :
    r.targetBefore i = r.start ∨ ∃ stage ∈ r.stages, r.targetBefore i = stage.target := by
  have hmem : r.targetBefore i ∈ r.start :: (r.stages.take i).map Stage.target := List.getLastD_mem_cons
  rcases List.mem_cons.1 hmem with h | h
  · exact .inl h
  · obtain ⟨stage, hmem, heq⟩ := List.mem_map.1 h
    exact .inr ⟨stage, List.mem_of_mem_take hmem, heq.symm⟩

theorem InWords.targetBefore_le (h : r.InWords) (i : Nat) : r.targetBefore i ≤ wordMax := by
  rcases r.targetBefore_cases i with heq | ⟨stage, hmem, heq⟩
  · exact heq ▸ h.start
  · exact heq ▸ h.stages stage hmem

theorem targetBefore_le_peakTarget (r : Ramp) (i : Nat) : r.targetBefore i ≤ peakTarget r.start r.stages := by
  rcases r.targetBefore_cases i with heq | ⟨stage, hmem, heq⟩
  · exact heq ▸ le_peakTarget r.start r.stages
  · exact heq ▸ target_le_peakTarget hmem r.start

/-- on the way up a word holds the target, so nothing cuts it but the product -/
theorem targetAt_of_le (h : r.InWords) (hstage : r.stages[i]? = some stage) (hfrom : r.startOf i ≤ elapsed)
    (hto : elapsed < r.startOf (i + 1)) (hup : r.targetBefore i ≤ stage.target) :
    r.targetAt elapsed = r.targetBefore i + gone (2 ^ 127 - 1) (stage.target - r.targetBefore i)
      (elapsed - r.startOf i).nanos stage.duration.nanos := by
  have hgone : gone (2 ^ 127 - 1) (stage.target - r.targetBefore i) (elapsed - r.startOf i).nanos
      stage.duration.nanos ≤ stage.target - r.targetBefore i :=
    gone_le _ _ (Nat.le_of_lt (passed_lt hstage hfrom hto))
  have hword : r.targetBefore i + gone (2 ^ 127 - 1) (stage.target - r.targetBefore i) (elapsed - r.startOf i).nanos
      stage.duration.nanos ≤ wordMax := by
    have hend := h.stages stage (List.mem_of_getElem? hstage)
    omega
  rw [targetAt_eq hstage hfrom hto, targetAt_rising hup]
  exact Nat.min_eq_right hword

theorem targetAt_of_ge (h : r.InWords) (hstage : r.stages[i]? = some stage) (hfrom : r.startOf i ≤ elapsed)
    (hto : elapsed < r.startOf (i + 1)) (hdown : stage.target ≤ r.targetBefore i) :
    r.targetAt elapsed = r.targetBefore i - gone (2 ^ 127) (r.targetBefore i - stage.target)
      (elapsed - r.startOf i).nanos stage.duration.nanos := by
  rw [targetAt_eq hstage hfrom hto, targetAt_falling hdown]
  exact Nat.min_eq_right (Nat.le_trans (Nat.sub_le _ _) (h.targetBefore_le i))

/-- what a ramp does in a stage from target `s` to target `e`, which takes `d` nanoseconds and lasts until `close`, at
an instant `x` nanoseconds into it -/
structure Interpolates (r : Ramp) (elapsed close : Duration) (s e x d : Nat) : Prop where
  between : min s e ≤ r.targetAt elapsed ∧ r.targetAt elapsed ≤ max s e
  rises : s ≤ e → ∀ later, elapsed ≤ later → later < close → r.targetAt elapsed ≤ r.targetAt later
  falls : e ≤ s → ∀ later, elapsed ≤ later → later < close → r.targetAt later ≤ r.targetAt elapsed
  roundsDown : s ≤ e → (e - s) * x < 2 ^ 127 → r.targetAt elapsed = s + (e - s) * x / d
  roundsUp : e < s → (s - e) * x < 2 ^ 127 → r.targetAt elapsed = s - (s - e) * x / d

theorem interpolates (h : r.InWords) (hstage : r.stages[i]? = some stage) (hfrom : r.startOf i ≤ elapsed)
    (hto : elapsed < r.startOf (i + 1)) :
    r.Interpolates elapsed (r.startOf (i + 1)) (r.targetBefore i) stage.target (elapsed - r.startOf i).nanos
      stage.duration.nanos := by
  have hpassed := passed_lt hstage hfrom hto
  have hlasts : 0 < stage.duration.nanos := Nat.zero_lt_of_lt hpassed
  have hlonger {later : Duration} (hle : elapsed ≤ later) :
      (elapsed - r.startOf i).nanos ≤ (later - r.startOf i).nanos := Nat.sub_le_sub_right hle _
  constructor
  case between =>
    rcases Nat.le_total (r.targetBefore i) stage.target with hup | hdown
    · have hgone := gone_le (2 ^ 127 - 1) (stage.target - r.targetBefore i) (Nat.le_of_lt hpassed)
      rw [targetAt_of_le h hstage hfrom hto hup]
      omega
    · have hgone := gone_le (2 ^ 127) (r.targetBefore i - stage.target) (Nat.le_of_lt hpassed)
      rw [targetAt_of_ge h hstage hfrom hto hdown]
      omega
  case rises =>
    intro hup later hle hclose
    rw [targetAt_of_le h hstage hfrom hto hup, targetAt_of_le h hstage (Nat.le_trans hfrom hle) hclose hup]
    exact Nat.add_le_add_left (gone_mono (hlonger hle)) _
  case falls =>
    intro hdown later hle hclose
    rw [targetAt_of_ge h hstage hfrom hto hdown, targetAt_of_ge h hstage (Nat.le_trans hfrom hle) hclose hdown]
    exact Nat.sub_le_sub_left (gone_mono (hlonger hle)) _
  case roundsDown =>
    intro hup hproduct
    rw [targetAt_of_le h hstage hfrom hto hup, gone_eq hlasts (Nat.le_sub_one_of_lt hproduct)]
  case roundsUp =>
    intro hdown hproduct
    rw [targetAt_of_ge h hstage hfrom hto (Nat.le_of_lt hdown), gone_eq hlasts (Nat.le_of_lt hproduct)]

/-- after the end of some stages the stage that is looked for is the last one -/
theorem locate_of_end (start : Duration) (target : Nat) (hstages : stages ≠ [])
    (hend : (stages.map Stage.duration).foldl (· + ·) start ≤ elapsed) :
    ∃ s, locate elapsed start target stages = some s ∧ s.endTarget = (stages.map Stage.target).getLastD target := by
  induction stages generalizing start target with
  | nil => exact absurd rfl hstages
  | cons first rest ih =>
    cases rest with
    | nil => exact ⟨_, rfl, rfl⟩
    | cons next rest =>
      have hpast : ¬elapsed < start + first.duration := fun hlt =>
        Nat.lt_irrefl _ (Nat.lt_of_lt_of_le hlt (Nat.le_trans (le_end _ (next :: rest)) hend))
      obtain ⟨s, hs, htarget⟩ := ih (start + first.duration) first.target (by simp) hend
      have hlast : ((first :: next :: rest).map Stage.target).getLastD target =
          ((next :: rest).map Stage.target).getLastD first.target := List.getLastD_cons
      exact ⟨s, (if_neg hpast).trans hs, htarget.trans hlast.symm⟩

/-- from its end on a ramp stays at its last target -/
theorem targetAt_of_isDone (hend : r.totalDuration ≤ elapsed) :
    r.targetAt elapsed = r.targetBefore r.stages.length := by
  have hdone : r.isDone elapsed = true := decide_eq_true hend
  rw [targetBefore, List.take_length, targetAt]
  by_cases hstages : r.stages = []
  · simp [segment?, hstages, locate]
  · obtain ⟨s, hs, htarget⟩ := locate_of_end .zero r.start hstages hend
    rw [segment?, hs, ← htarget]
    simp only [hdone, true_or, if_true]

/-- **Targets are interpolated.** An instant before the end lies in one stage of the ramp; there the target goes from
that of the stage before to its own, never back, and is the share of the way for the time in it, rounded towards where
the stage starts. From the end on it is the last target, so it is never more than the slots that the model asks for. -/
theorem targetAt_interpolates (h : r.InWords) (elapsed : Duration) :
    (elapsed < r.totalDuration →
      ∃! i, i < r.stages.length ∧ r.startOf i ≤ elapsed ∧ elapsed < r.startOf (i + 1)) ∧
    (∀ i stage, r.stages[i]? = some stage → r.startOf i ≤ elapsed → elapsed < r.startOf (i + 1) →
      r.Interpolates elapsed (r.startOf (i + 1)) (r.targetBefore i) stage.target (elapsed - r.startOf i).nanos
        stage.duration.nanos) ∧
    (r.totalDuration ≤ elapsed → r.targetAt elapsed = r.targetBefore r.stages.length) ∧
    r.targetAt elapsed ≤ (ArrivalModel.rampingVus r.start r.stages).poolBounds.2 := by
  refine ⟨existsUnique_stage, fun i stage => interpolates h, targetAt_of_isDone, ?_⟩
  rcases Nat.lt_or_ge elapsed.nanos r.totalDuration.nanos with hlive | hdone
  · obtain ⟨i, ⟨hi, hfrom, hto⟩, -⟩ := existsUnique_stage hlive
    have hstage : r.stages[i]? = some r.stages[i] := List.getElem?_eq_getElem hi
    have hmost := (interpolates h hstage hfrom hto).between.2
    have htarget := target_le_peakTarget (List.getElem_mem hi) r.start
    exact Nat.le_trans hmost (Nat.max_le.2 ⟨r.targetBefore_le_peakTarget i, htarget⟩)
  · rw [targetAt_of_isDone hdone]
    exact r.targetBefore_le_peakTarget _

/-- a climb to the largest target in the longest stage, a second before its end: the product is cut, and the stage that
comes after it has no time left -/
theorem targetAt_interpolates_cut :
    let r : Ramp := ⟨0, [⟨⟨maxNanos, Nat.le_refl _⟩, wordMax⟩, ⟨.ofSecs 10, 0⟩]⟩
    let elapsed : Duration := .ofSecs wordMax
    r.InWords ∧ (∃! i, i < r.stages.length ∧ r.startOf i ≤ elapsed ∧ elapsed < r.startOf (i + 1)) ∧
      r.targetAt elapsed = 9223372036 ∧
      r.targetAt elapsed ≤ (ArrivalModel.rampingVus r.start r.stages).poolBounds.2 := by
  intro r elapsed
  have hwords : r.InWords := ⟨by decide, by decide⟩
  obtain ⟨hstage, -, -, hpeak⟩ := targetAt_interpolates hwords elapsed
  exact ⟨hwords, hstage (by decide), by decide, hpeak⟩

end LoadGen.Ramp
