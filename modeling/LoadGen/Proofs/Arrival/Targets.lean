/-
Targets along a ramp. The stage that an instant lies in is the stage of every later instant until it ends, so on a stage
that stays at one target the target of one instant is that of all of them. Elsewhere the target is looked at again after
50 ms at most. So while the ramp need not be looked at again, its last target is one of the last 50 ms.

- `locate_of_le`, `lt_of_locate`: the stage of an instant lasts, and the instant comes before its end.
- `targetAt_of_flat`: one target throughout a stage that stays.
- `add_recheckIn_le`: the ramp is looked at again by its end.
- `exists_targetAt_eq`: a target that was looked at is one of the last 50 ms.
-/
import LoadGen.Arrival.Ramp

namespace LoadGen

/-! ## The largest target -/

theorem le_peakTarget (start : Nat) (stages : List Stage) : start ≤ peakTarget start stages := by
  unfold peakTarget
  induction stages generalizing start with
  | nil => exact Nat.le_refl _
  | cons stage rest ih => exact Nat.le_trans (Nat.le_max_left start stage.target) (ih _)

theorem target_le_peakTarget {stages : List Stage} {stage : Stage} (h : stage ∈ stages) (start : Nat) :
    stage.target ≤ peakTarget start stages := by
  induction stages generalizing start with
  | nil => cases h
  | cons first rest ih =>
    rcases List.mem_cons.1 h with rfl | h
    · exact Nat.le_trans (Nat.le_max_right start stage.target) (le_peakTarget _ rest)
    · exact ih h _

namespace Ramp

variable {start a b now looked : Duration} {target : Nat} {stages : List Stage} {s : Segment} {r : Ramp}

/-! ## The stage of an instant -/

/-- a stage is that of every later instant until it ends -/
theorem locate_of_le (h : locate a start target stages = some s) (hab : a ≤ b) (hb : b < s.start + s.duration) :
    locate b start target stages = some s := by
  induction stages generalizing start target with
  | nil => cases h
  | cons stage rest ih =>
    cases rest with
    | nil => exact h
    | cons next rest =>
      simp only [locate] at h ⊢
      by_cases ha : a < start + stage.duration
      · rw [if_pos ha] at h
        cases h
        exact if_pos hb
      · rw [if_neg ha] at h
        have hlater : ¬ b < start + stage.duration := fun hlt => ha (Nat.lt_of_le_of_lt hab hlt)
        rw [if_neg hlater]
        exact ih h

/-- an instant before the end of the stages comes before the end of its stage -/
theorem lt_of_locate (h : locate a start target stages = some s)
    (ha : a < (stages.map Stage.duration).foldl (· + ·) start) : a < s.start + s.duration := by
  induction stages generalizing start target with
  | nil => cases h
  | cons stage rest ih =>
    cases rest with
    | nil =>
      cases h
      exact ha
    | cons next rest =>
      simp only [locate] at h
      split at h
      · rename_i hlt
        cases h
        exact hlt
      · exact ih h ha

/-- a ramp that is not over was not over before -/
theorem isDone_of_le (hab : a ≤ b) (live : r.isDone b = false) : r.isDone a = false := by
  simp only [isDone, decide_eq_false_iff_not] at live ⊢
  exact fun ha => live (Nat.le_trans ha hab)

theorem lt_of_segment? (h : r.segment? a = some s) (live : r.isDone a = false) : a < s.start + s.duration :=
  lt_of_locate h (Nat.lt_of_not_le (of_decide_eq_false live))

/-- some stages end after they start -/
theorem le_end (start : Duration) (stages : List Stage) :
    start ≤ (stages.map Stage.duration).foldl (· + ·) start := by
  induction stages generalizing start with
  | nil => exact Nat.le_refl _
  | cons stage rest ih => exact Nat.le_trans (Duration.le_add_right start stage.duration) (ih _)

/-- the stage of an instant ends before the last one does -/
theorem end_le_of_locate (h : locate a start target stages = some s) :
    s.start + s.duration ≤ (stages.map Stage.duration).foldl (· + ·) start := by
  induction stages generalizing start target with
  | nil => cases h
  | cons stage rest ih =>
    cases rest with
    | nil =>
      cases h
      exact Nat.le_refl _
    | cons next rest =>
      simp only [locate] at h
      split at h
      · cases h
        exact le_end _ (next :: rest)
      · exact ih h

/-! ## Looking at the target -/

/-- while the ramp goes on, a stage that stays at one target has it throughout -/
theorem targetAt_of_flat (h : r.segment? a = some s) (flat : s.startTarget = s.endTarget) (hab : a ≤ b)
    (hb : b < s.start + s.duration) (live : r.isDone b = false) : r.targetAt b = r.targetAt a := by
  have hlater : r.segment? b = some s := locate_of_le h hab hb
  have hsame : Segment.targetAt s b = Segment.targetAt s a := by
    simp only [Segment.targetAt, flat, Int.sub_self, Int.zero_mul]
  simp only [targetAt, h, hlater, live, isDone_of_le hab live, hsame]

/-- where a ramp changes it is looked at again after 50 ms at most -/
theorem recheckIn_le (hchange : ∀ s, r.segment? a = some s → s.startTarget ≠ s.endTarget) :
    r.recheckIn a ≤ lookInterval := by
  have hleast : lookInterval.least (r.totalDuration - a) ≤ lookInterval := by
    rw [Duration.le_iff, Duration.nanos_least]
    exact Nat.min_le_left _ _
  unfold recheckIn
  split
  · exact Nat.zero_le _
  · split
    · rename_i s hs
      rw [if_neg (hchange s hs)]
      exact hleast
    · exact hleast

/-- a stage that stays is looked at again by its end -/
theorem recheckIn_le_of_flat (h : r.segment? a = some s) (flat : s.startTarget = s.endTarget) :
    (r.recheckIn a).nanos ≤ (s.start + s.duration).nanos - a.nanos := by
  unfold recheckIn
  split
  · exact Nat.zero_le _
  · simp only [h, if_pos flat, Duration.nanos_least]
    exact Nat.min_le_left _ _

/-- **The next look is no later than the end of the ramp.** -/
theorem add_recheckIn_le (live : r.isDone a = false) : a + r.recheckIn a ≤ r.totalDuration := by
  have hmax := r.totalDuration.le_max
  have hbefore : a.nanos < r.totalDuration.nanos := Nat.lt_of_not_le (of_decide_eq_false live)
  have hrest : (r.totalDuration - a).nanos = r.totalDuration.nanos - a.nanos := rfl
  suffices h : (r.recheckIn a).nanos ≤ r.totalDuration.nanos - a.nanos by
    rw [Duration.le_iff, Duration.nanos_add]
    omega
  have hchanging : (lookInterval.least (r.totalDuration - a)).nanos ≤ r.totalDuration.nanos - a.nanos := by
    rw [Duration.nanos_least]
    omega
  unfold recheckIn
  rw [live]
  simp only [Bool.false_eq_true, if_false]
  split
  · rename_i s hs
    split
    · -- a stage that stays ends before the ramp does
      have hend : s.start + s.duration ≤ r.totalDuration := end_le_of_locate hs
      have hleft : (s.start + s.duration - a).nanos = (s.start + s.duration).nanos - a.nanos := rfl
      rw [Duration.le_iff] at hend
      rw [Duration.nanos_least]
      omega
    · exact hchanging
  · exact hchanging

/-- **A target that was looked at is one of the last 50 ms**, until the ramp has to be looked at again. -/
theorem exists_targetAt_eq (hlooked : looked ≤ now) (hsoon : now ≤ looked + r.recheckIn looked)
    (live : r.isDone now = false) :
    ∃ x, now - lookInterval ≤ x ∧ x ≤ now ∧ r.targetAt looked = r.targetAt x := by
  have hnow := now.le_max
  have hback : (now - lookInterval).nanos = now.nanos - lookInterval.nanos := rfl
  rw [Duration.le_iff, Duration.nanos_add] at hsoon
  rw [Duration.le_iff] at hlooked
  by_cases hflat : ∃ s, r.segment? looked = some s ∧ s.startTarget = s.endTarget
  · -- the stage lasts until the next look: the latest instant that is both after the last look and 50 ms ago
    obtain ⟨s, hs, hflat⟩ := hflat
    have hend := lt_of_segment? hs (isDone_of_le hlooked live)
    have hrecheck := recheckIn_le_of_flat hs hflat
    have hpositive : 0 < lookInterval.nanos := by decide
    rw [Duration.lt_iff] at hend
    generalize lookInterval = interval at hback hpositive ⊢
    refine ⟨(now - interval).greatest looked, ?_, ?_, (targetAt_of_flat hs hflat ?_ ?_ ?_).symm⟩
    · rw [Duration.le_iff, Duration.nanos_greatest]; omega
    · rw [Duration.le_iff, Duration.nanos_greatest]; omega
    · rw [Duration.le_iff, Duration.nanos_greatest]; omega
    · rw [Duration.lt_iff, Duration.nanos_greatest]; omega
    · refine isDone_of_le ?_ live
      rw [Duration.le_iff, Duration.nanos_greatest]; omega
  · have hrecheck := recheckIn_le fun s hs heq => hflat ⟨s, hs, heq⟩
    rw [Duration.le_iff] at hrecheck
    refine ⟨looked, ?_, hlooked, rfl⟩
    rw [Duration.le_iff]; omega

end Ramp

end LoadGen
