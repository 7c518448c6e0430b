/-
When a ramp is looked at again. Within a stage the next look depends on the stage alone: a flat one is looked at again
by its end and after 200 ms at most, any other by the end of the ramp and after 50 ms at most. So a look is always later
than the one before it and never past the end. If every stage takes time, a stage starts at the target that the one
before it ends with, so the target of a flat stage is still the target at the instant where the next one takes over.

- `InStage`: the stage that an instant lies in.
- `recheckIn_eq`: the next look, from the stage.
- `targetAt_startOf`: targets do not jump from stage to stage.
- `targetAt_of_recheck`: the target of a flat stage, up to and with the next look.
- `rechecks_progress`: the next look at every instant of every ramp.
-/
import LoadGen.Proofs.Arrival.Interpolation

namespace LoadGen.Ramp

open Decimal

/-- an instant lies in stage `i` -/
structure InStage (r : Ramp) (elapsed : Duration) (i : Nat) (stage : Stage) : Prop where
  stage : r.stages[i]? = some stage
  start_le : r.startOf i ≤ elapsed
  lt_end : elapsed < r.startOf (i + 1)

variable {r : Ramp} {stage : Stage} {elapsed later : Duration} {i : Nat}

/-! ## The next look -/

theorem InStage.end_le (h : r.InStage elapsed i stage) : r.startOf (i + 1) ≤ r.totalDuration := by
  have hi : i + 1 ≤ r.stages.length := (List.getElem?_eq_some_iff.1 h.stage).1
  rw [← startOf_length]
  exact startOf_mono hi

theorem InStage.lt_total (h : r.InStage elapsed i stage) : elapsed < r.totalDuration :=
  Nat.lt_of_lt_of_le h.lt_end h.end_le

/-- **The next look**, from the stage that an instant lies in -/
theorem recheckIn_eq (h : r.InStage elapsed i stage) :
    r.recheckIn elapsed =
      if r.targetBefore i = stage.target then (r.startOf (i + 1) - elapsed).least flatInterval
      else lookInterval.least (r.totalDuration - elapsed) := by
  have hlive : r.isDone elapsed = false := decide_eq_false (Nat.not_le.2 h.lt_total)
  simp only [recheckIn, hlive, segment?_eq h.stage h.start_le h.lt_end, startOf_succ h.stage, Bool.false_eq_true,
    if_false]

theorem recheckIn_of_isDone (hend : r.totalDuration ≤ elapsed) : r.recheckIn elapsed = .zero := by
  have hdone : r.isDone elapsed = true := decide_eq_true hend
  rw [recheckIn, if_pos hdone]

/-- nanoseconds until the next look at a flat stage -/
theorem recheckIn_of_flat (h : r.InStage elapsed i stage) (hflat : r.targetBefore i = stage.target) :
    (r.recheckIn elapsed).nanos = min ((r.startOf (i + 1)).nanos - elapsed.nanos) flatInterval.nanos := by
  rw [recheckIn_eq h, if_pos hflat, Duration.nanos_least, Duration.nanos_sub]

/-- nanoseconds until the next look at a stage that changes its target -/
theorem recheckIn_of_ramping (h : r.InStage elapsed i stage) (hramps : r.targetBefore i ≠ stage.target) :
    (r.recheckIn elapsed).nanos = min lookInterval.nanos (r.totalDuration.nanos - elapsed.nanos) := by
  rw [recheckIn_eq h, if_neg hramps, Duration.nanos_least, Duration.nanos_sub]

/-! ## From stage to stage -/

theorem targetBefore_succ (hstage : r.stages[i]? = some stage) : r.targetBefore (i + 1) = stage.target := by
  rw [targetBefore, List.take_add_one, hstage, List.map_append]
  simp

/-- a stage that takes time and starts before the end of the ramp is not cut to nothing there -/
theorem startOf_lt_succ (hstage : r.stages[i]? = some stage) (hlasts : 0 < stage.duration.nanos)
    (hstart : r.startOf i < r.totalDuration) : r.startOf i < r.startOf (i + 1) := by
  have hmax := r.totalDuration.le_max
  rw [Duration.lt_iff] at hstart
  rw [startOf_succ hstage, Duration.lt_iff, Duration.nanos_add]
  omega

/-- where nothing is gone of the way, the target is that of the start -/
theorem Segment.targetAt_of_still {s : Segment}
    (hstill : ((s.endTarget : Int) - s.startTarget) * (elapsed - s.start).nanos = 0) :
    Segment.targetAt s elapsed = s.startTarget := by
  have hclamp : clampSigned 0 = 0 := by decide
  simp only [Segment.targetAt, hstill, hclamp, Int.zero_tdiv, Int.add_zero, Int.toNat_natCast]

/-- **Targets do not jump**: a stage that takes time starts at the target of the stage before it. -/
theorem targetAt_startOf (hstage : r.stages[i]? = some stage) (hlasts : r.startOf i < r.startOf (i + 1)) :
    r.targetAt (r.startOf i) = min wordMax (r.targetBefore i) := by
  have hpassed : (r.startOf i - r.startOf i).nanos = 0 := Nat.sub_self _
  rw [targetAt_eq hstage (Nat.le_refl _) hlasts, Segment.targetAt_of_still]
  rw [hpassed]
  exact Int.mul_zero _

theorem targetAt_of_inStage_flat (h : r.InStage elapsed i stage) (hflat : r.targetBefore i = stage.target) :
    r.targetAt elapsed = min wordMax stage.target := by
  rw [targetAt_eq h.stage h.start_le h.lt_end, Segment.targetAt_of_still, hflat]
  rw [hflat, Int.sub_self]
  exact Int.zero_mul _

/-- at the end of a stage its target is reached, unless the ramp is over -/
theorem targetAt_end (hlasting : ∀ stage ∈ r.stages, 0 < stage.duration.nanos) (h : r.InStage elapsed i stage)
    (hlive : r.startOf (i + 1) < r.totalDuration) : r.targetAt (r.startOf (i + 1)) = min wordMax stage.target := by
  have hnext : i + 1 < r.stages.length := by
    refine Nat.lt_of_not_le fun hlast => ?_
    have hend : r.totalDuration ≤ r.startOf (i + 1) := startOf_length r ▸ startOf_mono hlast
    exact Nat.lt_irrefl _ (Nat.lt_of_lt_of_le hlive hend)
  have hstage : r.stages[i + 1]? = some r.stages[i + 1] := List.getElem?_eq_getElem hnext
  have hlasts := startOf_lt_succ hstage (hlasting _ (List.getElem_mem hnext)) hlive
  rw [targetAt_startOf hstage hlasts, targetBefore_succ h.stage]

/-- the target of a flat stage, up to and with the next look -/
theorem targetAt_of_recheck (hlasting : ∀ stage ∈ r.stages, 0 < stage.duration.nanos)
    (h : r.InStage elapsed i stage) (hflat : r.targetBefore i = stage.target) (hle : elapsed ≤ later)
    (hsoon : later ≤ elapsed + r.recheckIn elapsed) (hlive : later < r.totalDuration) :
    r.targetAt later = r.targetAt elapsed := by
  have hto : later ≤ r.startOf (i + 1) := by
    have hlt := h.lt_end
    rw [Duration.lt_iff] at hlt
    rw [Duration.le_iff, Duration.nanos_add, recheckIn_of_flat h hflat] at hsoon
    rw [Duration.le_iff]
    omega
  rw [targetAt_of_inStage_flat h hflat]
  rcases Nat.lt_or_eq_of_le hto with hwithin | hend
  · have hlater : r.InStage later i stage := ⟨h.stage, Nat.le_trans h.start_le hle, hwithin⟩
    exact targetAt_of_inStage_flat hlater hflat
  · -- the next look is at the end of the stage, where the next stage has taken over
    have hlast : later = r.startOf (i + 1) := Duration.eq_of_nanos hend
    rw [hlast] at hlive ⊢
    exact targetAt_end hlasting h hlive

/-! ## Every look -/

/-- what holds of the next look at a ramp, at an instant in stage `i` -/
structure Rechecks (r : Ramp) (elapsed : Duration) (i : Nat) (stage : Stage) : Prop where
  progress : .zero < r.recheckIn elapsed
  soon : r.recheckIn elapsed ≤ .ofMillis 200
  sooner : r.targetBefore i ≠ stage.target → r.recheckIn elapsed ≤ .ofMillis 50
  byEnd : r.recheckIn elapsed ≤ r.totalDuration - elapsed
  /-- nothing is missed on a flat stage, not even at the instant of the next look -/
  steady : r.targetBefore i = stage.target → ∀ later, elapsed ≤ later → later ≤ elapsed + r.recheckIn elapsed →
    later < r.totalDuration → r.targetAt later = r.targetAt elapsed

theorem rechecks_of_inStage (hlasting : ∀ stage ∈ r.stages, 0 < stage.duration.nanos) (h : r.InStage elapsed i stage) :
    r.Rechecks elapsed i stage := by
  have hlt := h.lt_end
  have hend := h.end_le
  have hintervals : 0 < lookInterval.nanos ∧ lookInterval.nanos ≤ flatInterval.nanos := by decide
  rw [Duration.lt_iff] at hlt
  rw [Duration.le_iff] at hend
  have hlook : (r.recheckIn elapsed).nanos = min ((r.startOf (i + 1)).nanos - elapsed.nanos) flatInterval.nanos ∨
      (r.recheckIn elapsed).nanos = min lookInterval.nanos (r.totalDuration.nanos - elapsed.nanos) := by
    by_cases hflat : r.targetBefore i = stage.target
    · exact .inl (recheckIn_of_flat h hflat)
    · exact .inr (recheckIn_of_ramping h hflat)
  constructor
  case progress =>
    show 0 < (r.recheckIn elapsed).nanos
    omega
  case soon =>
    show (r.recheckIn elapsed).nanos ≤ flatInterval.nanos
    omega
  case sooner =>
    intro hramps
    show (r.recheckIn elapsed).nanos ≤ lookInterval.nanos
    rw [recheckIn_of_ramping h hramps]
    exact Nat.min_le_left _ _
  case byEnd =>
    rw [Duration.le_iff, Duration.nanos_sub]
    omega
  case steady =>
    intro hflat later hle hsoon hlive
    exact targetAt_of_recheck hlasting h hflat hle hsoon hlive

/-- **Looks make progress and never overshoot.** Before the end of a ramp whose stages all take time the next look is
later, but by 200 ms at most, by 50 ms if the stage of the instant ramps, and never past the end; on a flat stage the
target stays what it is until then. From the end on the ramp is done, and there is nothing to wait for. -/
theorem rechecks_progress (hlasting : ∀ stage ∈ r.stages, 0 < stage.duration.nanos) (elapsed : Duration) :
    (elapsed < r.totalDuration →
      (∃! i, i < r.stages.length ∧ r.startOf i ≤ elapsed ∧ elapsed < r.startOf (i + 1)) ∧
      ∀ i stage, r.InStage elapsed i stage → r.Rechecks elapsed i stage) ∧
    (r.totalDuration ≤ elapsed → r.recheckIn elapsed = .zero ∧ r.isDone elapsed = true) := by
  constructor
  · intro hbefore
    exact ⟨existsUnique_stage hbefore, fun i stage h => rechecks_of_inStage hlasting h⟩
  · intro hend
    exact ⟨recheckIn_of_isDone hend, decide_eq_true hend⟩

/-- a climb to 20, a minute there and a fall: 100 ms before the fall the next look is where it starts, and the target is
still 20 -/
theorem rechecks_progress_plateau :
    let r : Ramp := ⟨0, [⟨.ofSecs 30, 20⟩, ⟨.ofSecs 60, 20⟩, ⟨.ofSecs 30, 0⟩]⟩
    (∀ stage ∈ r.stages, 0 < stage.duration.nanos) ∧ r.InStage (.ofMillis 89900) 1 ⟨.ofSecs 60, 20⟩ ∧
      r.recheckIn (.ofMillis 89900) = .ofMillis 100 ∧ r.Rechecks (.ofMillis 89900) 1 ⟨.ofSecs 60, 20⟩ ∧
      r.targetAt (.ofSecs 90) = r.targetAt (.ofMillis 89900) ∧ r.recheckIn (.ofSecs 120) = .zero := by
  intro r
  have hlasting : ∀ stage ∈ r.stages, 0 < stage.duration.nanos := by decide
  have hstage : r.InStage (.ofMillis 89900) 1 ⟨.ofSecs 60, 20⟩ := ⟨by decide, by decide, by decide⟩
  have hlook : r.recheckIn (.ofMillis 89900) = .ofMillis 100 := by decide
  have hagain := ((rechecks_progress hlasting (.ofMillis 89900)).1 (by decide)).2 1 _ hstage
  have hdone := (rechecks_progress hlasting (.ofSecs 120)).2 (by decide)
  refine ⟨hlasting, hstage, hlook, hagain, ?_, hdone.1⟩
  exact hagain.steady (by decide) (.ofSecs 90) (by decide) (by rw [hlook]; decide) (by decide)

end LoadGen.Ramp
