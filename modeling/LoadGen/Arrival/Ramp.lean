/-
Targets along a ramp: how many virtual users a closed loop should hold at an instant, interpolated linearly within a
stage and rounded towards where the stage starts, and how long a waiter may sleep before it has to look again.
-/
import LoadGen.Arrival.Model

namespace LoadGen

/-- a ramp from `start` through its stages -/
structure Ramp where
  start : Nat
  stages : List Stage

/-- the stage that an instant lies in -/
structure Segment where
  /-- when it starts -/
  start : Duration
  duration : Duration
  startTarget : Nat
  endTarget : Nat

namespace Ramp

/-- one stage at a constant target -/
def constant (target : Nat) (duration : Duration) : Ramp :=
  ⟨target, [⟨duration, target⟩]⟩

def totalDuration (r : Ramp) : Duration :=
  stagesDuration r.stages

/-- the ramp is over -/
def isDone (r : Ramp) (elapsed : Duration) : Bool :=
  r.totalDuration ≤ elapsed

/-- the first stage that ends after `elapsed`, the last one if none does -/
def locate (elapsed : Duration) : Duration → Nat → List Stage → Option Segment
  | _, _, [] => none
  | start, target, [s] => some ⟨start, s.duration, target, s.target⟩
  | start, target, s :: rest =>
    if elapsed < start + s.duration then some ⟨start, s.duration, target, s.target⟩
    else locate elapsed (start + s.duration) s.target rest

/-- the stage at an instant -/
def segment? (r : Ramp) (elapsed : Duration) : Option Segment :=
  locate elapsed .zero r.start r.stages

/-- an integer moved into the range of signed 128-bit words -/
def clampSigned (x : Int) : Int :=
  max (-170141183460469231731687303715884105728) (min 170141183460469231731687303715884105727 x)

/-- the target within a stage -/
def Segment.targetAt (s : Segment) (elapsed : Duration) : Nat :=
  let passed := (elapsed - s.start).nanos
  let climb := clampSigned (((s.endTarget : Int) - s.startTarget) * passed)
  ((s.startTarget : Int) + climb.tdiv (max 1 s.duration.nanos)).toNat

/-- the target at an instant; from the end on, the last stage's -/
def targetAt (r : Ramp) (elapsed : Duration) : Nat :=
  match r.segment? elapsed with
  | none => r.start
  | some s =>
    if r.isDone elapsed ∨ s.duration.isZero then s.endTarget
    else min 18446744073709551615 (Segment.targetAt s elapsed)

/-- between looks at a target that changes -/
def lookInterval : Duration := .ofMillis 50

/-- between looks at a target that stays -/
def flatInterval : Duration := .ofMillis 200

/-- how long the target need not be looked at again -/
def recheckIn (r : Ramp) (elapsed : Duration) : Duration :=
  if r.isDone elapsed then .zero
  else match r.segment? elapsed with
    | some s =>
      if s.startTarget = s.endTarget then (s.start + s.duration - elapsed).least flatInterval
      else lookInterval.least (r.totalDuration - elapsed)
    | none => lookInterval.least (r.totalDuration - elapsed)

end Ramp

end LoadGen
