/-
Arrival models. Open loop: iterations start on a schedule of their own, at a constant or a ramping rate. Closed loop: a
constant or ramping number of virtual users start one iteration after another.
-/
import LoadGen.Time.Duration

namespace LoadGen

/-- one stage of a ramp: the target is reached at its end -/
structure Stage where
  duration : Duration
  target : Nat
  deriving DecidableEq

/-- the kinds of arrival model -/
inductive ModelKind where
  | constantArrivalRate
  | rampingArrivalRate
  | constantVus
  | rampingVus
  deriving DecidableEq, Repr

namespace ModelKind

def name : ModelKind → String
  | constantArrivalRate => "constant-arrival-rate"
  | rampingArrivalRate => "ramping-arrival-rate"
  | constantVus => "constant-vus"
  | rampingVus => "ramping-vus"

/-- the kind of a name; the closed-loop kinds have an older name as well -/
def ofName? (s : String) : Option ModelKind :=
  if s = "constant-arrival-rate" then some constantArrivalRate
  else if s = "ramping-arrival-rate" then some rampingArrivalRate
  else if s = "constant-vus" ∨ s = "constant" then some constantVus
  else if s = "ramping-vus" ∨ s = "staged-ramp" then some rampingVus
  else none

end ModelKind

/-- how iterations arrive -/
inductive ArrivalModel where
  /-- `rate` iterations in every `timeUnit` -/
  | constantArrivalRate (rate : Nat) (timeUnit duration : Duration) (preAllocated maxVus : Nat)
  /-- as many iterations in a time unit as the ramp says -/
  | rampingArrivalRate (startRate : Nat) (timeUnit : Duration) (stages : List Stage) (preAllocated maxVus : Nat)
  /-- a fixed population of virtual users -/
  | constantVus (vus : Nat) (duration : Duration)
  /-- as many virtual users as the ramp says -/
  | rampingVus (startVus : Nat) (stages : List Stage)
  deriving DecidableEq

/-- how long some stages last together -/
def stagesDuration (stages : List Stage) : Duration :=
  Duration.sum (stages.map Stage.duration)

/-- the largest target of some stages, or `start` if that is larger -/
def peakTarget (start : Nat) (stages : List Stage) : Nat :=
  stages.foldl (fun m s => max m s.target) start

namespace ArrivalModel

def kind : ArrivalModel → ModelKind
  | constantArrivalRate .. => .constantArrivalRate
  | rampingArrivalRate .. => .rampingArrivalRate
  | constantVus .. => .constantVus
  | rampingVus .. => .rampingVus

/-- how long iterations are dispatched -/
def totalDuration : ArrivalModel → Duration
  | constantArrivalRate _ _ d _ _ | constantVus _ d => d
  | rampingArrivalRate _ _ stages _ _ | rampingVus _ stages => stagesDuration stages

/-- worker slots from the start, and at most -/
def poolBounds : ArrivalModel → Nat × Nat
  | constantArrivalRate _ _ _ pre most | rampingArrivalRate _ _ _ pre most => (pre, most)
  | constantVus vus _ => (vus, vus)
  | rampingVus start stages => (start, peakTarget start stages)

end ArrivalModel

end LoadGen
