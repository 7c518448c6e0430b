/-
Arrivals at a ramping rate. The rate runs linearly from target to target; the n-th arrival is due when its integral
first reaches n + 1, the root of a quadratic within a stage. The arithmetic is a parameter: floats and whole
nanoseconds when the program runs, real numbers and real seconds when it is reasoned about.
-/
import LoadGen.Arrival.Model
import LoadGen.Time.Duration

namespace LoadGen

/-- numbers to integrate a rate with, and spans of time for what is found -/
class RateArithmetic (R : Type) (S : outParam Type) [Add R] [Sub R] [Mul R] [Div R] where
  ofNat : Nat → R
  sqrt : R → R
  le : R → R → Bool
  lt : R → R → Bool
  /-- what the integral may miss an arrival by at the end of a stage -/
  slack : R
  /-- a length of time in seconds -/
  ofDuration : Duration → R
  /-- the span of some seconds, if there is one -/
  toSpan? : R → Option S
  /-- a length of time is no longer than a span -/
  isOver : Duration → S → Bool

/-- floats: every operation rounds -/
instance : RateArithmetic Float Duration where
  ofNat := Float.ofNat
  sqrt := Float.sqrt
  le := fun x y => x ≤ y
  lt := fun x y => x < y
  slack := 1e-9
  ofDuration := Duration.toSeconds
  toSpan? := Duration.ofSeconds?
  isOver := fun total offset => total ≤ offset

/-- a run of arrivals at a ramping rate, seen from the start of the stage that the last one lay in -/
structure RampingArrivals (R : Type) where
  timeUnit : R
  /-- the rate that the first stage starts from -/
  rate : R
  stages : List Stage
  /-- all stages together -/
  total : Duration
  /-- arrivals taken -/
  taken : Nat
  /-- seconds before the first stage -/
  start : R
  /-- arrivals before the first stage, as an integral -/
  before : R

/-- what the next arrival may come to -/
inductive NextArrival (α : Type) (S : Type := Duration) where
  | due (offset : S) (rest : α)
  | finished (rest : α)
  /-- the offset is no span of time -/
  | unrepresentable

/-- arrivals that end, with the offsets of all of them in turn -/
inductive Yields {α S : Type} (next : α → NextArrival α S) : α → List S → Prop
  | finished {a rest : α} (h : next a = .finished rest) : Yields next a []
  | due {a rest : α} {offset : S} {offsets : List S} (h : next a = .due offset rest)
      (later : Yields next rest offsets) : Yields next a (offset :: offsets)

namespace RampingArrivals

variable {R S : Type} [Add R] [Sub R] [Mul R] [Div R] [RateArithmetic R S]

open RateArithmetic

/-- all arrivals of a ramp -/
def init (startRate : Nat) (timeUnit : Duration) (stages : List Stage) : RampingArrivals R :=
  ⟨ofDuration timeUnit, ofNat startRate, stages, stagesDuration stages, 0, ofNat 0, ofNat 0⟩

/-- the larger of a number and zero -/
def atLeastZero (x : R) : R :=
  if lt x (ofNat 0) then ofNat 0 else x

/-- a number moved into the range from zero to `d` -/
def within (d x : R) : R :=
  if lt x (ofNat 0) then ofNat 0 else if lt d x then d else x

/-- arrivals in a stage of `d` seconds from rate `r₀` to `r₁`, in a time unit of `u` seconds -/
def stageTotal (u r₀ r₁ d : R) : R :=
  (r₀ + r₁) / ofNat 2 * d / u

/-- seconds from the start of a stage to its `m`-th arrival, if it has one: the root of `a t + b t² = m`, written so
that nothing cancels -/
def timeWithin? (u r₀ r₁ d m : R) : Option R :=
  let a := r₀ / u
  let b := if lt (ofNat 0) d then (r₁ - r₀) / (ofNat 2 * d * u) else ofNat 0
  if le m (stageTotal u r₀ r₁ d + slack) then
    let root := a + sqrt (atLeastZero (a * a + ofNat 4 * b * m))
    if lt (ofNat 0) root then some (within d (ofNat 2 * m / root)) else none
  else none

/-- the next arrival, looked for from the first of some remaining stages on -/
def seek (a : RampingArrivals R) : List Stage → R → R → R → NextArrival (RampingArrivals R) S
  | [], rate, start, before => .finished { a with stages := [], rate, start, before }
  | s :: rest, rate, start, before =>
    let target := ofNat s.target
    let d := ofDuration s.duration
    match timeWithin? a.timeUnit rate target d (ofNat (a.taken + 1) - before) with
    | none => seek a rest target (start + d) (before + stageTotal a.timeUnit rate target d)
    | some t =>
      let here := { a with stages := s :: rest, rate, start, before }
      match toSpan? (start + t) with
      | none => .unrepresentable
      | some offset =>
        if isOver R a.total offset then .finished here
        else .due offset { here with taken := a.taken + 1 }

/-- the next arrival -/
def pop (a : RampingArrivals R) : NextArrival (RampingArrivals R) S :=
  if le a.timeUnit (ofNat 0) then .finished a else seek a a.stages a.rate a.start a.before

end RampingArrivals

end LoadGen
