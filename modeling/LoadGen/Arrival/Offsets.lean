/-
The arrivals of an open-loop model, one after another. At a constant rate the n-th one is due n time units over the rate
after the start, in whole nanoseconds and computed from n, so nothing adds up over a long run. Closed-loop models have
none of their own: their iterations start when a virtual user is free.
-/
import LoadGen.Arrival.Ramping
import LoadGen.Decimal.Numeral

namespace LoadGen

/-- a run of arrivals at a constant rate, `next` of which have been taken -/
structure ConstantArrivals where
  rate : Nat
  timeUnit : Duration
  duration : Duration
  next : Nat := 0

namespace ConstantArrivals

/-- nanoseconds at which arrival `n` is due -/
def offsetNanos (a : ConstantArrivals) (n : Nat) : Nat :=
  min (n * a.timeUnit.nanos) doubleWordMax / a.rate

/-- the next arrival and what follows it -/
def pop? (a : ConstantArrivals) : Option (Duration × ConstantArrivals) :=
  if a.rate = 0 then none
  else
    let due := a.offsetNanos a.next
    if a.duration.nanos ≤ due then none
    else some (.ofNanos (min due Decimal.wordMax), { a with next := a.next + 1 })

end ConstantArrivals

/-- arrivals still to come -/
inductive Arrivals where
  | constant (a : ConstantArrivals)
  | ramping (a : RampingArrivals Float)

namespace Arrivals

/-- all arrivals of an open-loop model -/
def ofModel? : ArrivalModel → Option Arrivals
  | .constantArrivalRate rate timeUnit duration _ _ => some (.constant ⟨rate, timeUnit, duration, 0⟩)
  | .rampingArrivalRate startRate timeUnit stages _ _ => some (.ramping (.init startRate timeUnit stages))
  | .constantVus .. | .rampingVus .. => none

/-- the next arrival -/
def pop : Arrivals → NextArrival Arrivals
  | constant a => match a.pop? with
    | some (offset, rest) => .due offset (.constant rest)
    | none => .finished (.constant a)
  | ramping a => match a.pop with
    | .due offset rest => .due offset (.ramping rest)
    | .finished rest => .finished (.ramping rest)
    | .unrepresentable => .unrepresentable

/-- at most `n` arrivals, latest first before `acc`, with what follows them; nothing if one is unrepresentable -/
def takeFrom? : Nat → List Duration → Arrivals → Option (List Duration × Arrivals)
  | 0, acc, a => some (acc, a)
  | n + 1, acc, a => match a.pop with
    | .due offset rest => takeFrom? n (offset :: acc) rest
    | .finished rest => some (acc, rest)
    | .unrepresentable => none

/-- at most `n` arrivals with what follows them -/
def take? (n : Nat) (a : Arrivals) : Option (List Duration × Arrivals) :=
  (takeFrom? n [] a).map fun p => (p.1.reverse, p.2)

end Arrivals

end LoadGen
