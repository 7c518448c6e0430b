/-
The latency histogram. A latency is clamped to between a microsecond and an hour, and counted in a cell: below 2048
microseconds every value has a cell of its own, above that a cell is as wide as leaves eleven bits of the value, so that
a cell's width stays below a thousandth of its values. Figures are in milliseconds.
-/
import LoadGen.Metrics.Rate

namespace LoadGen.Metrics

/-- the largest latency told apart, one hour -/
def maxMicros : Nat := 3600000000

/-- a latency in whole microseconds, clamped to the histogram's range -/
def latencyMicros (d : Duration) : Nat :=
  max 1 (min maxMicros (d.nanos / 1000))

/-- the width of the cell that a value lies in -/
def cellWidth (v : Nat) : Nat :=
  Nat.pow 2 (Nat.log2 v + 1 - 11)

/-- the lowest value of the cell that a value lies in -/
def cellLow (v : Nat) : Nat :=
  v / cellWidth v * cellWidth v

/-- the highest value of the cell that starts at `low` -/
def cellHigh (low : Nat) : Nat :=
  low + cellWidth low - 1

/-- the value halfway through the cell that starts at `low` -/
def cellMiddle (low : Nat) : Nat :=
  low + cellWidth low / 2

/-- latencies counted by the lowest value of their cells -/
abbrev Histogram := Tally

namespace Histogram

/-- one more latency -/
def record (d : Duration) (h : Histogram) : Histogram :=
  Tally.bump (cellLow (latencyMicros d)) h

/-- the first cell by which at least `rank` latencies are counted, `seen` having been counted before -/
def cellAt? (rank : Nat) : Nat → Histogram → Option Nat
  | _, [] => none
  | seen, (low, n) :: rest => if rank ≤ seen + n then some low else cellAt? rank (seen + n) rest

def millis (micros : Float) : Float :=
  micros / 1000.0

/-- the number of latencies that a quantile of the histogram covers, at least one -/
def rank (q : Float) (h : Histogram) : Nat :=
  max 1 (Float.ceil (q * Float.ofNat (Tally.total h))).toUInt64.toNat

/-- `x` moved into the range from 0 to 1 -/
def clampUnit (x : Float) : Float :=
  if x < 0.0 then 0.0 else if 1.0 < x then 1.0 else x

/-- the latency that `p` percent do not exceed: the highest value of its cell, the lowest for `p = 0` -/
def percentile? (p : Float) (h : Histogram) : Option Float :=
  if h.isEmpty ∨ !p.isFinite then none
  else
    let q := clampUnit (p / 100.0)
    let micros := match cellAt? (rank q h) 0 h with
      | none => 0
      | some low => if q == 0.0 then low else cellHigh low
    some (millis (Float.ofNat micros))

/-- mean of the middles of the cells, in microseconds -/
def meanMicros (h : Histogram) : Float :=
  let total := Float.ofNat (Tally.total h)
  h.foldl (fun acc c => acc + Float.ofNat (cellMiddle c.1) * Float.ofNat c.2 / total) 0.0

/-- deviation of the middles of the cells from their mean, in microseconds -/
def stdevMicros (h : Histogram) : Float :=
  let mean := meanMicros h
  let sum := h.foldl (fun acc c =>
    let dev := Float.ofNat (cellMiddle c.1) - mean
    acc + dev * dev * Float.ofNat c.2) 0.0
  Float.sqrt (sum / Float.ofNat (Tally.total h))

end Histogram

/-- the figures of a histogram; nothing but the count if it is empty -/
structure LatencySummary where
  count : Nat
  min : Option Float
  max : Option Float
  mean : Option Float
  stdev : Option Float
  p50 : Option Float
  p90 : Option Float
  p95 : Option Float
  p99 : Option Float

namespace Histogram

def summary (h : Histogram) : LatencySummary :=
  match h with
  | [] => ⟨0, none, none, none, none, none, none, none, none⟩
  | first :: rest =>
    let last := (first :: rest).getLastD first
    { count := Tally.total h
      min := some (millis (Float.ofNat first.1))
      max := some (millis (Float.ofNat (cellHigh last.1)))
      mean := some (millis (meanMicros h))
      stdev := some (millis (stdevMicros h))
      p50 := percentile? 50.0 h
      p90 := percentile? 90.0 h
      p95 := percentile? 95.0 h
      p99 := percentile? 99.0 h }

end Histogram

end LoadGen.Metrics
