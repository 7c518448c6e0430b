/-
Tallies, which say how often each key came up, running statistics of a sequence of numbers, and completions second by
second. A tally's cells are ascending by key, each key stands once, and a key that never came up has no cell. The series
keeps a bounded number of seconds, the most recent ones; a second older than all of them is not counted once they are
that many.
-/
import LoadGen.Time.Duration

namespace LoadGen.Metrics

/-! ## Tallies -/

/-- keys with their counts, ascending by key -/
abbrev Tally := List (Nat × Nat)

namespace Tally

/-- one more occurrence of `key` -/
def bump (key : Nat) : Tally → Tally
  | [] => [(key, 1)]
  | (k, n) :: rest =>
    if key < k then (key, 1) :: (k, n) :: rest
    else if key = k then (k, n + 1) :: rest
    else (k, n) :: bump key rest

/-- how often `key` came up -/
def count (key : Nat) : Tally → Nat
  | [] => 0
  | (k, n) :: rest => if key = k then n else count key rest

/-- how often any key came up -/
def total : Tally → Nat
  | [] => 0
  | (_, n) :: rest => n + total rest

end Tally

/-! ## Statistics and series -/

/-- mean and spread of the numbers so far, updated one number at a time -/
structure RunningStats where
  count : Nat := 0
  mean : Float := 0.0
  /-- sum of the squared deviations from the mean -/
  squares : Float := 0.0
  max : Float := 0.0

namespace RunningStats

/-- one more number; one that is not finite is left out -/
def push (s : RunningStats) (x : Float) : RunningStats :=
  if x.isFinite then
    let count := s.count + 1
    let before := x - s.mean
    let mean := s.mean + before / Float.ofNat count
    let after := x - mean
    ⟨count, mean, s.squares + before * after, if s.max < x then x else s.max⟩
  else s

/-- the sample standard deviation, zero below two numbers -/
def stdev (s : RunningStats) : Float :=
  if s.count < 2 then 0.0 else Float.sqrt (s.squares / (Float.ofNat s.count - 1.0))

end RunningStats

/-- completions per second: mean, deviation and peak over the seconds of a series -/
structure RateSummary where
  avg : Float
  stdev : Float
  max : Float

/-- completions by second, for at most `capacity` seconds with any -/
structure RateSeries where
  capacity : Nat
  cells : Tally := []

namespace RateSeries

/-- an empty series; its capacity is at least one second -/
def empty (capacity : Nat) : RateSeries :=
  ⟨max 1 capacity, []⟩

/-- one hour of seconds -/
def hour : RateSeries := empty 3600

/-- a second that came before all that a full series keeps -/
def isLate (s : RateSeries) (sec : Nat) : Bool :=
  s.capacity ≤ s.cells.length ∧ s.cells.head?.any fun c => sec < c.1

/-- one more completion -/
def record (s : RateSeries) (at' : Duration) : RateSeries :=
  if s.isLate at'.secs then s
  else
    let cells := Tally.bump at'.secs s.cells
    { s with cells := cells.drop (cells.length - s.capacity) }

/-- the seconds between two cells, each without completions -/
def gap (first last : Nat) : List (Nat × Nat) :=
  (List.range (last - first - 1)).map fun i => (first + 1 + i, 0)

/-- cells with the seconds between them filled in -/
def fill : Tally → List (Nat × Nat)
  | [] => []
  | [c] => [c]
  | c :: d :: rest => c :: (gap c.1 d.1 ++ fill (d :: rest))

/-- every second from the first with completions to the last, each with its count -/
def points (s : RateSeries) : List (Nat × Nat) :=
  fill s.cells

def summary (s : RateSeries) : RateSummary :=
  let stats : RunningStats := s.points.foldl (fun st p => st.push (Float.ofNat p.2)) {}
  ⟨stats.mean, stats.stdev, stats.max⟩

end RateSeries

end LoadGen.Metrics
