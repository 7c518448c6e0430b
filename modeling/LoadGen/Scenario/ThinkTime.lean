/-
Think time: how long a worker keeps its slot after a request. A range is drawn from uniformly, on whole nanoseconds, and
its ends count as at most one 64-bit word.
-/
import LoadGen.Decimal.Numeral
import LoadGen.Random.Stream
import LoadGen.Time.Duration

namespace LoadGen

/-- the pause after a request -/
inductive ThinkTime where
  | none
  | fixed (pause : Duration)
  | uniform (least most : Duration)
  deriving DecidableEq

namespace ThinkTime

/-- nanoseconds of a span, at most a word -/
def wordNanos (d : Duration) : Nat :=
  min d.nanos Decimal.wordMax

/-- the next pause; only a proper range draws from the stream -/
def sample (t : ThinkTime) (s : Random.Stream) : Duration × Random.Stream :=
  match t with
  | none => (.zero, s)
  | fixed pause => (pause, s)
  | uniform least most =>
    if most ≤ least then (least, s)
    else
      let (n, s) := s.between (wordNanos least) (wordNanos most)
      (.ofNanos n, s)

/-- the next `n` pauses -/
def samples (t : ThinkTime) : Nat → Random.Stream → List Duration
  | 0, _ => []
  | n + 1, s =>
    let (pause, s) := t.sample s
    pause :: samples t n s

end ThinkTime

end LoadGen
