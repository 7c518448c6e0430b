/-
Figures for people: a number with the unit that keeps it short. Bytes take binary units, latencies and spans of time the
largest of seconds, milliseconds and microseconds that does not exceed them; what there is no data for is a dash.
-/
import LoadGen.Decimal.Layout
import LoadGen.Time.Duration

namespace LoadGen.Figure

/-- a number of bytes -/
def bytes (n : Nat) : String :=
  let scaled := fun (unit : Nat) (name : String) => Decimal.fixed 2 (Float.ofNat n / Float.ofNat unit) ++ name
  if 1073741824 ≤ n then scaled 1073741824 "GiB"
  else if 1048576 ≤ n then scaled 1048576 "MiB"
  else if 1024 ≤ n then scaled 1024 "KiB"
  else toString n ++ "B"

/-- a rate: two places below ten, none from there on -/
def rate (x : Float) : String :=
  if !x.isFinite then "0"
  else if x < 10.0 then Decimal.fixed 2 x
  else Decimal.fixed 0 x

/-- a latency given in milliseconds -/
def latency (x : Option Float) : String :=
  match x.filter Float.isFinite with
  | none => "-"
  | some ms =>
    if 1000.0 ≤ ms then Decimal.fixed 2 (ms / 1000.0) ++ "s"
    else if 1.0 ≤ ms then Decimal.fixed 2 ms ++ "ms"
    else Decimal.fixed 0 (ms * 1000.0) ++ "us"

/-- a fraction as a percentage -/
def percent (x : Option Float) : String :=
  match x.filter Float.isFinite with
  | none => "-"
  | some fraction => Decimal.fixed 2 (fraction * 100.0) ++ "%"

/-- `n / unit` to the nearest integer, an exact half upwards -/
def roundHalfUp (n unit : Nat) : Nat :=
  (n + unit / 2) / unit

/-- a span of time in one unit -/
def span (d : Duration) : String :=
  if 1000000000 ≤ d.nanos then toString (roundHalfUp d.nanos 1000000000) ++ "s"
  else if 1000000 ≤ d.nanos then toString (roundHalfUp d.nanos 1000000) ++ "ms"
  else toString (roundHalfUp d.nanos 1000) ++ "us"

end LoadGen.Figure
