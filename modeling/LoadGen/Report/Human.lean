/-
Reports for people: the header before a run, one message per update while it goes on, and the summary after it with the
failed thresholds apart.
-/
import LoadGen.Report.Basic
import LoadGen.Report.Figure
import LoadGen.Scenario.Basic
import LoadGen.Time.Phrase
import LoadGen.Web.Target

namespace LoadGen.Human

/-- an arrival model with its parameters -/
def describe : ArrivalModel → String
  | .constantArrivalRate rate timeUnit duration pre most =>
    s!"rate={rate}/" ++ Phrase.write timeUnit ++ " duration=" ++ Phrase.write duration ++ s!" vus={pre}..{most}"
  | .rampingArrivalRate startRate timeUnit stages pre most =>
    s!"start_rate={startRate}/" ++ Phrase.write timeUnit ++ s!" stages={stages.length} vus={pre}..{most}"
  | .constantVus vus duration => s!"vus={vus} duration=" ++ Phrase.write duration
  | .rampingVus startVus stages => s!"start_vus={startVus} stages={stages.length}"

/-- the lines before a run -/
def header (file : String) (s : Scenario) : List String :=
  ["scenario file: " ++ file,
    "scenario: " ++ s.name ++ " model=" ++ s.model.kind.name ++ " " ++ describe s.model] ++
    s.requests.map (fun r => "  " ++ r.method.name ++ " " ++ r.url) ++ [""]

/-- what the last update told -/
structure Told where
  iterations : Nat := 0
  failed : Nat := 0
  elapsed : Duration := .zero

/-- iterations per second since the last update -/
def pace (u : Update) (told : Told) : Float :=
  let passed := (u.elapsed - told.elapsed).toSeconds
  Float.ofNat (u.snapshot.iterations - told.iterations) / (if passed < 1e-9 then 1e-9 else passed)

/-- the message of an update, and what it told -/
def message (u : Update) (told : Told) : String × Told :=
  let failed := u.snapshot.classes.failed
  let counts := s!"vus={u.pool.active}/{u.pool.maxVus} elapsed=" ++ Figure.span u.elapsed ++
    " iters/s=" ++ Figure.rate (pace u told) ++ " p95=" ++ Figure.latency u.snapshot.latency.p95 ++
    s!" errors={failed - told.failed}/{failed}"
  let dropped := if 0 < u.snapshot.dropped then s!" dropped={u.snapshot.dropped}" else ""
  let failing := if 0 < u.failing then s!" thresholds_failing={u.failing}" else ""
  (counts ++ dropped ++ failing, ⟨u.snapshot.iterations, failed, u.elapsed⟩)

/-- a span without the part below a millisecond -/
def wholeMillis (d : Duration) : Duration :=
  .ofMillis (d.nanos / 1000000 % 18446744073709551616)

/-- a verdict in the summary -/
def verdictLine (v : Threshold.Verdict) : String :=
  let observed := match v.observed with
    | some x => "(observed " ++ Decimal.fixed 3 x ++ ")"
    | none => "(no data)"
  "  " ++ v.threshold.text ++ (if v.passed then " [OK] " else " [FAIL] ") ++ observed

/-- lines under their title, if there are any -/
def titled (title : String) (lines : List String) : List String :=
  if lines.isEmpty then [] else "" :: title :: lines

/-- the figures of a latency histogram -/
def latencyLine (l : Metrics.LatencySummary) : String :=
  if l.count = 0 then "  latency: n/a"
  else
    "  latency = p50=" ++ Figure.latency l.p50 ++ " p90=" ++ Figure.latency l.p90 ++ " p95=" ++ Figure.latency l.p95 ++
      " p99=" ++ Figure.latency l.p99 ++ " mean=" ++ Figure.latency l.mean ++ " max=" ++ Figure.latency l.max ++
      s!" (n={l.count})"

/-- the checks, if there were any -/
def checkLines (s : Metrics.Snapshot) : List String :=
  if s.checksPassed + s.checksFailed = 0 then []
  else [s!"  checks: pass={s.checksPassed} fail={s.checksFailed} (" ++ Figure.percent s.checksRate? ++ ")"]

/-- the classes that came up, with their counts -/
def classLines (c : Metrics.ClassCounts) : List String :=
  (Metrics.OutcomeClass.all.filter fun k => 0 < c.get k).map fun k =>
    "  " ++ k.name ++ " [" ++ k.label ++ s!"]: {c.get k}"

/-- the lines after a run -/
def summary (r : Report) : List String :=
  let s := r.snapshot
  let reason := match r.cancelReason with
    | some text => " (" ++ text ++ ")"
    | none => ""
  ["summary",
    "scenario: " ++ r.scenario ++ " (" ++ r.model.name ++ ")",
    "  state: " ++ r.phase.name ++ reason,
    "  duration: " ++ Phrase.write (wholeMillis r.duration),
    s!"  iterations: {s.iterations} (dropped {s.dropped}, interrupted {s.interrupted})",
    "  rate: " ++ Figure.rate s.rate ++ "/s (per-second avg=" ++ Figure.rate s.rateSummary.avg ++ " stdev=" ++
      Figure.rate s.rateSummary.stdev ++ " max=" ++ Figure.rate s.rateSummary.max ++ ")",
    s!"  failed: {s.classes.failed} (" ++ Figure.percent s.failedRate? ++ ")",
    "  bytes: recv " ++ Figure.bytes s.bytes,
    s!"  vus: peak {r.pool.peak} / max {r.pool.maxVus} (allocated {r.pool.allocated})"] ++
    checkLines s ++ [latencyLine s.latency] ++ ["", "classes"] ++ classLines s.classes ++
    titled "status codes" (s.statusCodes.map fun c => s!"  {c.1}: {c.2}") ++
    titled "thresholds" (r.verdicts.map verdictLine)

/-- a failed threshold -/
def failureLine (v : Threshold.Verdict) : String :=
  let observed := match v.observed with
    | some x => " (observed " ++ Decimal.Layout.bare.text x ++ ")"
    | none => " (no data)"
  "  " ++ v.threshold.text ++ observed

/-- the failed thresholds of a run, if there are any -/
def failures (r : Report) : List String :=
  let failed := r.verdicts.filter fun v => !v.passed
  if failed.isEmpty then [] else "thresholds failed:" :: failed.map failureLine

end LoadGen.Human
