/-
Reports for programs: one line of JSON per update and one for the summary.
-/
import LoadGen.Json
import LoadGen.Report.Basic
import LoadGen.Scenario.Options

namespace LoadGen.Line

/-- a run in progress -/
def progress (u : Update) : Json :=
  let s := u.snapshot
  .obj [("kind", .str "progress"),
    ("tick", .nat u.tick),
    ("state", .str u.phase.name),
    ("elapsed_secs", .real u.elapsed.toSeconds),
    ("total_secs", .real u.total.toSeconds),
    ("active_vus", .nat u.pool.active),
    ("allocated_vus", .nat u.pool.allocated),
    ("max_vus", .nat u.pool.maxVus),
    ("iterations", .nat s.iterations),
    ("dropped_iterations", .nat s.dropped),
    ("failed", .nat s.classes.failed),
    ("rate", .real s.rate),
    ("latency_p50", .option .real s.latency.p50),
    ("latency_p95", .option .real s.latency.p95),
    ("latency_p99", .option .real s.latency.p99),
    ("thresholds_failing", .nat u.failing)]

/-- the figures of a latency histogram, in milliseconds -/
def latency (l : Metrics.LatencySummary) : Json :=
  .obj [("count", .nat l.count),
    ("min", .option .real l.min),
    ("max", .option .real l.max),
    ("mean", .option .real l.mean),
    ("stdev", .option .real l.stdev),
    ("p50", .option .real l.p50),
    ("p90", .option .real l.p90),
    ("p95", .option .real l.p95),
    ("p99", .option .real l.p99)]

/-- every class with its count, ascending by name -/
def classes (c : Metrics.ClassCounts) : Json :=
  .obj (Ordered.ofPairs (Metrics.OutcomeClass.all.map fun k => (k.name, .nat (c.get k))))

/-- the status codes that came up, ascending as texts -/
def statusCodes (t : Metrics.Tally) : Json :=
  .obj (Ordered.ofPairs (t.map fun c => (toString c.1, .nat c.2)))

def verdict (v : Threshold.Verdict) : Json :=
  .obj [("metric", .str v.threshold.metric),
    ("expression", .str v.threshold.expression),
    ("passed", .bool v.passed),
    ("observed", .option .real v.observed)]

/-- a run that is over -/
def summary (r : Report) : Json :=
  let s := r.snapshot
  .obj [("kind", .str "summary"),
    ("scenario", .str r.scenario),
    ("model", .str r.model.name),
    ("state", .str r.phase.name),
    ("cancel_reason", .option .str r.cancelReason),
    ("duration_secs", .real r.duration.toSeconds),
    ("iterations", .nat s.iterations),
    ("dropped_iterations", .nat s.dropped),
    ("interrupted_iterations", .nat s.interrupted),
    ("classes", classes s.classes),
    ("status_codes", statusCodes s.statusCodes),
    ("checks_passed", .nat s.checksPassed),
    ("checks_failed", .nat s.checksFailed),
    ("bytes_received", .nat s.bytes),
    ("rate", .real s.rate),
    ("rate_per_sec_avg", .real s.rateSummary.avg),
    ("rate_per_sec_stdev", .real s.rateSummary.stdev),
    ("rate_per_sec_max", .real s.rateSummary.max),
    ("latency", latency s.latency),
    ("peak_vus", .nat r.pool.peak),
    ("allocated_vus", .nat r.pool.allocated),
    ("max_vus", .nat r.pool.maxVus),
    ("thresholds_passed", .bool r.passed),
    ("thresholds", .arr (r.verdicts.map verdict))]

end LoadGen.Line
