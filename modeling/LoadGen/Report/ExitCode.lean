/-
Exit codes: what the program tells its caller. A run that was cut short is not judged by its thresholds.
-/
import LoadGen.Report.Basic

namespace LoadGen

/-- the ways in which the program ends -/
inductive ExitCode where
  | success
  | thresholdsFailed
  | cancelled
  | invalidInput
  | runtimeError
  /-- the program itself broke -/
  | crashed
  deriving DecidableEq, Repr

namespace ExitCode

def toNat : ExitCode → Nat
  | success => 0
  | thresholdsFailed => 11
  | cancelled => 13
  | invalidInput => 30
  | runtimeError => 40
  | crashed => 101

/-- the code of a run that came to an end -/
def ofOutcome (wasCancelled failed : Bool) : ExitCode :=
  if wasCancelled then cancelled
  else if failed then thresholdsFailed
  else success

/-- the code of a report -/
def ofReport (r : Report) : ExitCode :=
  ofOutcome r.isCancelled (!r.passed)

end ExitCode

end LoadGen
