/-
The life of a run: configured, running, draining, and in the end completed or cancelled. A stop is asked for once, by a
caller or by a streak of failures, and its reason is kept; an abort is a stop that abandons what is in flight. Outcomes
are aggregated here, also those that come after a stop.
-/
import LoadGen.Metrics.Aggregate

namespace LoadGen

/-- the phases of a run -/
inductive Phase where
  | configured
  | running
  | draining
  | completed
  | cancelled
  deriving DecidableEq, Repr

namespace Phase

def name : Phase → String
  | configured => "configured"
  | running => "running"
  | draining => "draining"
  | completed => "completed"
  | cancelled => "cancelled"

/-- the run is over -/
def isTerminal : Phase → Bool
  | completed | cancelled => true
  | configured | running | draining => false

end Phase

/-- a run's phase, signals and figures -/
structure Lifecycle where
  seed : Nat
  /-- failures in a row after which the run stops itself -/
  failFast : Option Nat
  phase : Phase := .configured
  /-- the clock runs -/
  started : Bool := false
  /-- a stop was asked for -/
  stopped : Bool := false
  /-- an abort was asked for -/
  aborted : Bool := false
  /-- why the run was stopped -/
  reason : Option String := none
  /-- fatal outcomes since the last one that was not -/
  streak : Nat := 0
  metrics : Metrics.Aggregate := {}

/-- a run cannot be started again -/
structure AlreadyStarted where
  phase : Phase
  deriving DecidableEq, Repr

def AlreadyStarted.message (e : AlreadyStarted) : String :=
  "run already started (state: " ++ e.phase.name ++ ")"

namespace Lifecycle

/-- start the clock -/
def start (l : Lifecycle) : Except AlreadyStarted Lifecycle :=
  match l.phase with
  | .configured => .ok { l with phase := .running, started := true }
  | phase => .error ⟨phase⟩

/-- no more dispatches; says whether the run was running -/
def beginDrain (l : Lifecycle) : Lifecycle × Bool :=
  match l.phase with
  | .running => ({ l with phase := .draining }, true)
  | _ => (l, false)

/-- end the run: cancelled if a stop was asked for, else completed; a run that is over stays as it is -/
def finish (l : Lifecycle) : Lifecycle :=
  if l.phase.isTerminal then l
  else { l with phase := if l.stopped then .cancelled else .completed }

/-- ask for a stop; says whether this call was the one that did -/
def cancel (l : Lifecycle) (reason : String) : Lifecycle × Bool :=
  if l.phase.isTerminal then (l, false)
  else ({ l with stopped := true, reason := some (l.reason.getD reason) }, !l.stopped)

/-- ask for an abort; says whether this call was the one that did -/
def abort (l : Lifecycle) (reason : String) : Lifecycle × Bool :=
  if l.phase.isTerminal then (l, false)
  else ({ (l.cancel reason).1 with aborted := true }, !l.aborted)

/-- why a run stops itself -/
def streakReason (n : Nat) : String :=
  toString n ++ " consecutive failed iterations"

/-- count an outcome into the streak of failures -/
def track (l : Lifecycle) (o : Metrics.Outcome) : Lifecycle :=
  match l.failFast with
  | none => l
  | some limit =>
    if o.kind.isFatal then
      let l := { l with streak := l.streak + 1 }
      if limit ≤ l.streak then (l.cancel (streakReason l.streak)).1 else l
    else { l with streak := 0 }

/-- take in an outcome -/
def emit (l : Lifecycle) (o : Metrics.Outcome) : Lifecycle :=
  track { l with metrics := l.metrics.ingest o } o

/-- what may be asked of a run -/
inductive Op where
  | start
  | beginDrain
  | finish
  | cancel (reason : String)
  | abort (reason : String)
  | emit (o : Metrics.Outcome)

/-- what is answered -/
inductive Reply where
  | started
  | refused (e : AlreadyStarted)
  | flag (b : Bool)
  | phase (p : Phase)
  | nothing

/-- one call, with its answer -/
def step (l : Lifecycle) : Op → Lifecycle × Reply
  | .start => match l.start with
    | .ok l => (l, .started)
    | .error e => (l, .refused e)
  | .beginDrain => (l.beginDrain.1, .flag l.beginDrain.2)
  | .finish => (l.finish, .phase l.finish.phase)
  | .cancel reason => ((l.cancel reason).1, .flag (l.cancel reason).2)
  | .abort reason => ((l.abort reason).1, .flag (l.abort reason).2)
  | .emit o => (l.emit o, .nothing)

/-- a run after some calls -/
def run (l : Lifecycle) (ops : List Op) : Lifecycle :=
  ops.foldl (fun l op => (l.step op).1) l

/-! ## The figures: outcomes alone change them -/

theorem metrics_start {l l' : Lifecycle} (h : l.start = .ok l') : l'.metrics = l.metrics := by
  unfold start at h
  split at h <;> cases h
  rfl

@[simp] theorem metrics_beginDrain (l : Lifecycle) : l.beginDrain.1.metrics = l.metrics := by
  unfold beginDrain; split <;> rfl

@[simp] theorem metrics_finish (l : Lifecycle) : l.finish.metrics = l.metrics := by
  unfold finish; split <;> rfl

@[simp] theorem metrics_cancel (l : Lifecycle) (reason : String) : (l.cancel reason).1.metrics = l.metrics := by
  unfold cancel; split <;> rfl

@[simp] theorem metrics_abort (l : Lifecycle) (reason : String) : (l.abort reason).1.metrics = l.metrics := by
  unfold abort
  split
  · rfl
  · exact l.metrics_cancel reason

@[simp] theorem metrics_track (l : Lifecycle) (o : Metrics.Outcome) : (l.track o).metrics = l.metrics := by
  unfold track
  split
  · rfl
  · split
    · simp only; split
      · exact metrics_cancel _ _
      · rfl
    · rfl

@[simp] theorem metrics_emit (l : Lifecycle) (o : Metrics.Outcome) : (l.emit o).metrics = l.metrics.ingest o :=
  metrics_track _ _

end Lifecycle

end LoadGen
