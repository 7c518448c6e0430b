/-
Outcomes: what one iteration came to. Every outcome falls into exactly one of five classes; a response is classed by its
status code alone.
-/
import LoadGen.Time.Duration

namespace LoadGen.Metrics

/-- the classes of outcome -/
inductive OutcomeClass where
  /-- a response with a status below 400 -/
  | successStatus
  /-- a response with a status from 400 to 499 -/
  | clientErrorStatus
  /-- a response with any other status -/
  | serverErrorStatus
  /-- no response: connecting, sending or reading failed -/
  | networkError
  /-- no response within the request's timeout -/
  | timeout
  deriving DecidableEq, Repr

namespace OutcomeClass

/-- every class, in the order of reports -/
def all : List OutcomeClass :=
  [successStatus, clientErrorStatus, serverErrorStatus, networkError, timeout]

/-- the class of a response -/
def ofStatus (status : Nat) : OutcomeClass :=
  if status < 400 then successStatus
  else if status < 500 then clientErrorStatus
  else serverErrorStatus

def name : OutcomeClass → String
  | successStatus => "success-status"
  | clientErrorStatus => "client-error-status"
  | serverErrorStatus => "server-error-status"
  | networkError => "network-error"
  | timeout => "timeout"

/-- the class of a name -/
def ofName? (s : String) : Option OutcomeClass :=
  all.find? fun c => c.name = s

/-- the short name in histograms of classes -/
def label : OutcomeClass → String
  | successStatus => "2xx"
  | clientErrorStatus => "4xx"
  | serverErrorStatus => "5xx"
  | networkError => "error"
  | timeout => "timeout"

def isFailure (c : OutcomeClass) : Bool :=
  c ≠ successStatus

/-- a failure that says the target is unwell: a run may stop after a streak of these -/
def isFatal : OutcomeClass → Bool
  | serverErrorStatus | networkError | timeout => true
  | successStatus | clientErrorStatus => false

end OutcomeClass

/-- what one iteration came to -/
structure Outcome where
  /-- dispatch number of the iteration -/
  seq : Nat
  /-- worker slot that ran it -/
  vu : Nat
  kind : OutcomeClass
  /-- status code, if there was a response -/
  status : Option Nat
  /-- what went wrong, if there was none -/
  error : Option String
  /-- start of the request, from the start of the run -/
  startedAt : Duration
  latency : Duration
  bytes : Nat
  /-- whether the status was an expected one, if the request says which are -/
  check : Option Bool
  deriving DecidableEq

namespace Outcome

/-- the outcome of a response -/
def response (seq vu status : Nat) (startedAt latency : Duration) : Outcome :=
  ⟨seq, vu, .ofStatus status, some status, none, startedAt, latency, 0, none⟩

/-- the outcome of a request without a response -/
def failure (seq vu : Nat) (kind : OutcomeClass) (error : String) (startedAt latency : Duration) : Outcome :=
  ⟨seq, vu, kind, none, some error, startedAt, latency, 0, none⟩

/-- end of the request, from the start of the run -/
def completedAt (o : Outcome) : Duration :=
  o.startedAt + o.latency

end Outcome

end LoadGen.Metrics
