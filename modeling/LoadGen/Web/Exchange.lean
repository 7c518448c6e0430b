/-
Exchanges: what came back for a request, or what went wrong, and the outcome that either one counts as.
-/
import LoadGen.Metrics.Outcome
import LoadGen.Web.Request

namespace LoadGen.Web

/-- a response -/
structure Response where
  status : Nat
  /-- bytes in its body -/
  bytes : Nat
  deriving DecidableEq, Repr

/-- what an exchange came to -/
abbrev Exchange := Except TransportError Response

/-- which iteration an exchange belongs to, and when it took place -/
structure Iteration where
  seq : Nat
  vu : Nat
  startedAt : Duration
  latency : Duration

open Metrics

/-- the outcome of an exchange, before any check -/
def plainOutcome (i : Iteration) : Exchange → Outcome
  | .ok r => { Outcome.response i.seq i.vu r.status i.startedAt i.latency with bytes := r.bytes }
  | .error e =>
    let kind := if e.isTimeout then OutcomeClass.timeout else .networkError
    Outcome.failure i.seq i.vu kind e.kind.name i.startedAt i.latency

/-- the outcome of an exchange: a request with expected statuses is checked, and without a response it fails -/
def classify (r : RequestSpec) (i : Iteration) (x : Exchange) : Outcome :=
  let o := plainOutcome i x
  if r.expectStatus.isEmpty then o
  else { o with check := some (o.status.any fun s => r.expectStatus.contains s) }

end LoadGen.Web
