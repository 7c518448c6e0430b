/-
The stub server: a target for trying out scenarios, whose answers depend on the path, on the query, and for quotas on
what the client asked for before. A request with a method or a query that the endpoint does not take is refused and not
counted.
-/
import LoadGen.Json
import LoadGen.Stub.Quota
import LoadGen.Stub.Urls
import LoadGen.Web.Form

namespace LoadGen.Stub

/-- a request to the server -/
structure Incoming where
  method : String
  path : String
  query : String
  /-- the value of its header `x-forwarded-for` -/
  forwardedFor : Option String
  /-- the address that it comes from -/
  peer : String
  deriving DecidableEq

/-- what the server answers -/
structure Answer where
  status : Nat
  contentType : Option String
  body : String
  /-- how long the client waits for it -/
  after : Duration := .zero
  deriving DecidableEq

/-- the server's counters -/
structure Server where
  /-- requests that reached an endpoint -/
  requests : Nat := 0
  /-- requests refused for being too many -/
  limited : Nat := 0
  quotas : Quotas := {}
  deriving DecidableEq

/-- a header value of visible characters -/
def isVisible (s : String) : Bool :=
  s.toList.all fun c => (32 ≤ c.toNat && c.toNat < 127) || c = '\t'

/-- who asks: as a proxy says, if it says so in visible characters, else by address -/
def Incoming.client (r : Incoming) : String :=
  (r.forwardedFor.filter fun v => isVisible v && !v.isEmpty).getD r.peer

namespace Answer

def text (body : String) : Answer :=
  ⟨200, some "text/plain; charset=utf-8", body, .zero⟩

/-- an error with its code and its message -/
def error (status : Nat) (code message : String) : Answer :=
  ⟨status, some "application/json", (Json.obj [("code", .str code), ("message", .str message)]).render, .zero⟩

def tooMany : Answer := error 429 "RATE_LIMITED" "Too many requests"

def internal : Answer := error 500 "INTERNAL" "Internal error"

def notFound : Answer := ⟨404, none, "", .zero⟩

def wrongMethod : Answer := ⟨405, none, "", .zero⟩

def badQuery : Answer := ⟨400, some "text/plain; charset=utf-8", "Failed to deserialize query string", .zero⟩

/-- the answer to a request for the head alone -/
def head (a : Answer) : Answer :=
  { a with body := "" }

end Answer

namespace Server

/-- a hit on the quota endpoint -/
def quota (s : Server) (now : Duration) (r : Incoming) (limit : Nat) : Server × Answer :=
  let (quotas, hits) := s.quotas.hit ⟨r.client, r.path⟩ now
  if limit < hits then ({ s with quotas, limited := s.limited + 1 }, .tooMany)
  else ({ s with quotas }, .text "ok")

/-- a request to an endpoint -/
def reach (s : Server) (now : Duration) (r : Incoming) (e : Endpoint) : Server × Answer :=
  let counted := { s with requests := s.requests + 1 }
  match e with
  | .health => (counted, .text "ok")
  | .limited => ({ counted with limited := s.limited + 1 }, .tooMany)
  | .fail => (counted, .internal)
  | .slow => match Web.Form.word? "ms" r.query with
    | none => (s, .badQuery)
    | some millis => (counted, { Answer.text "slow" with after := .ofMillis (millis.getD 50) })
  | .quota => match Web.Form.word? "limit" r.query with
    | none => (s, .badQuery)
    | some limit => counted.quota now r (limit.getD 60)

/-- a request at an instant -/
def answer (s : Server) (now : Duration) (r : Incoming) : Server × Answer :=
  match Endpoint.ofPath? r.path with
  | none => (s, .notFound)
  | some e =>
    if r.method = "GET" then s.reach now r e
    else if r.method = "HEAD" then ((s.reach now r e).1, (s.reach now r e).2.head)
    else (s, .wrongMethod)

end Server

end LoadGen.Stub
