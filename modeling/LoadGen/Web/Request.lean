/-
Requests as a scenario describes them, the request that is sent for one, and the faults of an exchange. Building a
request reads its URL twice, for the host and for the target, and both readings must succeed.
-/
import LoadGen.Time.Duration
import LoadGen.Decimal.Numeral
import LoadGen.Web.Target
import LoadGen.Web.Token
import LoadGen.Web.Url

namespace LoadGen.Web

/-- a request of a scenario -/
structure RequestSpec where
  method : Method
  url : String
  headers : List (String × String)
  body : String
  /-- the statuses that pass the request's check; without any there is no check -/
  expectStatus : List Nat
  deriving DecidableEq

/-- the kinds of transport fault -/
inductive TransportKind where
  | invalidUrl
  | unsupportedScheme
  | requestBuild
  | connect
  | request
  | timeout
  | bodyRead
  deriving DecidableEq, Repr

namespace TransportKind

def name : TransportKind → String
  | invalidUrl => "invalid_url"
  | unsupportedScheme => "unsupported_scheme"
  | requestBuild => "request_build"
  | connect => "connect"
  | request => "request"
  | timeout => "timeout"
  | bodyRead => "body_read"

def all : List TransportKind :=
  [invalidUrl, unsupportedScheme, requestBuild, connect, request, timeout, bodyRead]

def ofName? (s : String) : Option TransportKind :=
  all.find? fun k => k.name = s

end TransportKind

/-- what can go wrong in an exchange -/
inductive TransportError where
  | invalidUrl (url : String)
  | unsupportedScheme (url : String)
  /-- the parts of the request do not go together -/
  | requestBuild (cause : String)
  | headerName
  | headerValue
  /-- no connection to the target -/
  | connect
  /-- what else the client may meet before it has the head of a response -/
  | request (fault : String)
  | timeout (after : Duration)
  /-- the body of the response ends in a fault -/
  | bodyRead (cause : String)
  deriving DecidableEq

/-- a span in its largest unit of `s`, `ms`, `µs` and `ns`, with all its digits -/
def spanText (d : Duration) : String :=
  let digits := fun (whole part places : Nat) (unit : String) =>
    let padded := List.replicate (places - (Decimal.ofNat part).length) '0' ++ Decimal.ofNat part
    let fraction := (padded.reverse.dropWhile (· = '0')).reverse
    toString whole ++ (if fraction.isEmpty then "" else "." ++ String.ofList fraction) ++ unit
  if 0 < d.secs then digits d.secs d.subsecNanos 9 "s"
  else if 1000000 ≤ d.nanos then digits (d.nanos / 1000000) (d.nanos % 1000000) 6 "ms"
  else if 1000 ≤ d.nanos then digits (d.nanos / 1000) (d.nanos % 1000) 3 "µs"
  else toString d.nanos ++ "ns"

namespace TransportError

def kind : TransportError → TransportKind
  | invalidUrl _ => .invalidUrl
  | unsupportedScheme _ => .unsupportedScheme
  | requestBuild _ | headerName | headerValue => .requestBuild
  | connect => .connect
  | request _ => .request
  | timeout _ => .timeout
  | bodyRead _ => .bodyRead

/-- a header more than a request holds -/
def tooManyHeaders : TransportError :=
  .requestBuild "max size reached"

def message : TransportError → String
  | invalidUrl url => "invalid url: " ++ url
  | unsupportedScheme url => "only http:// and https:// URLs are supported: " ++ url
  | requestBuild cause => "http request build failed: " ++ cause
  | headerName => "invalid http header name: invalid HTTP header name"
  | headerValue => "invalid http header value: failed to parse header value"
  | connect => "http request failed: client error (Connect)"
  | request fault => "http request failed: client error (" ++ fault ++ ")"
  | timeout after => "http request timed out after " ++ spanText after
  | bodyRead cause => "failed to read response body: " ++ cause

def isTimeout : TransportError → Bool
  | timeout _ => true
  | _ => false

end TransportError

/-- a request to send -/
structure BuiltRequest where
  method : Method
  target : Target
  /-- in the order they are added; names are in lower case -/
  headers : List (String × String)
  body : String
  deriving DecidableEq

/-- the host header of a URL -/
def hostHeader (u : Url) : List (String × String) :=
  match u.host, u.port with
  | none, _ => []
  | some h, none => [("host", h.text)]
  | some h, some p => [("host", h.text ++ ":" ++ toString p)]

/-- a header as it is sent -/
def sentHeader (h : String × String) : Except TransportError (String × String) :=
  match headerName? h.1 with
  | none => .error .headerName
  | some name => if isHeaderValue h.2 then .ok (name, h.2) else .error .headerValue

/-- how many names the headers of a request may have: three quarters of the largest table, of `2 ^ 15` places -/
def mostHeaderNames : Nat := 24576

/-- headers that a request holds: when one is added there is room for one more name, also if its own is there -/
def haveRoom (headers : List (String × String)) : Bool :=
  (headers.dropLast.map Prod.fst).eraseDups.length < mostHeaderNames

/-- the request that is sent for a request of a scenario; the URL's host is a header unless the scenario has one. A fault
of a single header is found before there are too many. -/
def RequestSpec.build (r : RequestSpec) : Except TransportError BuiltRequest :=
  match Url.read? r.url with
  | none => .error (.invalidUrl r.url)
  | some u =>
    if !u.isWeb then .error (.unsupportedScheme r.url)
    else match Target.read? r.url with
      | none => .error (.invalidUrl r.url)
      | some target => do
        let named := r.headers.any fun h => Text.sameIgnoringCase h.1.toList "host".toList
        let own ← r.headers.mapM sentHeader
        let headers := (if named then [] else hostHeader u) ++ own
        if haveRoom headers then .ok ⟨r.method, target, headers, r.body⟩ else .error .tooManyHeaders

end LoadGen.Web
