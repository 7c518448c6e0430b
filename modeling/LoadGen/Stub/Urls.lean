/-
Endpoints of the stub server and their URLs.
-/
namespace LoadGen.Stub

/-- what the stub server can be asked for -/
inductive Endpoint where
  /-- always answers -/
  | health
  /-- always refuses for too many requests -/
  | limited
  /-- answers after a while -/
  | slow
  /-- always fails -/
  | fail
  /-- answers up to a number of times a minute -/
  | quota
  deriving DecidableEq, Repr

namespace Endpoint

def all : List Endpoint :=
  [health, limited, slow, fail, quota]

def path : Endpoint → String
  | health => "/health"
  | limited => "/limited"
  | slow => "/slow"
  | fail => "/fail"
  | quota => "/quota"

/-- the endpoint at a path -/
def ofPath? (path : String) : Option Endpoint :=
  all.find? fun e => e.path = path

/-- the URL of an endpoint below a base -/
def url (e : Endpoint) (base : String) : String :=
  base ++ e.path

end Endpoint

/-- the slow endpoint with a delay in milliseconds -/
def slowUrl (base : String) (millis : Nat) : String :=
  Endpoint.slow.url base ++ s!"?ms={millis}"

/-- the quota endpoint with a number of requests per client and minute -/
def quotaUrl (base : String) (limit : Nat) : String :=
  Endpoint.quota.url base ++ s!"?limit={limit}"

end LoadGen.Stub
