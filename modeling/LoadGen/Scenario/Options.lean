/-
Options of a scenario, as a document states them: nothing is checked and nothing filled in. Overrides come from the
command line and win over the document. Headers are a map from texts, kept as a list in ascending order of its keys,
each key once; keys compare by code points.
-/
import LoadGen.Arrival.Model
import LoadGen.Scenario.ThinkTime

namespace LoadGen

/-- texts with their values, ascending -/
abbrev Ordered (α : Type) := List (String × α)

namespace Ordered

variable {α : Type}

/-- `value` for `key`, in place of any before -/
def put (key : String) (value : α) : Ordered α → Ordered α
  | [] => [(key, value)]
  | (k, v) :: rest =>
    if key < k then (key, value) :: (k, v) :: rest
    else if key = k then (key, value) :: rest
    else (k, v) :: put key value rest

/-- the value for `key` -/
def get? (key : String) : Ordered α → Option α
  | [] => none
  | (k, v) :: rest => if key = k then some v else get? key rest

/-- a map of some pairs; of two with one key the later counts -/
def ofPairs (pairs : List (String × α)) : Ordered α :=
  pairs.foldl (fun m p => put p.1 p.2 m) []

end Ordered

/-- a request as a document states it -/
structure RequestOptions where
  method : Option String := none
  url : String
  headers : Ordered String := []
  body : Option String := none
  expectStatus : List Nat := []
  deriving DecidableEq

/-- the expressions for one metric -/
structure ThresholdOptions where
  metric : String
  expressions : List String
  deriving DecidableEq

/-- a scenario as a document states it -/
structure ScenarioOptions where
  name : Option String := none
  executor : Option String := none
  rate : Option Nat := none
  timeUnit : Option Duration := none
  duration : Option Duration := none
  vus : Option Nat := none
  stages : List Stage := []
  startVus : Option Nat := none
  startRate : Option Nat := none
  preAllocated : Option Nat := none
  maxVus : Option Nat := none
  gracefulStop : Option Duration := none
  thinkTime : Option ThinkTime := none
  timeout : Option Duration := none
  seed : Option Nat := none
  failFast : Option Nat := none
  requests : List RequestOptions := []
  thresholds : List ThresholdOptions := []
  deriving DecidableEq

/-- what the command line sets -/
structure Overrides where
  duration : Option Duration := none
  url : Option String := none
  timeout : Option Duration := none
  deriving DecidableEq

end LoadGen
