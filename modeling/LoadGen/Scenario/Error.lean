/-
What can be wrong with a scenario. Every fault is found before a run starts.
-/
import LoadGen.Threshold.Reader

namespace LoadGen

/-- a fault of a scenario -/
inductive ScenarioError where
  | executor (name : String)
  | rate
  | timeUnit
  | duration
  | vus
  | maxVus
  | stages
  /-- the number of the stage, from one -/
  | stageDuration (number : Nat)
  | durationOverride
  | missingRequest
  | url (text : String)
  | method (text : String)
  | header (name : String)
  | timeout
  | thinkTime
  | failFast
  | threshold (r : Threshold.Refusal)

def ScenarioError.message : ScenarioError → String
  | executor name =>
    "invalid `executor` `" ++ name ++
      "` (expected `constant-arrival-rate`, `ramping-arrival-rate`, `constant-vus`, or `ramping-vus`)"
  | rate => "`rate` must be a positive integer"
  | timeUnit => "`timeUnit` must be a positive duration"
  | duration => "`duration` must be a positive duration"
  | vus => "`vus` must be a positive integer"
  | maxVus => "`maxVUs` must be >= `preAllocatedVUs` and at least 1"
  | stages => "`stages` must be a non-empty array of \x7b duration, target \x7d"
  | stageDuration number => "stage #" ++ toString number ++ " must have a positive duration"
  | durationOverride => "`--duration` cannot override a staged scenario"
  | missingRequest => "scenario has no request (set `url`, `request`, or `requests`)"
  | url text => "invalid request url `" ++ text ++ "` (expected http:// or https://)"
  | method text => "invalid request method `" ++ text ++ "`"
  | header name => "invalid request header `" ++ name ++ "`"
  | timeout => "`timeout` must be a positive duration"
  | thinkTime => "`thinkTime` range must satisfy min <= max"
  | failFast => "`abortOnConsecutiveFailures` must be a positive integer"
  | threshold r => r.message

end LoadGen
