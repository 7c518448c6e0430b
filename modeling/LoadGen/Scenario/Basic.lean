/-
Scenarios: checked descriptions of a run. A scenario comes from options by filling in defaults and checking, in a fixed
order, so that of several faults always the same one is reported.
-/
import LoadGen.Scenario.Error
import LoadGen.Scenario.Options
import LoadGen.Web.Request

namespace LoadGen

open Web

/-- a description of a run -/
structure Scenario where
  name : String
  model : ArrivalModel
  /-- iteration `n` performs request `n`, starting over after the last -/
  requests : List RequestSpec
  timeout : Duration
  thinkTime : ThinkTime
  /-- the longest that draining may take -/
  gracefulStop : Duration
  seed : Nat
  /-- failures in a row after which the run stops itself -/
  failFast : Option Nat
  thresholds : List Threshold

/-- some stages, each of which takes time -/
def checkStages (stages : List Stage) : Except ScenarioError Unit :=
  if stages.isEmpty then .error .stages
  else match stages.findIdx? fun s => s.duration.isZero with
    | some i => .error (.stageDuration (i + 1))
    | none => .ok ()

/-- at least one slot at most, and no more from the start -/
def checkBounds (preAllocated maxVus : Nat) : Except ScenarioError Unit :=
  if maxVus = 0 ∨ maxVus < preAllocated then .error .maxVus else .ok ()

def ArrivalModel.check : ArrivalModel → Except ScenarioError Unit
  | constantArrivalRate rate timeUnit duration preAllocated maxVus =>
    if rate = 0 then .error .rate
    else if timeUnit.isZero then .error .timeUnit
    else if duration.isZero then .error .duration
    else checkBounds preAllocated maxVus
  | rampingArrivalRate _ timeUnit stages preAllocated maxVus =>
    if timeUnit.isZero then .error .timeUnit
    else do
      checkStages stages
      checkBounds preAllocated maxVus
  | constantVus vus duration =>
    if vus = 0 then .error .vus
    else if duration.isZero then .error .duration
    else .ok ()
  | rampingVus startVus stages => do
    checkStages stages
    if peakTarget startVus stages = 0 then .error .vus else .ok ()

/-- a header that can be sent -/
def checkHeader (h : String × String) : Except ScenarioError Unit :=
  if (headerName? h.1).isSome ∧ isHeaderValue h.2 then .ok () else .error (.header h.1)

def Web.RequestSpec.check (r : RequestSpec) : Except ScenarioError Unit :=
  match Url.read? r.url with
  | none => .error (.url r.url)
  | some u => if u.isWeb then r.headers.forM checkHeader else .error (.url r.url)

/-- a range of pauses that is none -/
def ThinkTime.isBackwards : ThinkTime → Bool
  | uniform least most => most < least
  | _ => false

namespace Scenario

/-- what must hold of every scenario that runs -/
def check (s : Scenario) : Except ScenarioError Unit := do
  s.model.check
  if s.requests.isEmpty then .error .missingRequest
  s.requests.forM RequestSpec.check
  if s.timeout.isZero then .error .timeout
  if s.thinkTime.isBackwards then .error .thinkTime
  if s.failFast = some 0 then .error .failFast

/-- the request of iteration `n` -/
def requestFor? (s : Scenario) (n : Nat) : Option RequestSpec :=
  s.requests[n % s.requests.length]?

/-- a scenario that runs has requests -/
theorem requests_ne_nil {s : Scenario} (h : s.check = .ok ()) : s.requests ≠ [] := by
  intro hnil
  cases hm : s.model.check with
  | error e => simp only [check, hm] at h; cases h
  | ok u => simp only [check, hm, hnil] at h; cases h

/-- every iteration has a request, if there are any -/
theorem requestFor?_isSome {s : Scenario} (h : s.requests ≠ []) (n : Nat) : (s.requestFor? n).isSome := by
  have hlen : 0 < s.requests.length := List.length_pos_iff.2 h
  rw [requestFor?, List.getElem?_eq_getElem (Nat.mod_lt n hlen)]
  rfl

end Scenario

namespace ScenarioOptions

/-- the kind of arrival model that some options ask for, by name or by the options that are there -/
def modelKind (o : ScenarioOptions) : Except ScenarioError ModelKind :=
  match o.executor with
  | some name => match ModelKind.ofName? name with
    | some kind => .ok kind
    | none => .error (.executor name)
  | none =>
    if !o.stages.isEmpty then .ok (if o.startRate.isSome then .rampingArrivalRate else .rampingVus)
    else if o.rate.isSome then .ok .constantArrivalRate
    else .ok .constantVus

/-- worker slots from the start, and at most -/
def slots (o : ScenarioOptions) : Nat × Nat :=
  let most := (o.maxVus.or o.preAllocated).getD 1
  (o.preAllocated.getD (min most 1), most)

/-- the arrival model of a kind, with its defaults -/
def model (o : ScenarioOptions) (duration : Duration) : ModelKind → ArrivalModel
  | .constantArrivalRate =>
    .constantArrivalRate (o.rate.getD 0) (o.timeUnit.getD (.ofSecs 1)) duration o.slots.1 o.slots.2
  | .rampingArrivalRate =>
    .rampingArrivalRate (o.startRate.getD 0) (o.timeUnit.getD (.ofSecs 1)) o.stages o.slots.1 o.slots.2
  | .constantVus => .constantVus (o.vus.getD 1) duration
  | .rampingVus => .rampingVus (o.startVus.getD 0) o.stages

end ScenarioOptions

/-- a request with its defaults; its URL may be overridden -/
def RequestOptions.resolve (override : Option String) (r : RequestOptions) : Except ScenarioError RequestSpec :=
  let withMethod := fun method : Method =>
    (⟨method, override.getD r.url, r.headers, r.body.getD "", r.expectStatus⟩ : RequestSpec)
  match r.method with
  | none => .ok (withMethod .get)
  | some text => match Method.read? text with
    | some method => .ok (withMethod method)
    | none => .error (.method text)

/-- the thresholds for one metric -/
def ThresholdOptions.resolve (t : ThresholdOptions) : Except ScenarioError (List Threshold) :=
  t.expressions.mapM fun e => (Threshold.read t.metric e).mapError .threshold

namespace Scenario

/-- the name of a scenario without one -/
def defaultName : String := "default"

/-- the scenario that some options and overrides describe -/
def ofOptions (o : ScenarioOptions) (v : Overrides) : Except ScenarioError Scenario := do
  let kind ← o.modelKind
  if v.duration.isSome ∧ !o.stages.isEmpty then .error .durationOverride
  let requests ← o.requests.mapM (RequestOptions.resolve v.url)
  let thresholds ← o.thresholds.mapM ThresholdOptions.resolve
  let s : Scenario :=
    { name := o.name.getD defaultName
      model := o.model ((v.duration.or o.duration).getD .zero) kind
      requests
      timeout := (v.timeout.or o.timeout).getD (.ofSecs 60)
      thinkTime := o.thinkTime.getD .none
      gracefulStop := o.gracefulStop.getD (.ofSecs 30)
      seed := o.seed.getD 0
      failFast := o.failFast
      thresholds := thresholds.flatten }
  s.check
  pure s

end Scenario

end LoadGen
