/-
Reading thresholds. An expression is read without its blanks: `in{..}` or `in[..]` with a comma list for status codes,
and `aggregation operator value` for every other metric, where a two-character operator anywhere wins over a
one-character one. The texts of all faults stand here as well.
-/
import LoadGen.Threshold.Basic
import LoadGen.Decimal.Layout
import LoadGen.Decimal.Literal
import LoadGen.Text.Cut

namespace LoadGen.Threshold

/-- the reason a threshold is refused for -/
def Fault.message : Fault → String
  | .unknownMetric name => "unknown metric `" ++ name ++ "`"
  | .emptyExpression => "empty threshold"
  | .missingOperator => "missing comparison operator"
  | .missingValue => "missing value"
  | .missingAggregation => "missing aggregation (e.g. `p(95)` or `avg`)"
  | .secondAggregation text => "unexpected aggregation `" ++ text ++ "`"
  | .unknownAggregation text => "unknown aggregation `" ++ text ++ "`"
  | .percentileRange p => "percentile " ++ Decimal.Layout.bare.text p ++ " out of range"
  | .wrongAggregation text => "aggregation `" ++ text ++ "` does not apply to this metric"
  | .invalidValue text => "invalid numeric value `" ++ text ++ "`"
  | .missingIn => "expected `in \x7bcode, ...\x7d`"
  | .missingBraces => "expected a `\x7b...\x7d` status set"
  | .invalidStatus text => "invalid status code `" ++ text ++ "`"
  | .emptyStatusSet => "empty status set"

def Refusal.message (r : Refusal) : String :=
  "invalid threshold `" ++ r.metric ++ ": " ++ r.expression ++ "`: " ++ r.fault.message

/-- the number in `p(number)` or `pnumber` -/
def percentileText? (s : List Char) : Option (List Char) :=
  match (Text.afterStart? ['p', '('] s).bind (Text.beforeEnd? [')']) with
  | some inner => some inner
  | none => Text.afterStart? ['p'] s

/-- an aggregation by its name, in any case -/
def aggregation? (s : List Char) : Option Aggregation :=
  let name := Text.lowerAscii s
  match String.ofList name with
  | "avg" => some .avg
  | "min" => some .min
  | "max" => some .max
  | "med" => some .med
  | "count" => some .count
  | "rate" => some .rate
  | _ => do
    let inner ← percentileText? name
    let p ← Decimal.readFloat? inner
    some (.percentile p)

/-- a metric by its name; the names of latency figures (`p95_latency_ms`) carry their aggregation -/
def metric? (name : String) : Option (Metric × Option Aggregation) :=
  match name with
  | "http_req_duration" | "latency" | "latency_ms" => some (.latency, none)
  | "http_reqs" | "iterations" => some (.iterations, none)
  | "http_req_failed" => some (.failed, none)
  | "checks" => some (.checks, none)
  | "dropped_iterations" => some (.dropped, none)
  | "status" => some (.status, none)
  | _ => do
    let short ← Text.beforeEnd? "_latency_ms".toList name.toList
    let aggregation ← aggregation? short
    some (.latency, some aggregation)

/-- the operators in the order in which they are looked for -/
def operators : List (List Char × Comparison) :=
  [(['<', '='], .le), (['>', '='], .ge), (['=', '='], .eq), (['!', '='], .ne), (['<'], .lt), (['>'], .gt)]

/-- the operator of a comparison with the texts on its two sides -/
def operator? (s : List Char) : Option (Comparison × List Char × List Char) :=
  operators.findSome? fun o => (Text.splitAt? o.1 s).map fun p => (o.2, p.1, p.2)

/-- the aggregation that the text left of an operator means, for a metric with or without one in its name -/
def leftSide (target : Metric) (fixed : Option Aggregation) (left : List Char) : Except Fault Aggregation :=
  match left.isEmpty, fixed with
  | true, some a => .ok a
  | true, none => match target.default? with
    | some a => .ok a
    | none => .error .missingAggregation
  | false, some _ => .error (.secondAggregation (String.ofList left))
  | false, none => match aggregation? left with
    | some a => .ok a
    | none => .error (.unknownAggregation (String.ofList left))

/-- percentiles lie above 0 and reach to 100 -/
def inRange (a : Aggregation) : Except Fault Unit :=
  match a with
  | .percentile p => if 0.0 < p ∧ p ≤ 100.0 then .ok () else .error (.percentileRange p)
  | _ => .ok ()

/-- a comparison without blanks -/
def readComparison (s : List Char) (target : Metric) (fixed : Option Aggregation) : Except Fault Check := do
  match operator? s with
  | none => .error .missingOperator
  | some (op, left, right) =>
    if right.isEmpty then .error .missingValue
    else
      let aggregation ← leftSide target fixed left
      inRange aggregation
      if target.accepts aggregation then
        match Decimal.readFloat? right with
        | some value => .ok (.compare aggregation op value)
        | none => .error (.invalidValue (String.ofList right))
      else .error (.wrongAggregation (String.ofList left))

/-- one status code of a set -/
def readStatus (s : List Char) : Except Fault Nat :=
  match (Decimal.readWord? 10 65535 s).filter fun n => 100 ≤ n ∧ n ≤ 599 with
  | some n => .ok n
  | none => .error (.invalidStatus (String.ofList s))

/-- the list between the braces or brackets of a status set -/
def statusList? (s : List Char) : Option (List Char) :=
  match (Text.afterStart? ['\x7b'] s).bind (Text.beforeEnd? ['\x7d']) with
  | some inner => some inner
  | none => (Text.afterStart? ['['] s).bind (Text.beforeEnd? [']'])

/-- a status set without blanks; empty items are passed over -/
def readStatusSet (s : List Char) : Except Fault (List Nat) :=
  match Text.afterStart? ['i', 'n'] s with
  | none => .error .missingIn
  | some body => match statusList? body with
    | none => .error .missingBraces
    | some inner => do
      let codes ← ((Text.splitAll ',' inner).filter fun item => !item.isEmpty).mapM readStatus
      if codes.isEmpty then .error .emptyStatusSet else .ok codes

/-- what an expression demands of a metric with this name -/
def readCheck (name : String) (compact : List Char) : Except Fault (Metric × Check) :=
  match metric? name with
  | none => .error (.unknownMetric name)
  | some (target, fixed) => do
    if compact.isEmpty then .error .emptyExpression
    else match target with
      | .status => pure (target, .statusIn (← readStatusSet compact))
      | _ => pure (target, ← readComparison compact target fixed)

/-- a threshold from the texts of its metric and its expression -/
def read (metric expression : String) : Except Refusal Threshold :=
  let name := String.ofList (Text.trim metric.toList)
  match readCheck name (Text.compact expression.toList) with
  | .ok (target, check) => .ok ⟨name, String.ofList (Text.trim expression.toList), target, check⟩
  | .error fault => .error ⟨name, expression, fault⟩

/-- a character that ends the metric on a line without a colon -/
def endsMetric (c : Char) : Bool :=
  c = '<' ∨ c = '>' ∨ c = '=' ∨ c = '!' ∨ Text.isBlank c

/-- metric and expression on one line: divided by the first colon, after a leading `status`, or before the first
operator or blank -/
def divideLine (line : List Char) : List Char × List Char :=
  match Text.splitOnce ':' line with
  | some (metric, expression) => (metric, expression)
  | none => match Text.afterStart? "status".toList line with
    | some rest => ("status".toList, rest)
    | none => (line.takeWhile fun c => !endsMetric c, line.dropWhile fun c => !endsMetric c)

/-- a threshold from one line -/
def readLine (line : String) : Except Refusal Threshold :=
  let (metric, expression) := divideLine (Text.trim line.toList)
  read (String.ofList metric) (String.ofList expression)

end LoadGen.Threshold
