import LoadGen.Arrival.Model
import LoadGen.Arrival.Offsets
import LoadGen.Arrival.Ramp
import LoadGen.Arrival.Ramping
import LoadGen.Command.Arguments
import LoadGen.Command.Program
import LoadGen.Command.Value
import LoadGen.Decimal.Layout
import LoadGen.Decimal.Literal
import LoadGen.Decimal.Magnitude
import LoadGen.Decimal.Numeral
import LoadGen.Decimal.Shortest
import LoadGen.Document.Datum
import LoadGen.Document.Field
import LoadGen.Document.Json
import LoadGen.Document.Node
import LoadGen.Document.Number
import LoadGen.Document.Yaml.Cursor
import LoadGen.Document.Yaml.Draft
import LoadGen.Document.Yaml.Lexer
import LoadGen.Document.Yaml.Property
import LoadGen.Document.Yaml.Read
import LoadGen.Document.Yaml.Scalar
import LoadGen.Document.Yaml.Script
import LoadGen.Document.Yaml.Write
import LoadGen.Json
import LoadGen.Main
import LoadGen.Metrics.Aggregate
import LoadGen.Metrics.Latency
import LoadGen.Metrics.Outcome
import LoadGen.Metrics.Rate
import LoadGen.Pool.Basic
import LoadGen.Pool.Tenancy
import LoadGen.Proofs.Pool.Representation
import LoadGen.Random.Stream
import LoadGen.Report.Basic
import LoadGen.Report.ExitCode
import LoadGen.Report.Figure
import LoadGen.Report.Human
import LoadGen.Report.Line
import LoadGen.Run.Basic
import LoadGen.Run.Dispatcher
import LoadGen.Run.Holding
import LoadGen.Run.Lifecycle
import LoadGen.Run.Perform
import LoadGen.Run.Scheduler
import LoadGen.Run.Step
import LoadGen.Run.Timeline
import LoadGen.Scenario.Basic
import LoadGen.Scenario.Document
import LoadGen.Scenario.Error
import LoadGen.Scenario.Load
import LoadGen.Scenario.Options
import LoadGen.Scenario.Reader
import LoadGen.Scenario.ThinkTime
import LoadGen.Scenario.Writer
import LoadGen.Stub.Quota
import LoadGen.Stub.Server
import LoadGen.Stub.Urls
import LoadGen.Text.Cut
import LoadGen.Text.Utf8
import LoadGen.Threshold.Basic
import LoadGen.Threshold.Reader
import LoadGen.Threshold.Verdict
import LoadGen.Time.Duration
import LoadGen.Time.Phrase
import LoadGen.Web.Address
import LoadGen.Web.Domain
import LoadGen.Web.Exchange
import LoadGen.Web.Form
import LoadGen.Web.Punycode
import LoadGen.Web.Request
import LoadGen.Web.Target
import LoadGen.Web.Token
import LoadGen.Web.Url
import LoadGen.Proofs.Metrics.Series
import LoadGen.Proofs.Metrics.Order
import LoadGen.Proofs.Run.Accounting
import LoadGen.Proofs.Arrival.Instants
import LoadGen.Proofs.Run.LossSystem
import LoadGen.Proofs.Run.Holding
import LoadGen.Proofs.Run.Books
import LoadGen.Proofs.Run.FailFast
import LoadGen.Proofs.Text.Characters
import LoadGen.Proofs.Web.Building
import LoadGen.Proofs.Time.Phrase
import LoadGen.Proofs.Text.Ordered
import LoadGen.Proofs.Scenario.Reading
import LoadGen.Proofs.Threshold.Grouping
import LoadGen.Proofs.Scenario.Resolved
import LoadGen.Proofs.Pool.Waiting
import LoadGen.Proofs.Text.Cut
import LoadGen.Proofs.Decimal.Characters
import LoadGen.Proofs.Threshold.Grammar
import LoadGen.Proofs.Threshold.Spelling
import LoadGen.Proofs.Run.Outcomes
import LoadGen.Proofs.Run.Turns
import LoadGen.Proofs.Run.Regular
import LoadGen.Proofs.Run.Awaited
import LoadGen.Proofs.Run.Stopping
import LoadGen.Proofs.Run.Cancelled
import LoadGen.Proofs.Metrics.Figures
import LoadGen.Proofs.Metrics.Conservation
import LoadGen.Run.Delivery
import LoadGen.Proofs.Run.Delivery
import LoadGen.Proofs.Run.Capacity
import LoadGen.Proofs.Arrival.Targets
import LoadGen.Proofs.Run.Concurrency
import LoadGen.Proofs.Run.Overshoot
import LoadGen.Proofs.Scenario.Sound
import LoadGen.Proofs.Run.Stages
import LoadGen.Proofs.Run.Source
import LoadGen.Proofs.Run.Returned
import LoadGen.Proofs.Run.Once
import LoadGen.Proofs.Run.Deadlines
import LoadGen.Proofs.Run.Progress
import LoadGen.Proofs.Run.Ending
import LoadGen.Proofs.Metrics.Retention
import LoadGen.Proofs.Stub.Quota
import LoadGen.Proofs.Decimal.Kinds
import LoadGen.Proofs.Decimal.Rounding
import LoadGen.Proofs.Decimal.Mantissas
import LoadGen.Proofs.Decimal.Operations
import LoadGen.Proofs.Time.Seconds
import LoadGen.Proofs.Document.Overrun
import LoadGen.Proofs.Scenario.Overlong
import LoadGen.Proofs.Arrival.Constant
import LoadGen.Proofs.Arrival.Interpolation
import LoadGen.Proofs.Arrival.Integral
import LoadGen.Proofs.Arrival.Solving
import LoadGen.Proofs.Arrival.Search
import LoadGen.Proofs.Arrival.Inversion
import LoadGen.Proofs.Arrival.Floating
import LoadGen.Proofs.Arrival.Walking
import LoadGen.Proofs.Web.Form
import LoadGen.Proofs.Stub.Limiter
import LoadGen.Proofs.Threshold.Observation
import LoadGen.Proofs.Scenario.Overrides
import LoadGen.Proofs.Stub.Counters
import LoadGen.Proofs.Arrival.Rechecks
import LoadGen.Proofs.Arrival.Exhaustion
