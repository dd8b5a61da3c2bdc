import DivisionAudit.Audit.Basic
import DivisionAudit.Audit.Draft
import DivisionAudit.Audit.Summary
import DivisionAudit.Command.Execute
import DivisionAudit.Command.Log
import DivisionAudit.Command.Options
import DivisionAudit.Comparison
import DivisionAudit.Decimal.Layout
import DivisionAudit.Decimal.Shortest
import DivisionAudit.Duration
import DivisionAudit.Event
import DivisionAudit.Expression.Reciprocal
import DivisionAudit.Expression.Weighted
import DivisionAudit.Fault
import DivisionAudit.Generator.Draw
import DivisionAudit.Generator.Permuted
import DivisionAudit.Generator.Twister
import DivisionAudit.Input.Doubles
import DivisionAudit.Input.Edges
import DivisionAudit.Input.Interval
import DivisionAudit.Input.Pass
import DivisionAudit.Input.Sweep
import DivisionAudit.Input.Walk
import DivisionAudit.Main
import DivisionAudit.Number.Binary64
import DivisionAudit.Number.Domain
import DivisionAudit.Sampling
import DivisionAudit.Source
import DivisionAudit.Subject
import DivisionAudit.Text.Diagnostic
import DivisionAudit.Text.Json
import DivisionAudit.Text.Printable
import DivisionAudit.Traced
import DivisionAudit.Violation.Basic
import DivisionAudit.Violation.Context
import DivisionAudit.Violation.Observer
import DivisionAudit.Workload
import DivisionAudit.Proofs.Expression.Exact
import DivisionAudit.Proofs.Expression.Symmetry
import DivisionAudit.Proofs.Expression.Extended
import DivisionAudit.Proofs.Generator.Outputs
import DivisionAudit.Proofs.Generator.Words
import DivisionAudit.Proofs.Generator.Period
import DivisionAudit.Proofs.Generator.Acceptance
import DivisionAudit.Proofs.Input.Count
import DivisionAudit.Proofs.Input.Interval
import DivisionAudit.Proofs.Audit.Stream
import DivisionAudit.Proofs.Audit.Run
import DivisionAudit.Proofs.Audit.Interval
import DivisionAudit.Proofs.Audit.Trace
import DivisionAudit.Proofs.Expression.Primary
import DivisionAudit.Proofs.Generator.Seeds
import DivisionAudit.Proofs.Audit.Mirror
import DivisionAudit.Proofs.Generator.Ranges
import DivisionAudit.Proofs.Input.Edges
import DivisionAudit.Proofs.Audit.Workload
import DivisionAudit.Proofs.Audit.Answers
import DivisionAudit.Proofs.Audit.Halves
import DivisionAudit.Proofs.Audit.Order
import DivisionAudit.Proofs.Audit.Tally
import DivisionAudit.Proofs.Audit.Failures
import DivisionAudit.Proofs.Text.Lines
import DivisionAudit.Proofs.Text.Compact
import DivisionAudit.Proofs.Command.Digest
import DivisionAudit.Proofs.Command.References
import DivisionAudit.Proofs.Generator.Cycle
import DivisionAudit.Proofs.Violation.Paths
import DivisionAudit.Proofs.Audit.Settings
import DivisionAudit.Proofs.Comparison.Agreement
import DivisionAudit.Proofs.Audit.Payload
import DivisionAudit.Proofs.Expression.Range
import DivisionAudit.Proofs.Text.Numbers
import DivisionAudit.Proofs.Text.Reading
import DivisionAudit.Proofs.Violation.Reading
import DivisionAudit.Proofs.Decimal.Value
import DivisionAudit.Proofs.Decimal.Interval
import DivisionAudit.Proofs.Decimal.Distinct
import DivisionAudit.Proofs.Comparison.Texts
import DivisionAudit.Proofs.Input.Sweep
import DivisionAudit.Proofs.Input.Calls
import DivisionAudit.Proofs.Audit.Validation
import DivisionAudit.Proofs.Double.Nearest
import DivisionAudit.Proofs.Double.Unpacked
import DivisionAudit.Proofs.Double.Operations
import DivisionAudit.Proofs.Double.Stored
import DivisionAudit.Proofs.Double.Partway
import DivisionAudit.Proofs.Double.Place
import DivisionAudit.Proofs.Input.Ascent
import DivisionAudit.Proofs.Violation.Entries
