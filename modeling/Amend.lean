import Amend.Calendar
import Amend.Clock
import Amend.Code
import Amend.Codec.Encoding
import Amend.Codec.Fault
import Amend.Codec.TextStream
import Amend.Codec.Utf16
import Amend.Codec.Utf8
import Amend.CommandLine.Arguments
import Amend.CommandLine.Invocation
import Amend.CommandLine.Session
import Amend.Config
import Amend.Config.Check
import Amend.Config.Store
import Amend.Decimal.Double
import Amend.Decimal.Limit
import Amend.Decimal.Shortest
import Amend.Diagnostic
import Amend.Diff.Hunk
import Amend.Diff.Matching
import Amend.Diff.Unified
import Amend.Failure
import Amend.FilePath
import Amend.Files.Desk
import Amend.Files.Loader
import Amend.Files.Tree
import Amend.Files.Writer
import Amend.Filter
import Amend.Group
import Amend.Journal
import Amend.Json.Reader
import Amend.Json.Value
import Amend.Json.Writer
import Amend.LineIndex
import Amend.Listing
import Amend.Main
import Amend.Merge
import Amend.Numeral
import Amend.Outcome
import Amend.PatchSet
import Amend.Report.Analysis
import Amend.Report.Command
import Amend.Report.Conversion
import Amend.Report.Message
import Amend.Run
import Amend.Run.Complete
import Amend.Run.Pool
import Amend.Selection
import Amend.Shape
import Amend.Span
import Amend.Summary
import Amend.Table
import Amend.Telemetry
import Amend.Text.Blank
import Amend.Text.Digit
import Amend.Text.Hex
import Amend.Text.Lines
import Amend.Text.Printable
import Amend.Text.Quoted
import Amend.Text.Ranges
import Amend.Text.Upper
import Amend.Tree
import Amend.Yaml.Cursor
import Amend.Yaml.Node
import Amend.Yaml.Printer
import Amend.Yaml.Scalar
import Amend.Yaml.Token
import Amend.Yaml.Value
import Amend.Proofs.Group
import Amend.Proofs.Codec.Encoding
import Amend.Proofs.Files.Loader
import Amend.Proofs.Files.Tree
import Amend.Proofs.Files.Writer
import Amend.Proofs.Journal
import Amend.Proofs.Merge
import Amend.Proofs.Run.Account
import Amend.Proofs.Run.Pool
import Amend.Proofs.Run.Reload
import Amend.Proofs.Run.Truth
import Amend.Proofs.Run.Workers
import Amend.Proofs.Run.Cancel
import Amend.Proofs.Run.Isolation
import Amend.Proofs.Diff
import Amend.Proofs.Run.DryRun
import Amend.Proofs.Run.Duplicates
import Amend.Proofs.LineIndex
import Amend.Proofs.Report.Conversion
import Amend.Proofs.Report.Bounds
import Amend.Proofs.Report.Offers
import Amend.Proofs.Report.Barred
import Amend.Proofs.FilePath
import Amend.Proofs.Report.Naming
import Amend.Proofs.Listing
import Amend.Proofs.Selection.Judge
import Amend.Proofs.Selection.Verdicts
import Amend.Proofs.Listing.Coverage
import Amend.Proofs.Summary.Totals
import Amend.Proofs.Summary.Standing
import Amend.Proofs.Run.Errors
import Amend.Proofs.Report.Aborts
import Amend.Proofs.Files.Desk
import Amend.Proofs.Merge.Priority
import Amend.Proofs.Merge.Splice
import Amend.Proofs.Merge.Tie
import Amend.Proofs.Merge.Order
import Amend.Proofs.Config
import Amend.Proofs.Merge.Trace
import Amend.Proofs.Selection.Failures
import Amend.Proofs.Diff.Identity
import Amend.Proofs.Diff.Cover
import Amend.Proofs.Diff.Reading
import Amend.Proofs.Code
import Amend.Proofs.Config.Store
import Amend.Proofs.Telemetry
