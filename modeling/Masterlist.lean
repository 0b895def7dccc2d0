import Masterlist.Files.Tree
import Masterlist.Condition.Truth
import Masterlist.Condition.Normal
import Masterlist.Condition.Grammar
import Masterlist.Condition.Descent
import Masterlist.Scalar.Schema
import Masterlist.Document.Batch
import Masterlist.Document.Reading
import Masterlist.Main
import Masterlist.Line.Draft
import Masterlist.Line.Span
import Masterlist.Json.Writing
import Masterlist.Report.Rewriting
import Masterlist.Report.Library
import Masterlist.Proofs.Document.Batch
import Masterlist.Proofs.Text.Utf8
import Masterlist.Proofs.Text.Trim
import Masterlist.Proofs.Text.Search
import Masterlist.Proofs.Scalar.Reading
import Masterlist.Proofs.Document.Reading
import Masterlist.Proofs.Run.Document
import Masterlist.Proofs.Run.Trace
import Masterlist.Proofs.Run.Concatenation
import Masterlist.Proofs.Condition.Reader
import Masterlist.Proofs.Condition.Viable
import Masterlist.Proofs.Condition.WellFormed
import Masterlist.Proofs.Condition.Words
import Masterlist.Proofs.Condition.Scanning
import Masterlist.Proofs.Condition.Normal
import Masterlist.Proofs.Condition.Margins
import Masterlist.Proofs.Line.Kind
import Masterlist.Proofs.Line.Characters
import Masterlist.Proofs.Line.Cut
import Masterlist.Proofs.Line.Tag
import Masterlist.Proofs.Line.Opening
import Masterlist.Proofs.Line.Draft
import Masterlist.Proofs.Document.Comments
import Masterlist.Proofs.Run.Characters
import Masterlist.Proofs.Run.Strip
import Masterlist.Proofs.Run.Conditions
import Masterlist.Proofs.Scalar.Schema
import Masterlist.Proofs.Run.Ending
import Masterlist.Proofs.Run.Failure
import Masterlist.Proofs.Line.Blocks
import Masterlist.Proofs.Run.Blocks
import Masterlist.Proofs.Document.Tally
import Masterlist.Proofs.Run.Bounds
import Masterlist.Proofs.Run.Report
import Masterlist.Proofs.Text.Lines
import Masterlist.Proofs.Document.Room
import Masterlist.Proofs.Run.Room
import Masterlist.Proofs.Text.Repair
import Masterlist.Proofs.Text.Valid
import Masterlist.Proofs.Run.Repair
import Masterlist.Proofs.Run.Idle
import Masterlist.Proofs.Files.Tree
import Masterlist.Proofs.Files.Conversion
import Masterlist.Proofs.Line.Name
import Masterlist.Proofs.Run.Quotes
import Masterlist.Proofs.Run.Orphans
import Masterlist.Proofs.Condition.Edges
import Masterlist.Proofs.Line.Scalars
import Masterlist.Proofs.Run.Scalars
import Masterlist.Proofs.Line.Groups
import Masterlist.Proofs.Condition.Composition
import Masterlist.Proofs.Run.Exchange
import Masterlist.Proofs.Run.Logs
import Masterlist.Proofs.Text.Carriage
import Masterlist.Proofs.Run.Breaks
import Masterlist.Proofs.Line.Margins
import Masterlist.Proofs.Line.Spans
import Masterlist.Proofs.Files.Path
import Masterlist.Proofs.Files.Default
import Masterlist.Proofs.Condition.Descent
import Masterlist.Proofs.Json.Reading
import Masterlist.Proofs.Report.Form
