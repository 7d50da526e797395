import Wireform.Base64
import Wireform.Binding.Classify
import Wireform.Binding.Error
import Wireform.Binding.Format
import Wireform.Binding.Http
import Wireform.Binding.Location
import Wireform.Body.Basic
import Wireform.Body.Pool
import Wireform.Body.Session
import Wireform.Bytes
import Wireform.Checksum.Algorithm
import Wireform.Checksum.Chunked
import Wireform.Checksum.Crc
import Wireform.Checksum.Padding
import Wireform.Checksum.Policy
import Wireform.Checksum.Sha1
import Wireform.Checksum.Sha256
import Wireform.Checksum.Transfer
import Wireform.Codec.Decode
import Wireform.Codec.Encode
import Wireform.Codec.Event
import Wireform.Codec.Sample
import Wireform.Codec.Schema
import Wireform.Command.Arguments
import Wireform.Command.Report
import Wireform.Command.Run
import Wireform.Disk
import Wireform.Entries
import Wireform.Generate
import Wireform.HeaderList
import Wireform.HeaderRule
import Wireform.Headers
import Wireform.Json.Basic
import Wireform.Json.Octets
import Wireform.Json.Reader
import Wireform.Json.Whole
import Wireform.Json.Writer
import Wireform.Main
import Wireform.Message
import Wireform.Model.Basic
import Wireform.Model.Loader
import Wireform.Model.Prelude
import Wireform.Name
import Wireform.Number.Decimal
import Wireform.Number.Double
import Wireform.Number.Real
import Wireform.Number.Shortest
import Wireform.Number.Whole
import Wireform.ParseError
import Wireform.Percent
import Wireform.Plan
import Wireform.Proofs.Answers
import Wireform.Proofs.Base64
import Wireform.Proofs.Binding.Classified
import Wireform.Proofs.Binding.Form
import Wireform.Proofs.Binding.Formats
import Wireform.Proofs.Binding.Timestamps
import Wireform.Proofs.Body.Delivery
import Wireform.Proofs.Body.Ownership
import Wireform.Proofs.Body.Pool
import Wireform.Proofs.Body.Reading
import Wireform.Proofs.Body.Session
import Wireform.Proofs.Bytes
import Wireform.Proofs.Checksum.Attachment
import Wireform.Proofs.Checksum.Bursts
import Wireform.Proofs.Checksum.ChunkedDecoding
import Wireform.Proofs.Checksum.Defaults
import Wireform.Proofs.Checksum.Increments
import Wireform.Proofs.Checksum.PartCounts
import Wireform.Proofs.Checksum.ShiftRegister
import Wireform.Proofs.Checksum.Validation
import Wireform.Proofs.Codec.Answers
import Wireform.Proofs.Codec.Documents
import Wireform.Proofs.Codec.Records
import Wireform.Proofs.Entries
import Wireform.Proofs.Event.Frames
import Wireform.Proofs.Event.RoundTrip
import Wireform.Proofs.Generation
import Wireform.Proofs.HeaderList.Dates
import Wireform.Proofs.HeaderList.Media
import Wireform.Proofs.HeaderList.Members
import Wireform.Proofs.HeaderList.Padding
import Wireform.Proofs.HeaderList.RoundTrip
import Wireform.Proofs.HeaderList.Scalars
import Wireform.Proofs.HeaderRule
import Wireform.Proofs.Headers
import Wireform.Proofs.Headers.Prefixes
import Wireform.Proofs.Headers.Refusals
import Wireform.Proofs.Json.Octets
import Wireform.Proofs.Model.Loaded
import Wireform.Proofs.Name
import Wireform.Proofs.Name.Identifiers
import Wireform.Proofs.Number.WholeDoubles
import Wireform.Proofs.Outcome
import Wireform.Proofs.Percent
import Wireform.Proofs.Plan.Checks
import Wireform.Proofs.Plan.Failures
import Wireform.Proofs.Plan.Gathering
import Wireform.Proofs.Plan.Lookups
import Wireform.Proofs.Plan.Restricted
import Wireform.Proofs.Redaction.Clauses
import Wireform.Proofs.Redaction.Concealment
import Wireform.Proofs.Redaction.Emitted
import Wireform.Proofs.Redaction.PathLabels
import Wireform.Proofs.Sensitivity.Covered
import Wireform.Proofs.Sensitivity.Exposure
import Wireform.Proofs.Sensitivity.Marks
import Wireform.Proofs.Sensitivity.Responses
import Wireform.Proofs.Source.Ambiguity
import Wireform.Proofs.Source.BodyLines
import Wireform.Proofs.Source.ClassNames
import Wireform.Proofs.Source.Collecting
import Wireform.Proofs.Source.Directions
import Wireform.Proofs.Source.Documentation
import Wireform.Proofs.Source.Functions
import Wireform.Proofs.Source.Hints
import Wireform.Proofs.Source.Lines
import Wireform.Proofs.Source.Literals
import Wireform.Proofs.Source.Ordering
import Wireform.Proofs.Source.Quoting
import Wireform.Proofs.Source.Reading
import Wireform.Proofs.Source.Records
import Wireform.Proofs.Source.Shadowing
import Wireform.Proofs.Source.Sites
import Wireform.Proofs.Text.Case
import Wireform.Proofs.Text.Digits
import Wireform.Proofs.Text.OuterPieces
import Wireform.Proofs.Text.Pieces
import Wireform.Proofs.Text.Quoted
import Wireform.Proofs.Text.Trim
import Wireform.Proofs.Text.Words
import Wireform.Proofs.Time.Calendar
import Wireform.Proofs.Time.MailDate
import Wireform.Proofs.Time.Offsets
import Wireform.Proofs.Time.Overruns
import Wireform.Proofs.Time.RoundTrip
import Wireform.Proofs.Uri.EmptyLabels
import Wireform.Proofs.Uri.Grammar
import Wireform.Proofs.Uri.Matching
import Wireform.Proofs.Uri.PathRoundTrip
import Wireform.Proofs.Uri.PatternForm
import Wireform.Proofs.Uri.RequestPath
import Wireform.Proofs.Uri.RequestQuery
import Wireform.Proofs.Utf8
import Wireform.Protocol
import Wireform.ReadError
import Wireform.Redaction
import Wireform.Scalar
import Wireform.Sensitivity.Coverage
import Wireform.Sensitivity.Walk
import Wireform.Settings
import Wireform.Source.Customization
import Wireform.Source.Definition
import Wireform.Source.Expression
import Wireform.Source.Header
import Wireform.Source.Literal
import Wireform.Source.Message
import Wireform.Source.Module
import Wireform.Source.Payload
import Wireform.Source.Record
import Wireform.Source.Sensitivity
import Wireform.Source.TypeHint
import Wireform.Source.Uri
import Wireform.Text.Alike
import Wireform.Text.Basic
import Wireform.Text.Blank
import Wireform.Text.Case
import Wireform.Text.CaseTable
import Wireform.Text.CellTable
import Wireform.Text.Cells
import Wireform.Text.Digit
import Wireform.Text.Markup
import Wireform.Text.PrintableTable
import Wireform.Text.Quoted
import Wireform.Time.Calendar
import Wireform.Time.IsoReader
import Wireform.Time.MailDate
import Wireform.Time.Moment
import Wireform.Time.Timestamp
import Wireform.Uri.Path
import Wireform.Uri.Pattern
import Wireform.Uri.Query
import Wireform.Uri.Segment
import Wireform.Utf8
import Wireform.Value
import Wireform.Value.Display
