import EventPost.CommandLine.Arguments
import EventPost.CommandLine.Completions
import EventPost.CommandLine.Entry
import EventPost.CommandLine.Flag
import EventPost.CommandLine.Report
import EventPost.CommandLine.Request
import EventPost.CommandLine.Run
import EventPost.CommandLine.Spelling
import EventPost.Event.Basic
import EventPost.Event.Notification
import EventPost.Event.Reader
import EventPost.Event.Vocabulary
import EventPost.Files.Basic
import EventPost.Files.Tree
import EventPost.Gzip.Basic
import EventPost.Gzip.Inflate
import EventPost.Http.Body
import EventPost.Http.Error
import EventPost.Http.Head
import EventPost.Http.Request
import EventPost.Http.Service
import EventPost.Http.Uri
import EventPost.Journal
import EventPost.Journal.Filter
import EventPost.Json.Basic
import EventPost.Json.Fault
import EventPost.Json.Field
import EventPost.Json.Lexeme
import EventPost.Json.Reader
import EventPost.Json.Writer
import EventPost.Main
import EventPost.Numeral.Binary64
import EventPost.Numeral.Decimal
import EventPost.Numeral.Shortest
import EventPost.Program
import EventPost.Settings.Basic
import EventPost.Settings.Expansion
import EventPost.Settings.Loading
import EventPost.Settings.Overrides
import EventPost.Settings.Reader
import EventPost.Settings.Writer
import EventPost.Stamp.Basic
import EventPost.Stamp.Calendar
import EventPost.Stamp.Crowd
import EventPost.Submission.Acknowledgment
import EventPost.Submission.Acknowledgment.Yaml
import EventPost.Submission.Failure
import EventPost.Submission.Notifier
import EventPost.Submission.Sending
import EventPost.Table
import EventPost.Text.Alphanumeric
import EventPost.Text.Blank
import EventPost.Text.Hidden
import EventPost.Text.Paint
import EventPost.Text.Quoted
import EventPost.Text.Utf8
import EventPost.Yaml.BlockScalar
import EventPost.Yaml.Document
import EventPost.Yaml.Event
import EventPost.Yaml.Field
import EventPost.Yaml.FlowScalar
import EventPost.Yaml.Resolution
import EventPost.Yaml.ScalarText
import EventPost.Yaml.Source
import EventPost.Yaml.Tag
import EventPost.Yaml.Token
import EventPost.Yaml.Writer
import EventPost.Proofs.Event.CoreFields
import EventPost.Proofs.Calendar
import EventPost.Proofs.Calendar.Text
import EventPost.Proofs.Http.Head
import EventPost.Proofs.Stamp.Run
import EventPost.Proofs.Stamp.Crowd
import EventPost.Proofs.Http.Body
import EventPost.Proofs.Http.Exchange
import EventPost.Proofs.Submission.Judgment
import EventPost.Proofs.Submission.SinglePost
import EventPost.Proofs.Submission.Verdict
import EventPost.Proofs.Json.Lexeme
import EventPost.Proofs.Json.Shape
import EventPost.Proofs.Json.Layout
import EventPost.Proofs.Json.RoundTrip
import EventPost.Proofs.Event.RoundTrip
import EventPost.Proofs.Submission.Candor
import EventPost.Proofs.CommandLine.Secrecy
import EventPost.Proofs.Settings.Said
import EventPost.Proofs.Settings.Precedence
import EventPost.Proofs.CommandLine.Rehearsal
import EventPost.Proofs.Program.Status
import EventPost.Proofs.CommandLine.Entry
import EventPost.Proofs.CommandLine.Spelling
import EventPost.Proofs.CommandLine.Request
import EventPost.Proofs.Settings.Fallback
import EventPost.Proofs.Json.Grammar
import EventPost.Proofs.Json.Quoting
import EventPost.Proofs.Json.Numeral
import EventPost.Proofs.Json.Passing
import EventPost.Proofs.Json.Reading
import EventPost.Proofs.Json.Meaning
import EventPost.Proofs.Json.Unambiguity
import EventPost.Proofs.Json.Field
import EventPost.Proofs.Submission.Acknowledgment
import EventPost.Proofs.Event.Canonical
import EventPost.Proofs.Settings.Repetition
import EventPost.Proofs.Http.Message
import EventPost.Proofs.Http.Uri
import EventPost.Proofs.Submission.Credential
import EventPost.Proofs.Numeral.Shortest
import EventPost.Proofs.Json.NumberValue
import EventPost.Proofs.Json.Literal
import EventPost.Proofs.Event.Members
import EventPost.Proofs.CommandLine.Given
import EventPost.Proofs.CommandLine.Integer
import EventPost.Proofs.Calendar.Succession
import EventPost.Proofs.Calendar.Order
import EventPost.Proofs.Stamp.Chronology
import EventPost.Proofs.Program.Verbosity
import EventPost.Proofs.Text.Line
import EventPost.Proofs.Json.Diagnostic
import EventPost.Proofs.Http.Diagnostic
import EventPost.Proofs.Submission.Diagnostic
import EventPost.Proofs.Yaml.Line
import EventPost.Proofs.Yaml.Plain
import EventPost.Proofs.Yaml.Escape
import EventPost.Proofs.Yaml.Quoted
import EventPost.Proofs.Yaml.Block
import EventPost.Proofs.Yaml.Scalar
import EventPost.Proofs.Yaml.Fetching
import EventPost.Proofs.Yaml.Scanning
import EventPost.Proofs.Yaml.Structure
import EventPost.Proofs.Yaml.Reading
import EventPost.Proofs.Yaml.Written
import EventPost.Proofs.Yaml.RoundTrip
import EventPost.Proofs.Submission.Endpoint
import EventPost.Proofs.Settings.Expansion
import EventPost.Proofs.CommandLine.Arrangement
