import DocumentPreview.Config.Basic
import DocumentPreview.Config.Environment
import DocumentPreview.Config.Field
import DocumentPreview.Config.Settings
import DocumentPreview.Conversion
import DocumentPreview.Crypto.Hmac
import DocumentPreview.Crypto.Sha256
import DocumentPreview.Database.Address
import DocumentPreview.Database.Error
import DocumentPreview.Database.Migration
import DocumentPreview.Database.Row
import DocumentPreview.Database.Statement
import DocumentPreview.Database.Store
import DocumentPreview.Database.Tables
import DocumentPreview.FileRecord
import DocumentPreview.Http.Health
import DocumentPreview.Http.Message
import DocumentPreview.Http.Pages
import DocumentPreview.Http.Router
import DocumentPreview.Job.Basic
import DocumentPreview.Job.Codec
import DocumentPreview.JobQueue
import DocumentPreview.Json.Basic
import DocumentPreview.Json.Reader
import DocumentPreview.Json.Writer
import DocumentPreview.Main
import DocumentPreview.Metrics
import DocumentPreview.Pipeline.Attempt
import DocumentPreview.Pipeline.Call
import DocumentPreview.Pipeline.Previews
import DocumentPreview.Pipeline.Sweep
import DocumentPreview.PreviewQuery
import DocumentPreview.Program
import DocumentPreview.Proofs.Access.Interchange
import DocumentPreview.Proofs.Access.Issued
import DocumentPreview.Proofs.Access.NonceStore
import DocumentPreview.Proofs.Access.Proxy
import DocumentPreview.Proofs.Access.Race
import DocumentPreview.Proofs.Access.SingleUse
import DocumentPreview.Proofs.Access.Visit
import DocumentPreview.Proofs.Conversion.Excerpt
import DocumentPreview.Proofs.Database.Agreement
import DocumentPreview.Proofs.Database.Answers
import DocumentPreview.Proofs.Database.Contention
import DocumentPreview.Proofs.Database.Creation
import DocumentPreview.Proofs.Database.Requeue
import DocumentPreview.Proofs.Database.Rewrites
import DocumentPreview.Proofs.Database.Rows
import DocumentPreview.Proofs.Database.Sessions
import DocumentPreview.Proofs.Database.Settling
import DocumentPreview.Proofs.Database.Statements
import DocumentPreview.Proofs.Json.Literals
import DocumentPreview.Proofs.Json.RoundTrip
import DocumentPreview.Proofs.Program.Rule
import DocumentPreview.Proofs.Queue.Admission
import DocumentPreview.Proofs.Queue.Discipline
import DocumentPreview.Proofs.Queue.Interleaving
import DocumentPreview.Proofs.Recovery.Attempt
import DocumentPreview.Proofs.Recovery.Drain
import DocumentPreview.Proofs.Recovery.Lease
import DocumentPreview.Proofs.Recovery.Operations
import DocumentPreview.Proofs.Recovery.Pass
import DocumentPreview.Proofs.Recovery.Reached
import DocumentPreview.Proofs.Recovery.Repetition
import DocumentPreview.Proofs.Recovery.Report
import DocumentPreview.Proofs.Recovery.Rounds
import DocumentPreview.Proofs.Recovery.Rows
import DocumentPreview.Proofs.Recovery.Settlement
import DocumentPreview.Proofs.Recovery.Sound
import DocumentPreview.Proofs.Recovery.Undisturbed
import DocumentPreview.Proofs.Service.Backend
import DocumentPreview.Proofs.Service.Backoff
import DocumentPreview.Proofs.Service.Beats
import DocumentPreview.Proofs.Service.Completed
import DocumentPreview.Proofs.Service.Conduct
import DocumentPreview.Proofs.Service.Conforming
import DocumentPreview.Proofs.Service.Crowding
import DocumentPreview.Proofs.Service.Delivery
import DocumentPreview.Proofs.Service.Enqueue
import DocumentPreview.Proofs.Service.Events
import DocumentPreview.Proofs.Service.Exclusion
import DocumentPreview.Proofs.Service.Fencing
import DocumentPreview.Proofs.Service.Foremost
import DocumentPreview.Proofs.Sequence
import DocumentPreview.Proofs.Service.Interleaving
import DocumentPreview.Proofs.Service.Joining
import DocumentPreview.Proofs.Service.Live
import DocumentPreview.Proofs.Service.Ownership
import DocumentPreview.Proofs.Service.Refusal
import DocumentPreview.Proofs.Service.Rendering
import DocumentPreview.Proofs.Service.Retrying
import DocumentPreview.Proofs.Service.Shared
import DocumentPreview.Proofs.Service.Traffic
import DocumentPreview.Proofs.Service.Turns
import DocumentPreview.Proofs.Service.Uninterrupted
import DocumentPreview.Proofs.Service.Verdicts
import DocumentPreview.Proofs.Service.Winner
import DocumentPreview.Proofs.Store.BatchLimit
import DocumentPreview.Proofs.Store.Budget
import DocumentPreview.Proofs.Store.Change
import DocumentPreview.Proofs.Store.Coherence
import DocumentPreview.Proofs.Store.Files
import DocumentPreview.Proofs.Store.History
import DocumentPreview.Proofs.Store.InFlight
import DocumentPreview.Proofs.Store.Order
import DocumentPreview.Proofs.Store.Requeue
import DocumentPreview.Proofs.Store.Rows
import DocumentPreview.Proofs.Store.Selection
import DocumentPreview.Proofs.Store.SingleFlight
import DocumentPreview.Proofs.Store.Steps
import DocumentPreview.Proofs.Text.Base64
import DocumentPreview.Proofs.Text.Numerals
import DocumentPreview.Proofs.Text.Truncation
import DocumentPreview.Proofs.Text.Utf8
import DocumentPreview.Proofs.Token.Issuer
import DocumentPreview.Proofs.Token.Lifetime
import DocumentPreview.Proofs.Token.Payload
import DocumentPreview.Proofs.Token.Verdict
import DocumentPreview.Proofs.Worker.Attempt
import DocumentPreview.Proofs.Worker.Schedule
import DocumentPreview.Proofs.Worker.Stages
import DocumentPreview.Replay.Guard
import DocumentPreview.Replay.Redis
import DocumentPreview.RetrySchedule
import DocumentPreview.Simulation.Background
import DocumentPreview.Simulation.Basic
import DocumentPreview.Simulation.Database
import DocumentPreview.Simulation.Script
import DocumentPreview.Simulation.World
import DocumentPreview.Startup
import DocumentPreview.Storage.Basic
import DocumentPreview.Storage.Bucket
import DocumentPreview.Store.Memory
import DocumentPreview.Store.Operation
import DocumentPreview.Text.Base64
import DocumentPreview.Text.Blank
import DocumentPreview.Text.Form
import DocumentPreview.Text.Integer
import DocumentPreview.Text.Numeral
import DocumentPreview.Text.Percent
import DocumentPreview.Text.Quoted
import DocumentPreview.Text.Split
import DocumentPreview.Text.Truncation
import DocumentPreview.Text.Url
import DocumentPreview.Text.Utf8
import DocumentPreview.Time.Calendar
import DocumentPreview.Time.Instant
import DocumentPreview.Time.Rfc3339
import DocumentPreview.Time.Span
import DocumentPreview.Token.Claims
import DocumentPreview.Token.Issuer
import DocumentPreview.Uuid
import DocumentPreview.Proofs.Recovery.Outcome
import DocumentPreview.Proofs.Text.Form
import DocumentPreview.Proofs.Access.Link
import DocumentPreview.Proofs.Config.Limits
import DocumentPreview.Proofs.Config.Order
import DocumentPreview.Proofs.Job.Codec
import DocumentPreview.Proofs.Service.Tally
import DocumentPreview.Proofs.Pipeline.Breakdown
import DocumentPreview.Proofs.Pipeline.Schedule
