import HashCalendar.Aggregation.Aggregator
import HashCalendar.Aggregation.Tree
import HashCalendar.Anchor.Scheduler
import HashCalendar.Batch.Buffer
import HashCalendar.Batch.Settle
import HashCalendar.Beacon.Feed
import HashCalendar.Beacon.Source
import HashCalendar.Beacon.Value
import HashCalendar.Broker.Basic
import HashCalendar.Broker.Call
import HashCalendar.Broker.Link
import HashCalendar.Calendar.Chainer
import HashCalendar.Calendar.Inbound
import HashCalendar.Calendar.Tree
import HashCalendar.Config.Basic
import HashCalendar.Config.Document
import HashCalendar.Config.Links
import HashCalendar.Config.Setting
import HashCalendar.Hash.Blake3
import HashCalendar.Hash.Digest
import HashCalendar.Hash.Function
import HashCalendar.Hash.Sha256
import HashCalendar.Hash.Word
import HashCalendar.Json.Numeral
import HashCalendar.Json.Record
import HashCalendar.Json.Text
import HashCalendar.Json.Token
import HashCalendar.Json.Tree
import HashCalendar.Json.Value
import HashCalendar.Leaf
import HashCalendar.Main
import HashCalendar.Malformed
import HashCalendar.Merkle.Tree
import HashCalendar.Number.Decimal
import HashCalendar.Number.Shortest
import HashCalendar.Pipeline.Error
import HashCalendar.Pipeline.Service
import HashCalendar.Pipeline.Workbench
import HashCalendar.Proof.Op
import HashCalendar.Proof.Replay
import HashCalendar.Proof.Step
import HashCalendar.Text.Blank
import HashCalendar.Text.Bytes
import HashCalendar.Text.Hex
import HashCalendar.Text.Invisible
import HashCalendar.Text.Quoted
import HashCalendar.Time.Date
import HashCalendar.Time.Printer
import HashCalendar.Time.Reader
import HashCalendar.Time.Ticker
import HashCalendar.Time.Timestamp
import HashCalendar.Toml.Line
import HashCalendar.Toml.Quoted
import HashCalendar.Toml.Scalar
import HashCalendar.Toml.Table
import HashCalendar.Toml.Value
import HashCalendar.Toml.Writer
import HashCalendar.Uuid
import HashCalendar.Wire.Basic
import HashCalendar.Wire.Message
import HashCalendar.Wire.Submission
import HashCalendar.Proofs.Lists
import HashCalendar.Proofs.Runs
import HashCalendar.Proofs.Json.Scan
import HashCalendar.Proofs.Json.ReadBack
import HashCalendar.Proofs.Wire.ReadBack
import HashCalendar.Proofs.Merkle.Completeness
import HashCalendar.Proofs.Merkle.Splitting
import HashCalendar.Proofs.Proof.Replay
import HashCalendar.Proofs.Pipeline.EndToEnd
import HashCalendar.Proofs.Broker.Ledger
import HashCalendar.Proofs.Broker.Conservation
import HashCalendar.Proofs.Aggregation.Runs
import HashCalendar.Proofs.Aggregation.Layout
import HashCalendar.Proofs.Aggregation.Workers
import HashCalendar.Proofs.Aggregation.Discipline
import HashCalendar.Proofs.Aggregation.Tags
import HashCalendar.Proofs.Aggregation.Counting
import HashCalendar.Proofs.Anchor.Windows
import HashCalendar.Proofs.Broker.Feeding
import HashCalendar.Proofs.Broker.Latest
import HashCalendar.Proofs.Broker.Line
import HashCalendar.Proofs.Calendar.Runs
import HashCalendar.Proofs.Calendar.Finalizers
import HashCalendar.Proofs.Calendar.Exclusivity
import HashCalendar.Proofs.Calendar.Abandonment
import HashCalendar.Proofs.Broker.Holding
import HashCalendar.Proofs.Broker.Connecting
import HashCalendar.Proofs.Pipeline.Custody
import HashCalendar.Proofs.Pipeline.Loops
import HashCalendar.Proofs.Pipeline.Location
import HashCalendar.Proofs.Broker.Order
import HashCalendar.Proofs.Broker.Settlement
import HashCalendar.Proofs.Proof.Segments
import HashCalendar.Proofs.Proof.Binding
import HashCalendar.Proofs.Broker.Prefetch
import HashCalendar.Proofs.Broker.Refusals
import HashCalendar.Proofs.Broker.Declared
import HashCalendar.Proofs.Pipeline.Tandem
import HashCalendar.Proofs.Pipeline.Supply
import HashCalendar.Proofs.Pipeline.Reasons
import HashCalendar.Proofs.Merkle.Soundness
import HashCalendar.Proofs.Broker.Apart
import HashCalendar.Proofs.Broker.Fetching
import HashCalendar.Proofs.Pipeline.Separation
import HashCalendar.Proofs.Pipeline.Answering
import HashCalendar.Proofs.Pipeline.Undisturbed
import HashCalendar.Proofs.Pipeline.Showing
import HashCalendar.Proofs.Pipeline.Rounds
import HashCalendar.Proofs.Pipeline.Interference
import HashCalendar.Proofs.Broker.Afterwards
import HashCalendar.Proofs.Batch.Jobs
import HashCalendar.Proofs.Batch.Faults
import HashCalendar.Proofs.Batch.Accounts
import HashCalendar.Proofs.Batch.Truth
import HashCalendar.Proofs.Batch.Returning
import HashCalendar.Proofs.Broker.Outlook
import HashCalendar.Proofs.Batch.Overlap
import HashCalendar.Proofs.Pipeline.AnyOrder
import HashCalendar.Proofs.Wire.Submissions
import HashCalendar.Proofs.Proof.StepByStep
import HashCalendar.Proofs.Pipeline.Batching
import HashCalendar.Proofs.Time.DayCount
import HashCalendar.Proofs.Time.ReadBack
import HashCalendar.Proofs.Beacon.ReadBack
import HashCalendar.Proofs.Config.ReadBack
