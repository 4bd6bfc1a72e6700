/-
**The aggregation tier.**

Valid submissions wait in a buffer with the handles of their deliveries; others are discarded.  On
each tick a batch is taken from the buffer and a tree is built over it.  Publishing the answers and
settling the deliveries is a job of its own, bound to the channel that was there at the tick.
Without a channel nothing is taken from the buffer.

Main definitions:

* `HashCalendar.Aggregator` — the state of the tier;
* `HashCalendar.Aggregator.ingest`, `HashCalendar.Aggregator.tick`,
  `HashCalendar.Aggregator.detach` — a delivery, a tick and the loss of the connection;
* `HashCalendar.AggregationJob.commit` — the job of one batch.
-/

import HashCalendar.Aggregation.Tree
import HashCalendar.Batch.Buffer
import HashCalendar.Batch.Settle
import HashCalendar.Beacon.Feed

set_option relaxedAutoImplicit false
set_option autoImplicit false

namespace HashCalendar

/-- A valid submission with the handle of its delivery. -/
structure PendingSubmission where
  submission : Submission
  handle : Handle
  deriving DecidableEq, Repr

/-- What is left to do for a batch. -/
structure AggregationJob where
  channel : Channel
  handles : List Handle
  /-- The tree over the batch and the messages to be published, unless there was nothing to build a
  tree over. -/
  prepared : Except Merkle.Error (AggregationTree × List Outbound)

namespace AggregationJob

/-- The number of deliveries of the batch. -/
def size (job : AggregationJob) : Nat := job.handles.length

/-- The tree over the batch. -/
def tree? (job : AggregationJob) : Option AggregationTree := job.prepared.toOption.map Prod.fst

/-- Publishes the messages of the batch and settles its deliveries. -/
def commit (b : Broker) (job : AggregationJob) : Broker × Outcome :=
  match job.prepared with
  | .ok (_, messages) => b.publishAndSettle job.channel messages job.handles
  | .error _ => b.settle job.handles false

end AggregationJob

/-- The state of the aggregation tier. -/
structure Aggregator where
  config : Config.Aggregation
  queues : Config.Queues
  pending : Buffer PendingSubmission := {}

namespace Aggregator

/-- Takes in a delivery: a submission is put into the buffer, anything else is discarded. -/
def ingest (b : Broker) (agg : Aggregator) (handle : Handle) (content : Content) :
    Broker × Aggregator :=
  match Submission.read content.payload with
  | .ok s => (b, { agg with pending := agg.pending.push ⟨s, handle⟩ })
  | .error _ => ((b.nack handle false).1, agg)

/-- The job over a batch. -/
def prepare (agg : Aggregator) (channel : Channel) (beacon : Option String) (id : Uuid)
    (batch : List PendingSubmission) : AggregationJob :=
  let submissions := batch.map PendingSubmission.submission
  { channel
    handles := batch.map PendingSubmission.handle
    prepared := (AggregationTree.build id agg.config.function beacon submissions).map fun tree =>
      (tree, tree.messages agg.queues submissions) }

/-- A tick: takes a batch from the buffer and prepares its job.  The beacon is asked only where the
configuration says so. -/
def tick (agg : Aggregator) (channel : Option Channel) (feed : Feed) (id : Uuid) :
    Aggregator × Option AggregationJob :=
  if agg.pending.isEmpty then (agg, none)
  else match channel with
    | none => (agg, none)
    | some ch =>
      let (batch, pending) := agg.pending.splice agg.config.maxBatchSize.toNat
      let beacon := if agg.config.bindBeacon then feed.snapshot else none
      ({ agg with pending }, some (agg.prepare ch beacon id batch))

/-- Forgets pending work after the loss of the connection; the broker delivers it again. -/
def detach (agg : Aggregator) : Aggregator := { agg with pending := agg.pending.clear.2 }

end Aggregator

end HashCalendar
