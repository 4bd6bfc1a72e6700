/-
**The calendar tier.**

Aggregate roots wait in a buffer with the handles of their deliveries.  On each calendar tick a tree
is built over a batch of them; it waits until the finalize tick takes all built trees.  Publishing
the answers and settling the deliveries is a job of its own.  Only when every delivery of a tree was
acknowledged does the tree count as a block: roots that are delivered again would otherwise be
anchored twice.

Main definitions:

* `HashCalendar.Chainer` — the state of the tier;
* `HashCalendar.Chainer.ingest`, `HashCalendar.Chainer.tick`, `HashCalendar.Chainer.finalize`,
  `HashCalendar.Chainer.detach` — a delivery, the two ticks and the loss of the connection;
* `HashCalendar.FinalizeJob.run` — the job of one tree.
-/

import HashCalendar.Batch.Buffer
import HashCalendar.Batch.Settle
import HashCalendar.Calendar.Inbound
import HashCalendar.Calendar.Tree

set_option relaxedAutoImplicit false
set_option autoImplicit false

namespace HashCalendar

/-- An aggregate root with the handle of its delivery. -/
structure PendingRoot where
  message : AggregateRoot
  handle : Handle
  deriving DecidableEq, Repr

/-- A tree with the aggregate roots that it was built over. -/
structure BuiltTree where
  tree : CalendarTree
  roots : List PendingRoot
  deriving DecidableEq, Repr

/-- What is left to do for a tree. -/
structure FinalizeJob where
  channel : Channel
  tree : CalendarTree
  handles : List Handle
  messages : List Outbound
  deriving DecidableEq, Repr

/-- What became of a tree. -/
structure TreeOutcome where
  calId : Uuid
  stage : Stage
  settled : Outcome
  deriving DecidableEq, Repr

/-- Publishes the messages of a tree and settles its deliveries.  If all were acknowledged, the tree
is a block. -/
def FinalizeJob.run (b : Broker) (job : FinalizeJob) : Broker × TreeOutcome × Option Block :=
  let (b, settled) := b.publishAndSettle job.channel job.messages job.handles
  if settled.isAcked then
    (b, ⟨job.tree.id, .finalized, settled⟩, some job.tree.block)
  else (b, ⟨job.tree.id, .failed, settled⟩, none)

/-- The state of the calendar tier. -/
structure Chainer where
  config : Config.Calendar
  queues : Config.Queues
  pending : Buffer PendingRoot := {}
  /-- Trees that wait to be finalized. -/
  built : List BuiltTree := []

namespace Chainer

/-- Takes in a delivery: an aggregate root is put into the buffer, news of a transaction is
acknowledged, anything else is discarded. -/
def ingest (b : Broker) (chainer : Chainer) (handle : Handle) (content : Content) :
    Broker × Chainer :=
  match Inbound.read content with
  | .ok (.aggregateRoot m) => (b, { chainer with pending := chainer.pending.push ⟨m, handle⟩ })
  | .ok (.anchorTx _) => ((b.ack handle).1, chainer)
  | .error _ => ((b.nack handle false).1, chainer)

/-- A calendar tick: builds a tree over a batch from the buffer.  Where there was nothing to build a
tree over, the batch is given back. -/
def tick (b : Broker) (chainer : Chainer) (id : Uuid) : Broker × Chainer × Option Uuid :=
  if chainer.pending.isEmpty then (b, chainer, none)
  else
    let (batch, pending) := chainer.pending.splice chainer.config.maxBatchSize.toNat
    match CalendarTree.build id chainer.config.function (batch.map PendingRoot.message) with
    | .ok tree =>
      (b, { chainer with pending, built := chainer.built ++ [⟨tree, batch⟩] }, some id)
    | .error _ =>
      ((b.settle (batch.map PendingRoot.handle) false).1, { chainer with pending }, none)

/-- The job of a built tree. -/
def jobOf (chainer : Chainer) (channel : Channel) (built : BuiltTree) : FinalizeJob :=
  let tree := { built.tree with stage := .finalizing }
  { channel
    tree
    handles := built.roots.map PendingRoot.handle
    messages := tree.messages chainer.queues.stateOut chainer.config.baseUri
      (built.roots.map PendingRoot.message) }

/-- A finalize tick: hands out the jobs of all built trees, in the order in which they were built;
nothing happens without a channel. -/
def finalize (chainer : Chainer) (channel : Option Channel) : Chainer × List FinalizeJob :=
  match channel with
  | none => (chainer, [])
  | some ch => ({ chainer with built := [] }, chainer.built.map (chainer.jobOf ch))

/-- Forgets pending roots and built trees after the loss of the connection; the broker delivers the
roots again. -/
def detach (chainer : Chainer) : Chainer :=
  { chainer with pending := chainer.pending.clear.2, built := [] }

end Chainer

end HashCalendar
