/-
**Aggregation trees.**

An aggregation tree is built over a batch of submissions.  Each submission is bound to its id and to
a beacon tag, its own or else one for the whole batch, before it enters the tree as a leaf; the path
that belongs to it starts from the submitted hash.

Main definitions:

* `HashCalendar.AggregationTree.build` — the tree over a batch;
* `HashCalendar.AggregationTree.rootMessage` — what the calendar tier is told of it;
* `HashCalendar.AggregationTree.messages` — the answers to the submissions, and the root.
-/

import HashCalendar.Broker.Call
import HashCalendar.Config.Basic
import HashCalendar.Leaf
import HashCalendar.Merkle.Tree
import HashCalendar.Wire.Message

set_option relaxedAutoImplicit false
set_option autoImplicit false

namespace HashCalendar

/-- The kind of messages from the aggregation tier. -/
def aggregatorKind : String := "aggregator"

/-- A tree over a batch of submissions. -/
structure AggregationTree where
  id : Uuid
  root : Digest
  leafCount : Nat
  /-- The path of each submission, from its hash to the root. -/
  paths : List Path
  deriving DecidableEq, Repr

namespace AggregationTree

/-- The leaf of a submission; its own beacon tag comes before that of the batch. -/
def leafOf (beacon : Option String) (s : Submission) : Leaf :=
  ⟨s.hashId, s.hash, s.beaconTag.or beacon⟩

/-- The tree over a batch. -/
def build (id : Uuid) (f : HashFunction) (beacon : Option String) (batch : List Submission) :
    Except Merkle.Error AggregationTree :=
  let leaves := batch.map (leafOf beacon)
  (Merkle.Tree.build f (leaves.map fun leaf => leaf.digest f)).map fun tree =>
    { id
      root := tree.root
      leafCount := tree.leafCount
      paths := List.zipWith Leaf.bindPath leaves tree.proofs }

/-- What the calendar tier is told of the tree. -/
def rootMessage (tree : AggregationTree) : AggregateRoot := ⟨tree.id, tree.root, tree.leafCount⟩

/-- The answer to a submission. -/
def stateMessage (tree : AggregationTree) (s : Submission) (path : Path) : AggregationState :=
  ⟨s.hashId, s.hashText, tree.id, path.ops⟩

/-- The answers to the submissions of the batch, followed by the root. -/
def messages (tree : AggregationTree) (queues : Config.Queues) (batch : List Submission) :
    List Outbound :=
  List.zipWith
      (fun s path => ⟨queues.stateOut, some aggregatorKind,
        (tree.stateMessage s path).toJson.render⟩)
      batch tree.paths ++
    [⟨queues.calendarIn, some aggregatorKind, tree.rootMessage.toJson.render⟩]

end AggregationTree

end HashCalendar
