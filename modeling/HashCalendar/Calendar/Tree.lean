/-
**Calendar trees.**

A calendar tree is built over a batch of aggregate roots.  Once it is finalized it counts as a block
of the calendar; its entry can be looked up under an address made from its identifier.

Main definitions:

* `HashCalendar.CalendarTree.build` — the tree over a batch;
* `HashCalendar.CalendarTree.anchorReference` — where its entry can be looked up;
* `HashCalendar.CalendarTree.messages` — the answers to the aggregate roots;
* `HashCalendar.CalendarTree.block` — the tree as a block of the calendar.
-/

import HashCalendar.Broker.Call
import HashCalendar.Merkle.Tree
import HashCalendar.Wire.Message

set_option relaxedAutoImplicit false
set_option autoImplicit false

namespace HashCalendar

/-- The kind of messages from the calendar tier. -/
def calendarKind : String := "cal"

/-- How far a calendar tree has come. -/
inductive Stage where
  | built
  | finalizing
  | finalized
  | failed
  deriving DecidableEq, Repr

/-- A block of the calendar. -/
structure Block where
  calId : Uuid
  calRoot : Digest
  /-- The number of aggregate roots below the root. -/
  aggCount : Nat
  deriving DecidableEq, Repr

/-- A tree over a batch of aggregate roots. -/
structure CalendarTree where
  id : Uuid
  root : Digest
  /-- The path of each aggregate root to the root of the tree. -/
  paths : List Path
  stage : Stage
  deriving DecidableEq, Repr

namespace CalendarTree

/-- The tree over a batch. -/
def build (id : Uuid) (f : HashFunction) (batch : List AggregateRoot) :
    Except Merkle.Error CalendarTree :=
  (Merkle.Tree.build f (batch.map AggregateRoot.aggRoot)).map fun tree =>
    ⟨id, tree.root, tree.proofs, .built⟩

/-- A text without the slashes at its end. -/
def trimSlashes (s : String) : String :=
  String.ofList (s.toList.reverse.dropWhile (· = '/')).reverse

/-- Where the entry of the tree can be looked up. -/
def anchorReference (tree : CalendarTree) (baseUri : String) : AnchorReference :=
  ⟨tree.id.text, [trimSlashes baseUri ++ "/calendar/" ++ tree.id.text ++ "/root"]⟩

/-- The answer to an aggregate root. -/
def stateMessage (tree : CalendarTree) (baseUri : String) (root : AggregateRoot) (path : Path) :
    CalendarState :=
  ⟨root, tree.id, tree.root, path.ops, tree.anchorReference baseUri⟩

/-- The answers to the aggregate roots of the batch. -/
def messages (tree : CalendarTree) (queue baseUri : String) (batch : List AggregateRoot) :
    List Outbound :=
  List.zipWith
    (fun root path => ⟨queue, some calendarKind,
      (tree.stateMessage baseUri root path).toJson.render⟩)
    batch tree.paths

/-- The tree as a block of the calendar. -/
def block (tree : CalendarTree) : Block := ⟨tree.id, tree.root, tree.paths.length⟩

end CalendarTree

end HashCalendar
