/-
**Bound leaves.**

A leaf of an aggregation tree never commits to a submitted hash alone.  The id of the hash is always
bound first, and a beacon tag, where there is one, over the result.  Both bindings are ordinary
steps, so a proof that starts from the submitted hash replays them before the steps of the tree.

Main definitions:

* `HashCalendar.Leaf` — a submitted hash with its id and its beacon tag;
* `HashCalendar.Leaf.digest` — the digest that enters the tree;
* `HashCalendar.Leaf.bindingSteps` — the same computation as steps;
* `HashCalendar.Leaf.bindPath` — a path of the tree, extended down to the submitted hash.
-/

import HashCalendar.Proof.Step

set_option relaxedAutoImplicit false
set_option autoImplicit false

namespace HashCalendar

/-- A submitted hash with its id and, where there is one, the beacon tag to be bound. -/
structure Leaf where
  hashId : String
  hash : Bytes
  beaconTag : Option String
  deriving DecidableEq, Repr

namespace Leaf

/-- What stands before an id in its label. -/
def idMark : String := "core_id:"

/-- What stands before a beacon tag in its label. -/
def beaconMark : String := "nist:"

/-- The step that binds an id. -/
def idStep (hashId : String) : Step := .left (.label (idMark ++ hashId))

/-- The step that binds a beacon tag. -/
def beaconStep (tag : String) : Step := .left (.label (beaconMark ++ tag))

/-- The bindings in the order of their application: the id, then the beacon tag. -/
def bindingSteps (leaf : Leaf) : List Step :=
  idStep leaf.hashId :: (leaf.beaconTag.map beaconStep).toList

/-- The digest that enters the tree. -/
def digest (f : HashFunction) (leaf : Leaf) : Digest :=
  let bound := f.digest [Text.encode idMark, Text.encode leaf.hashId, leaf.hash]
  match leaf.beaconTag with
  | none => bound
  | some tag => f.digest [Text.encode beaconMark, Text.encode tag, bound.bytes]

/-- A path of the tree, extended so that it starts from the submitted hash. -/
def bindPath (leaf : Leaf) (path : Path) : Path :=
  { path with steps := leaf.bindingSteps ++ path.steps }

end Leaf

end HashCalendar
