/-
**Messages between the tiers.**

The aggregation tier answers every submission with the state of its proof and sends the root of each
tree on to the calendar tier.  The calendar tier answers every aggregate root with the state of its
proof and a reference to where the calendar entry can be looked up, and asks for the root over a
window of its blocks to be anchored.

Main definitions, each with `toJson` and `ofJson?`:

* `HashCalendar.AggregationState` — the proof of a submission up to an aggregate root;
* `HashCalendar.AggregateRoot` — the root of an aggregation tree;
* `HashCalendar.AnchorReference` — where a calendar entry can be looked up;
* `HashCalendar.CalendarState` — the proof of an aggregate root up to a calendar root;
* `HashCalendar.AnchorRequest` — a root over calendar blocks, to be anchored.
-/

import HashCalendar.Wire.Submission

set_option relaxedAutoImplicit false
set_option autoImplicit false

namespace HashCalendar

/-! ### The aggregation tier -/

/-- The proof of a submission up to an aggregate root. -/
structure AggregationState where
  hashId : String
  /-- The hash as it was sent. -/
  hash : String
  aggId : Uuid
  ops : List Op
  deriving DecidableEq, Repr

namespace AggregationState

/-- The written form. -/
def toJson (m : AggregationState) : Json :=
  .ofMembers [("hash_id", .ofText m.hashId), ("hash", .ofText m.hash), ("agg_id", m.aggId.toJson),
    ("agg_state", .ofMembers [("ops", Op.listToJson m.ops)])]

/-- Reads the state of a proof by itself. -/
def opsOfJson? (j : Json) : Option (List Op) :=
  (j.record? ["ops"]).bind fun fields => Json.field? fields "ops" Op.listOfJson?

/-- Reads the message. -/
def ofJson? (j : Json) : Option AggregationState := do
  let fields ← j.record? ["hash_id", "hash", "agg_id", "agg_state"]
  some
    { hashId := ← Json.field? fields "hash_id" Json.textOf?
      hash := ← Json.field? fields "hash" Json.textOf?
      aggId := ← Json.field? fields "agg_id" Uuid.ofJson?
      ops := ← Json.field? fields "agg_state" opsOfJson? }

end AggregationState

/-- The root of an aggregation tree. -/
structure AggregateRoot where
  aggId : Uuid
  aggRoot : Digest
  /-- The number of submissions below the root. -/
  hashCount : Nat
  deriving DecidableEq, Repr

namespace AggregateRoot

/-- The written form. -/
def toJson (m : AggregateRoot) : Json :=
  .ofMembers [("agg_id", m.aggId.toJson), ("agg_root", m.aggRoot.toJson),
    ("agg_hash_count", .ofNat m.hashCount)]

/-- Reads the message. -/
def ofJson? (j : Json) : Option AggregateRoot := do
  let fields ← j.record? ["agg_id", "agg_root", "agg_hash_count"]
  some
    { aggId := ← Json.field? fields "agg_id" Uuid.ofJson?
      aggRoot := ← Json.field? fields "agg_root" Digest.ofJson?
      hashCount := ← Json.field? fields "agg_hash_count" Json.countOf? }

end AggregateRoot

/-! ### The calendar tier -/

/-- Where a calendar entry can be looked up. -/
structure AnchorReference where
  anchorId : String
  uris : List String
  deriving DecidableEq, Repr

namespace AnchorReference

/-- The written form. -/
def toJson (m : AnchorReference) : Json :=
  .ofMembers [("anchor_id", .ofText m.anchorId), ("uris", .array (m.uris.map Json.ofText))]

/-- Reads the reference. -/
def ofJson? (j : Json) : Option AnchorReference := do
  let fields ← j.record? ["anchor_id", "uris"]
  some
    { anchorId := ← Json.field? fields "anchor_id" Json.textOf?
      uris := ← Json.field? fields "uris" (Json.listOf? Json.textOf?) }

end AnchorReference

/-- The proof of an aggregate root up to a calendar root. -/
structure CalendarState where
  root : AggregateRoot
  calId : Uuid
  calRoot : Digest
  ops : List Op
  anchor : AnchorReference
  deriving DecidableEq, Repr

namespace CalendarState

/-- The written form. -/
def toJson (m : CalendarState) : Json :=
  .ofMembers [("agg_id", m.root.aggId.toJson), ("agg_root", m.root.aggRoot.toJson),
    ("agg_hash_count", .ofNat m.root.hashCount), ("cal_id", m.calId.toJson),
    ("cal_root", m.calRoot.toJson),
    ("cal_state", .ofMembers [("ops", Op.listToJson m.ops), ("anchor", m.anchor.toJson)])]

/-- Reads the state of a proof and its reference by themselves. -/
def stateOfJson? (j : Json) : Option (List Op × AnchorReference) := do
  let fields ← j.record? ["ops", "anchor"]
  some (← Json.field? fields "ops" Op.listOfJson?,
    ← Json.field? fields "anchor" AnchorReference.ofJson?)

/-- Reads the message. -/
def ofJson? (j : Json) : Option CalendarState := do
  let fields ← j.record? ["agg_id", "agg_root", "agg_hash_count", "cal_id", "cal_root", "cal_state"]
  let root : AggregateRoot :=
    { aggId := ← Json.field? fields "agg_id" Uuid.ofJson?
      aggRoot := ← Json.field? fields "agg_root" Digest.ofJson?
      hashCount := ← Json.field? fields "agg_hash_count" Json.countOf? }
  let (ops, anchor) ← Json.field? fields "cal_state" stateOfJson?
  some
    { root
      calId := ← Json.field? fields "cal_id" Uuid.ofJson?
      calRoot := ← Json.field? fields "cal_root" Digest.ofJson?
      ops
      anchor }

end CalendarState

/-- A root over calendar blocks, to be anchored. -/
structure AnchorRequest where
  anchorId : Uuid
  anchorRoot : Digest
  /-- The number of calendar blocks below the root. -/
  blockCount : Nat
  deriving DecidableEq, Repr

namespace AnchorRequest

/-- The written form. -/
def toJson (m : AnchorRequest) : Json :=
  .ofMembers [("anchor_agg_id", m.anchorId.toJson), ("anchor_agg_root", m.anchorRoot.toJson),
    ("anchor_agg_cal_record_count", .ofNat m.blockCount)]

/-- Reads the request. -/
def ofJson? (j : Json) : Option AnchorRequest := do
  let fields ← j.record? ["anchor_agg_id", "anchor_agg_root", "anchor_agg_cal_record_count"]
  some
    { anchorId := ← Json.field? fields "anchor_agg_id" Uuid.ofJson?
      anchorRoot := ← Json.field? fields "anchor_agg_root" Digest.ofJson?
      blockCount := ← Json.field? fields "anchor_agg_cal_record_count" Json.countOf? }

end AnchorRequest

end HashCalendar
