/-
**Configurations.**

A configuration says how the pipeline reaches its broker, what its queues are called, how often each
tier builds its trees and over how many items, and where beacon values come from.  Its parts keep
their numbers as words of the width that they have on disk.

Main definitions:

* `HashCalendar.Config` — a configuration, whose defaults make up the default configuration;
* `HashCalendar.Config.validate` — whether all of it is within the accepted ranges;
* `HashCalendar.ConfigError` — what can be wrong with a configuration or its file.
-/

import HashCalendar.Hash.Function

set_option relaxedAutoImplicit false
set_option autoImplicit false

namespace HashCalendar

namespace Config

/-- How the broker is reached. -/
structure Connection where
  uri : String := "memory://localhost"
  /-- How many deliveries a consumer may have unacknowledged; 0 for no limit. -/
  prefetch : UInt16 := 0
  /-- The wait between attempts to connect, in milliseconds. -/
  reconnectDelay : UInt64 := 5000
  deriving DecidableEq, Repr

/-- The names of the queues. -/
structure Queues where
  /-- Submissions. -/
  aggregatorIn : String := "work.agg"
  /-- Aggregate roots, and news of anchoring transactions. -/
  calendarIn : String := "work.cal"
  /-- The states of proofs, from both tiers. -/
  stateOut : String := "work.state"
  /-- Requests for anchoring. -/
  anchorOut : String := "work.btctx"
  deriving DecidableEq, Repr

/-- The aggregation tier. -/
structure Aggregation where
  /-- The time between trees, in milliseconds. -/
  interval : UInt64 := 1000
  /-- The most submissions in a tree. -/
  maxBatchSize : UInt64 := 25000
  function : HashFunction := .sha256
  /-- Whether the latest beacon value is bound into leaves that come without one. -/
  bindBeacon : Bool := false
  deriving DecidableEq, Repr

/-- The calendar tier. -/
structure Calendar where
  /-- The time between trees, in milliseconds. -/
  interval : UInt64 := 1000
  /-- The time between finalizations, in milliseconds. -/
  finalizeInterval : UInt64 := 1000
  /-- The most aggregate roots in a tree. -/
  maxBatchSize : UInt64 := 25000
  function : HashFunction := .sha256
  /-- The address under which calendar entries are looked up. -/
  baseUri : String := "http://127.0.0.1:8080"
  deriving DecidableEq, Repr

/-- The anchoring of calendar blocks. -/
structure Anchoring where
  /-- The time between requests, in seconds. -/
  interval : UInt64 := 600
  function : HashFunction := .sha256
  deriving DecidableEq, Repr

/-- The beacon. -/
structure Beacon where
  key : String := "nist_latest"
  /-- The time between readings, in milliseconds. -/
  refreshInterval : UInt64 := 60000
  /-- The directory that holds beacon values; without it there are none. -/
  sourceDir : Option String := none
  deriving DecidableEq, Repr

end Config

/-- A configuration of the pipeline. -/
structure Config where
  connection : Config.Connection := {}
  queues : Config.Queues := {}
  aggregation : Config.Aggregation := {}
  calendar : Config.Calendar := {}
  anchoring : Config.Anchoring := {}
  beacon : Config.Beacon := {}
  deriving DecidableEq, Repr

/-- What can be wrong with a configuration or its file. -/
inductive ConfigError where
  /-- The file cannot be read or written, or is no text. -/
  | file
  /-- The file is no configuration. -/
  | document
  /-- A number does not fit the file. -/
  | number
  /-- A setting is outside its range. -/
  | outOfRange (field : String) (value min max : Nat)
  /-- A text is empty. -/
  | empty (field : String)
  deriving DecidableEq, Repr

/-- The wording of an error, where it has one. -/
def ConfigError.message? : ConfigError → Option String
  | .file | .document | .number => none
  | .outOfRange field value min max =>
    some s!"{field} = {value} is outside the accepted range {min}..={max}"
  | .empty field => some s!"{field} must not be empty"

namespace Config

/-! ### Validation -/

/-- Checks that a number is in a range. -/
def checkRange (field : String) (value : UInt64) (min max : Nat) : Except ConfigError Unit :=
  if min ≤ value.toNat ∧ value.toNat ≤ max then .ok ()
  else .error (.outOfRange field value.toNat min max)

/-- Checks that a text is not empty. -/
def checkNotEmpty (field text : String) : Except ConfigError Unit :=
  if text = "" then .error (.empty field) else .ok ()

/-- Checks a time between ticks, in milliseconds. -/
def checkTick (field : String) (value : UInt64) : Except ConfigError Unit :=
  checkRange field value 250 10000

/-- Checks the size of a batch. -/
def checkBatch (field : String) (value : UInt64) : Except ConfigError Unit :=
  checkRange field value 100 25000

/-- Checks a time that must not be zero. -/
def checkPositive (field : String) (value : UInt64) : Except ConfigError Unit :=
  checkRange field value 1 (UInt64.size - 1)

/-- Checks the part on the broker. -/
def Connection.validate (c : Connection) : Except ConfigError Unit := do
  checkNotEmpty "broker.uri" c.uri
  checkPositive "broker.reconnect_delay_ms" c.reconnectDelay

/-- Checks the names of the queues. -/
def Queues.validate (c : Queues) : Except ConfigError Unit := do
  checkNotEmpty "queues.aggregator_in" c.aggregatorIn
  checkNotEmpty "queues.calendar_in" c.calendarIn
  checkNotEmpty "queues.state_out" c.stateOut
  checkNotEmpty "queues.anchor_out" c.anchorOut

/-- Checks the part on the aggregation tier. -/
def Aggregation.validate (c : Aggregation) : Except ConfigError Unit := do
  checkTick "aggregator.aggregation_interval_ms" c.interval
  checkBatch "aggregator.max_batch_size" c.maxBatchSize

/-- Checks the part on the calendar tier. -/
def Calendar.validate (c : Calendar) : Except ConfigError Unit := do
  checkTick "calendar.calendar_interval_ms" c.interval
  checkTick "calendar.finalize_interval_ms" c.finalizeInterval
  checkBatch "calendar.max_batch_size" c.maxBatchSize
  checkNotEmpty "calendar.base_uri" c.baseUri

/-- Checks the part on anchoring. -/
def Anchoring.validate (c : Anchoring) : Except ConfigError Unit :=
  checkRange "anchor.interval_secs" c.interval 60 86400

/-- Checks the part on the beacon. -/
def Beacon.validate (c : Beacon) : Except ConfigError Unit := do
  checkNotEmpty "beacon.key" c.key
  checkPositive "beacon.refresh_interval_ms" c.refreshInterval

/-- Checks a configuration, part by part; the first fault found is told. -/
def validate (c : Config) : Except ConfigError Unit := do
  c.connection.validate
  c.queues.validate
  c.aggregation.validate
  c.calendar.validate
  c.anchoring.validate
  c.beacon.validate

end Config

end HashCalendar
