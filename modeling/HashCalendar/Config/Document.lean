/-
**Configurations as documents and files.**

A configuration has a section for each of its parts.  In a document, sections and fields may be
missing, in which case the defaults hold, and there may be others, which do not count.  A written
file holds every section and every field; only the directory of the beacon is left out where there
is none.

Main definitions:

* `HashCalendar.Config.ofSetting?` — the configuration that settings make up;
* `HashCalendar.Config.ofJson?` — the configuration in a JSON document;
* `HashCalendar.Config.ofFile`, `HashCalendar.Config.toFile` — TOML files;
* `HashCalendar.Config.toJson` — a configuration as a JSON document.
-/

import HashCalendar.Config.Basic
import HashCalendar.Config.Setting
import HashCalendar.Toml.Line
import HashCalendar.Toml.Writer

set_option relaxedAutoImplicit false
set_option autoImplicit false

namespace HashCalendar.Config

open Setting (Format fieldOr?)

/-! ### Reading settings -/

/-- Reads the part on the broker. -/
def Connection.ofSetting? (format : Format) (s : Setting) : Option Connection := do
  let fields ← s.record? format ["uri", "prefetch", "reconnect_delay_ms"]
  let absent : Connection := {}
  some
    { uri := ← fieldOr? fields "uri" absent.uri Setting.text?
      prefetch := ← fieldOr? fields "prefetch" absent.prefetch Setting.word16?
      reconnectDelay :=
        ← fieldOr? fields "reconnect_delay_ms" absent.reconnectDelay Setting.word64? }

/-- Reads the names of the queues. -/
def Queues.ofSetting? (format : Format) (s : Setting) : Option Queues := do
  let fields ← s.record? format ["aggregator_in", "calendar_in", "state_out", "anchor_out"]
  let absent : Queues := {}
  some
    { aggregatorIn := ← fieldOr? fields "aggregator_in" absent.aggregatorIn Setting.text?
      calendarIn := ← fieldOr? fields "calendar_in" absent.calendarIn Setting.text?
      stateOut := ← fieldOr? fields "state_out" absent.stateOut Setting.text?
      anchorOut := ← fieldOr? fields "anchor_out" absent.anchorOut Setting.text? }

/-- Reads the part on the aggregation tier. -/
def Aggregation.ofSetting? (format : Format) (s : Setting) : Option Aggregation := do
  let fields ← s.record? format
    ["aggregation_interval_ms", "max_batch_size", "hash_function", "bind_beacon"]
  let absent : Aggregation := {}
  some
    { interval := ← fieldOr? fields "aggregation_interval_ms" absent.interval Setting.word64?
      maxBatchSize := ← fieldOr? fields "max_batch_size" absent.maxBatchSize Setting.word64?
      function := ← fieldOr? fields "hash_function" absent.function (Setting.hashFunction? format)
      bindBeacon := ← fieldOr? fields "bind_beacon" absent.bindBeacon Setting.flag? }

/-- Reads the part on the calendar tier. -/
def Calendar.ofSetting? (format : Format) (s : Setting) : Option Calendar := do
  let fields ← s.record? format
    ["calendar_interval_ms", "finalize_interval_ms", "max_batch_size", "hash_function", "base_uri"]
  let absent : Calendar := {}
  some
    { interval := ← fieldOr? fields "calendar_interval_ms" absent.interval Setting.word64?
      finalizeInterval :=
        ← fieldOr? fields "finalize_interval_ms" absent.finalizeInterval Setting.word64?
      maxBatchSize := ← fieldOr? fields "max_batch_size" absent.maxBatchSize Setting.word64?
      function := ← fieldOr? fields "hash_function" absent.function (Setting.hashFunction? format)
      baseUri := ← fieldOr? fields "base_uri" absent.baseUri Setting.text? }

/-- Reads the part on anchoring. -/
def Anchoring.ofSetting? (format : Format) (s : Setting) : Option Anchoring := do
  let fields ← s.record? format ["interval_secs", "hash_function"]
  let absent : Anchoring := {}
  some
    { interval := ← fieldOr? fields "interval_secs" absent.interval Setting.word64?
      function := ← fieldOr? fields "hash_function" absent.function (Setting.hashFunction? format) }

/-- Reads the part on the beacon. -/
def Beacon.ofSetting? (format : Format) (s : Setting) : Option Beacon := do
  let fields ← s.record? format ["key", "refresh_interval_ms", "source_dir"]
  let absent : Beacon := {}
  some
    { key := ← fieldOr? fields "key" absent.key Setting.text?
      refreshInterval :=
        ← fieldOr? fields "refresh_interval_ms" absent.refreshInterval Setting.word64?
      sourceDir := ← fieldOr? fields "source_dir" absent.sourceDir Setting.optionalText? }

/-- The configuration that settings make up. -/
def ofSetting? (format : Format) (s : Setting) : Option Config := do
  let parts ← s.record? format ["broker", "queues", "aggregator", "calendar", "anchor", "beacon"]
  some
    { connection := ← fieldOr? parts "broker" {} (Connection.ofSetting? format)
      queues := ← fieldOr? parts "queues" {} (Queues.ofSetting? format)
      aggregation := ← fieldOr? parts "aggregator" {} (Aggregation.ofSetting? format)
      calendar := ← fieldOr? parts "calendar" {} (Calendar.ofSetting? format)
      anchoring := ← fieldOr? parts "anchor" {} (Anchoring.ofSetting? format)
      beacon := ← fieldOr? parts "beacon" {} (Beacon.ofSetting? format) }

/-- The configuration in a JSON document. -/
def ofJson? (document : Json) : Option Config :=
  (Json.value? document).bind fun v => ofSetting? Setting.json (Setting.ofValue v)

/-! ### Writing -/

/-- The sections of a written file. -/
def sections (c : Config) : List Toml.Section :=
  [ ⟨"broker",
      [("uri", .text c.connection.uri), ("prefetch", .count c.connection.prefetch.toNat),
        ("reconnect_delay_ms", .count c.connection.reconnectDelay.toNat)]⟩,
    ⟨"queues",
      [("aggregator_in", .text c.queues.aggregatorIn), ("calendar_in", .text c.queues.calendarIn),
        ("state_out", .text c.queues.stateOut), ("anchor_out", .text c.queues.anchorOut)]⟩,
    ⟨"aggregator",
      [("aggregation_interval_ms", .count c.aggregation.interval.toNat),
        ("max_batch_size", .count c.aggregation.maxBatchSize.toNat),
        ("hash_function", .text c.aggregation.function.tag),
        ("bind_beacon", .flag c.aggregation.bindBeacon)]⟩,
    ⟨"calendar",
      [("calendar_interval_ms", .count c.calendar.interval.toNat),
        ("finalize_interval_ms", .count c.calendar.finalizeInterval.toNat),
        ("max_batch_size", .count c.calendar.maxBatchSize.toNat),
        ("hash_function", .text c.calendar.function.tag),
        ("base_uri", .text c.calendar.baseUri)]⟩,
    ⟨"anchor",
      [("interval_secs", .count c.anchoring.interval.toNat),
        ("hash_function", .text c.anchoring.function.tag)]⟩,
    ⟨"beacon",
      [("key", .text c.beacon.key),
        ("refresh_interval_ms", .count c.beacon.refreshInterval.toNat)] ++
        (c.beacon.sourceDir.map fun dir => ("source_dir", Toml.Entry.text dir)).toList⟩ ]

/-- A configuration as the content of a file. -/
def toFile (c : Config) : Except ConfigError String :=
  match Toml.write? c.sections with
  | some text => .ok text
  | none => .error .number

/-- The configuration in a file; `none` is a file that is not there.  An address of the broker given
apart takes the place of the one in the file, which may be known to others. -/
def ofFile (file : Option Bytes) (uri : Option String) : Except ConfigError Config :=
  match file.bind Text.decode? with
  | none => .error .file
  | some text =>
    match (Toml.read? text.toList).bind fun members =>
        ofSetting? Setting.toml (.record (Setting.ofTomlMembers members)) with
    | none => .error .document
    | some c => .ok { c with connection := { c.connection with uri := uri.getD c.connection.uri } }

/-- A configuration as a JSON document with all of its sections and fields. -/
def toJson (c : Config) : Json :=
  .ofMembers
    [ ("broker", .ofMembers
        [("uri", .ofText c.connection.uri), ("prefetch", .ofNat c.connection.prefetch.toNat),
          ("reconnect_delay_ms", .ofNat c.connection.reconnectDelay.toNat)]),
      ("queues", .ofMembers
        [("aggregator_in", .ofText c.queues.aggregatorIn),
          ("calendar_in", .ofText c.queues.calendarIn), ("state_out", .ofText c.queues.stateOut),
          ("anchor_out", .ofText c.queues.anchorOut)]),
      ("aggregator", .ofMembers
        [("aggregation_interval_ms", .ofNat c.aggregation.interval.toNat),
          ("max_batch_size", .ofNat c.aggregation.maxBatchSize.toNat),
          ("hash_function", .ofText c.aggregation.function.tag),
          ("bind_beacon", .bool c.aggregation.bindBeacon)]),
      ("calendar", .ofMembers
        [("calendar_interval_ms", .ofNat c.calendar.interval.toNat),
          ("finalize_interval_ms", .ofNat c.calendar.finalizeInterval.toNat),
          ("max_batch_size", .ofNat c.calendar.maxBatchSize.toNat),
          ("hash_function", .ofText c.calendar.function.tag),
          ("base_uri", .ofText c.calendar.baseUri)]),
      ("anchor", .ofMembers
        [("interval_secs", .ofNat c.anchoring.interval.toNat),
          ("hash_function", .ofText c.anchoring.function.tag)]),
      ("beacon", .ofMembers
        [("key", .ofText c.beacon.key),
          ("refresh_interval_ms", .ofNat c.beacon.refreshInterval.toNat),
          ("source_dir", match c.beacon.sourceDir with
            | some dir => .ofText dir
            | none => .null)]) ]

end HashCalendar.Config
