/-
**Configuration files are read back.**

A written file has a section for each part of the configuration, and in it an entry for each field;
no key stands twice.  So each field is found under its key, and holds what was written: texts to the
letter, words of 16 and 64 bits as whole numbers below their bounds, hash functions by their tags.
The directory of the beacon is left out where there is none, and none is what its absence stands
for.

Main definitions:

* `HashCalendar.Setting.ofEntry` — the setting that an entry stands for;
* `HashCalendar.Config.parts` — the parts of a configuration with their fields as settings;
* `HashCalendar.Config.numbers` — the numbers in a configuration.

Main results:

* `HashCalendar.Config.ofSetting?_parts` — the parts with all of their fields make up the whole;
* `HashCalendar.Config.toFile_eq_error_iff` — which configurations cannot be written;
* `HashCalendar.Config.ofFile_of_toFile` — a written file is read, with or without an address apart;
* `HashCalendar.configuration_files_read_back` — **configuration files are read back**.
-/

import HashCalendar.Config.Document
import HashCalendar.Proofs.Toml.ReadBack
import Mathlib.Algebra.Group.Nat.Defs

set_option relaxedAutoImplicit false
set_option autoImplicit false

namespace HashCalendar

/-! ### Fields -/

namespace Setting

section Fields

variable {α : Type} (fields : List (String × Setting)) {name : String} (absent : α)
  (value? : Setting → Option α)

@[simp] theorem fieldOr?_nil : fieldOr? [] name absent value? = some absent := rfl

@[simp] theorem fieldOr?_self (s : Setting) :
    fieldOr? ((name, s) :: fields) name absent value? = value? s := by
  rw [fieldOr?, List.lookup_cons_self]

@[simp] theorem fieldOr?_cons_of_ne {key : String} (h : name ≠ key) (s : Setting) :
    fieldOr? ((key, s) :: fields) name absent value? = fieldOr? fields name absent value? := by
  have hkey : (name == key) = false := beq_eq_false_iff_ne.2 h
  rw [fieldOr?, fieldOr?, List.lookup_cons, hkey]

end Fields

@[simp] theorem text?_text (s : String) : text? (.text s) = some s := rfl

@[simp] theorem flag?_flag (b : Bool) : flag? (.flag b) = some b := rfl

@[simp] theorem optionalText?_text (s : String) : optionalText? (.text s) = some (some s) := rfl

@[simp] theorem word16?_whole (n : UInt16) : word16? (.whole n.toNat) = some n := by
  have h : (n.toNat : Int) < UInt16.size := by exact_mod_cast n.toNat_lt
  rw [word16?, below?, if_pos ⟨by omega, h⟩, Option.map_some, Int.toNat_natCast,
    UInt16.ofNat_toNat]

@[simp] theorem word64?_whole (n : UInt64) : word64? (.whole n.toNat) = some n := by
  have h : (n.toNat : Int) < UInt64.size := by exact_mod_cast n.toNat_lt
  rw [word64?, below?, if_pos ⟨by omega, h⟩, Option.map_some, Int.toNat_natCast,
    UInt64.ofNat_toNat]

@[simp] theorem hashFunction?_tag (format : Format) (f : HashFunction) :
    hashFunction? format (.text f.tag) = some f := by
  rw [hashFunction?, HashFunction.ofTag_tag]
  rfl

/-! ### Written settings -/

/-- The setting that an entry stands for. -/
def ofEntry : Toml.Entry → Setting
  | .text s => .text s
  | .count n => .whole n
  | .flag b => .flag b

theorem ofTomlMembers_entries (entries : List (String × Toml.Entry)) :
    ofTomlMembers (entries.map fun e => (e.1, e.2.value)) =
      entries.map fun e => (e.1, ofEntry e.2) := by
  induction entries with
  | nil => rfl
  | cons e entries ih =>
      rw [List.map_cons, List.map_cons, ofTomlMembers, ih]
      cases e.2 <;> rfl

/-- The settings in written sections. -/
theorem ofTomlMembers_tables (sections : List Toml.Section) :
    ofTomlMembers (sections.map Toml.Section.table) =
      sections.map fun s => (s.name, .record (s.entries.map fun e => (e.1, ofEntry e.2))) := by
  induction sections with
  | nil => rfl
  | cons s sections ih =>
      rw [List.map_cons, List.map_cons, Toml.Section.table, ofTomlMembers, ofToml,
        ofTomlMembers_entries, ih]

end Setting

namespace Config

open Setting (Format fieldOr?)

/-! ### The parts -/

/-- The fields of the part on the broker. -/
def Connection.fields (c : Connection) : List (String × Setting) :=
  [("uri", .text c.uri), ("prefetch", .whole c.prefetch.toNat),
    ("reconnect_delay_ms", .whole c.reconnectDelay.toNat)]

/-- The names of the queues as fields. -/
def Queues.fields (c : Queues) : List (String × Setting) :=
  [("aggregator_in", .text c.aggregatorIn), ("calendar_in", .text c.calendarIn),
    ("state_out", .text c.stateOut), ("anchor_out", .text c.anchorOut)]

/-- The fields of the part on the aggregation tier. -/
def Aggregation.fields (c : Aggregation) : List (String × Setting) :=
  [("aggregation_interval_ms", .whole c.interval.toNat),
    ("max_batch_size", .whole c.maxBatchSize.toNat), ("hash_function", .text c.function.tag),
    ("bind_beacon", .flag c.bindBeacon)]

/-- The fields of the part on the calendar tier. -/
def Calendar.fields (c : Calendar) : List (String × Setting) :=
  [("calendar_interval_ms", .whole c.interval.toNat),
    ("finalize_interval_ms", .whole c.finalizeInterval.toNat),
    ("max_batch_size", .whole c.maxBatchSize.toNat), ("hash_function", .text c.function.tag),
    ("base_uri", .text c.baseUri)]

/-- The fields of the part on anchoring. -/
def Anchoring.fields (c : Anchoring) : List (String × Setting) :=
  [("interval_secs", .whole c.interval.toNat), ("hash_function", .text c.function.tag)]

/-- The fields of the part on the beacon; the directory is left out where there is none. -/
def Beacon.fields (c : Beacon) : List (String × Setting) :=
  [("key", .text c.key), ("refresh_interval_ms", .whole c.refreshInterval.toNat)] ++
    (c.sourceDir.map fun dir => ("source_dir", Setting.text dir)).toList

section Parts

variable (format : Format)

@[simp] theorem Connection.ofSetting?_fields (c : Connection) :
    ofSetting? format (.record c.fields) = some c := by
  rw [ofSetting?, Setting.record?, Option.bind_eq_bind, Option.bind_some, fields]
  dsimp only
  simp

@[simp] theorem Queues.ofSetting?_fields (c : Queues) :
    ofSetting? format (.record c.fields) = some c := by
  rw [ofSetting?, Setting.record?, Option.bind_eq_bind, Option.bind_some, fields]
  dsimp only
  simp

@[simp] theorem Aggregation.ofSetting?_fields (c : Aggregation) :
    ofSetting? format (.record c.fields) = some c := by
  rw [ofSetting?, Setting.record?, Option.bind_eq_bind, Option.bind_some, fields]
  dsimp only
  simp

@[simp] theorem Calendar.ofSetting?_fields (c : Calendar) :
    ofSetting? format (.record c.fields) = some c := by
  rw [ofSetting?, Setting.record?, Option.bind_eq_bind, Option.bind_some, fields]
  dsimp only
  simp

@[simp] theorem Anchoring.ofSetting?_fields (c : Anchoring) :
    ofSetting? format (.record c.fields) = some c := by
  rw [ofSetting?, Setting.record?, Option.bind_eq_bind, Option.bind_some, fields]
  dsimp only
  simp

@[simp] theorem Beacon.ofSetting?_fields (c : Beacon) :
    ofSetting? format (.record c.fields) = some c := by
  obtain ⟨key, refreshInterval, sourceDir⟩ := c
  rw [ofSetting?, Setting.record?, Option.bind_eq_bind, Option.bind_some, fields]
  dsimp only
  cases sourceDir with
  | none => simp
  | some dir => simp

end Parts

/-! ### The whole -/

/-- The parts of a configuration with their fields. -/
def parts (c : Config) : List (String × Setting) :=
  [("broker", .record c.connection.fields), ("queues", .record c.queues.fields),
    ("aggregator", .record c.aggregation.fields), ("calendar", .record c.calendar.fields),
    ("anchor", .record c.anchoring.fields), ("beacon", .record c.beacon.fields)]

/-- Parts with all of their fields make up the configuration. -/
theorem ofSetting?_parts (format : Format) (c : Config) :
    ofSetting? format (.record c.parts) = some c := by
  rw [ofSetting?, Setting.record?, Option.bind_eq_bind, Option.bind_some, parts]
  simp

/-- The written sections are the parts with their fields. -/
theorem ofTomlMembers_sections (c : Config) :
    Setting.ofTomlMembers (c.sections.map Toml.Section.table) = c.parts := by
  obtain ⟨connection, queues, aggregation, calendar, anchoring, key, interval, sourceDir⟩ := c
  rw [Setting.ofTomlMembers_tables]
  cases sourceDir with
  | none => rfl
  | some dir => rfl

/-! ### Files -/

/-- The keys of the sections do not depend on what is written, but for the directory of the
beacon. -/
theorem keys_sections (c : Config) :
    (c.sections.map fun s => (s.name, s.entries.map Prod.fst)) =
      [("broker", ["uri", "prefetch", "reconnect_delay_ms"]),
        ("queues", ["aggregator_in", "calendar_in", "state_out", "anchor_out"]),
        ("aggregator",
          ["aggregation_interval_ms", "max_batch_size", "hash_function", "bind_beacon"]),
        ("calendar",
          ["calendar_interval_ms", "finalize_interval_ms", "max_batch_size", "hash_function",
            "base_uri"]),
        ("anchor", ["interval_secs", "hash_function"]),
        ("beacon", ["key", "refresh_interval_ms"] ++
          if c.beacon.sourceDir.isSome then ["source_dir"] else [])] := by
  rw [sections]
  cases c.beacon.sourceDir with
  | none => rfl
  | some dir => rfl

/-- All keys are bare, and none stands twice in its section. -/
theorem legible_sections (c : Config) : ∀ s ∈ c.sections, s.Legible := by
  intro s hs
  have hkeys : ∀ keys ∈ c.sections.map fun s => (s.name, s.entries.map Prod.fst),
      Toml.IsBareKey keys.1 ∧ (∀ key ∈ keys.2, Toml.IsBareKey key) ∧ keys.2.Nodup := by
    rw [keys_sections]
    cases c.beacon.sourceDir.isSome with
    | true => decide
    | false => decide
  obtain ⟨hname, hbare, hnodup⟩ := hkeys _ (List.mem_map_of_mem hs)
  exact ⟨hname, fun e he => hbare e.1 (List.mem_map_of_mem he), hnodup⟩

/-- No section is there twice. -/
theorem nodup_sections (c : Config) : (c.sections.map Toml.Section.name).Nodup := by
  have hnames : c.sections.map Toml.Section.name =
      ["broker", "queues", "aggregator", "calendar", "anchor", "beacon"] := rfl
  rw [hnames]
  decide

/-- The numbers in a configuration. -/
def numbers (c : Config) : List Nat :=
  [c.connection.prefetch.toNat, c.connection.reconnectDelay.toNat,
    c.aggregation.interval.toNat, c.aggregation.maxBatchSize.toNat,
    c.calendar.interval.toNat, c.calendar.finalizeInterval.toNat, c.calendar.maxBatchSize.toNat,
    c.anchoring.interval.toNat, c.beacon.refreshInterval.toNat]

/-- What has to fit in the sections are the numbers of the configuration. -/
theorem fits_sections (c : Config) :
    (c.sections.all fun s => s.entries.all fun e => e.2.fits) =
      c.numbers.all fun n => decide (n < Toml.integerBound) := by
  rw [sections]
  cases c.beacon.sourceDir with
  | none => simp [numbers, Toml.Entry.fits, Bool.and_assoc]
  | some dir => simp [numbers, Toml.Entry.fits, Bool.and_assoc]

theorem toFile_eq_ok_iff {c : Config} {text : String} :
    c.toFile = .ok text ↔ Toml.write? c.sections = some text := by
  rw [toFile]
  cases Toml.write? c.sections with
  | none => exact ⟨nofun, nofun⟩
  | some written => exact ⟨fun h => congrArg some (Except.ok.inj h), fun h => h ▸ rfl⟩

/-- A configuration can be written if its numbers fit 64 bits with sign. -/
theorem exists_toFile_iff (c : Config) :
    (∃ text, c.toFile = .ok text) ↔ ∀ n ∈ c.numbers, n ≤ 2 ^ 63 - 1 := by
  have hbound : Toml.integerBound = 2 ^ 63 := rfl
  simp only [toFile_eq_ok_iff]
  rw [← Option.isSome_iff_exists, Toml.isSome_write?, fits_sections, List.all_eq_true]
  refine forall₂_congr fun n _ => ?_
  rw [decide_eq_true_eq, hbound]
  omega

/-- A configuration cannot be written exactly if one of its numbers does not fit. -/
theorem toFile_eq_error_iff (c : Config) :
    c.toFile = .error .number ↔ ∃ n ∈ c.numbers, 2 ^ 63 - 1 < n := by
  have hfails : c.toFile = .error .number ↔ ¬ ∃ text, c.toFile = .ok text := by
    rw [toFile]
    cases Toml.write? c.sections with
    | none => exact ⟨fun _ => nofun, fun _ => rfl⟩
    | some text => exact ⟨nofun, fun h => absurd ⟨text, rfl⟩ h⟩
  rw [hfails, exists_toFile_iff]
  simp only [Classical.not_forall, Nat.not_le, exists_prop]

/-- A written file is read, with an address apart or without. -/
theorem ofFile_of_toFile {c : Config} {text : String} (h : c.toFile = .ok text)
    (uri : Option String) :
    ofFile (some (Text.encode text)) uri =
      .ok { c with connection := { c.connection with uri := uri.getD c.connection.uri } } := by
  have hread := Toml.read?_write? c.legible_sections c.nodup_sections (toFile_eq_ok_iff.1 h)
  rw [ofFile, Option.bind_some, Text.decode?_encode]
  dsimp only
  rw [hread, Option.bind_some, ofTomlMembers_sections, ofSetting?_parts]

end Config

/-- **Configuration files are read back.**

* A configuration cannot be written if one of its numbers is beyond the whole numbers of a file, and
  only then.
* Otherwise the written file is read as the same configuration, which is then as valid as it was. -/
theorem configuration_files_read_back (c : Config) :
    (c.toFile = .error .number ↔ ∃ n ∈ c.numbers, 2 ^ 63 - 1 < n) ∧
    ((∀ n ∈ c.numbers, n ≤ 2 ^ 63 - 1) → ∃ text, c.toFile = .ok text ∧
      Config.ofFile (some (Text.encode text)) none = .ok c ∧
      (Config.ofFile (some (Text.encode text)) none).bind Config.validate = c.validate) := by
  refine ⟨c.toFile_eq_error_iff, fun hnumbers => ?_⟩
  obtain ⟨text, htext⟩ := c.exists_toFile_iff.2 hnumbers
  have hread : Config.ofFile (some (Text.encode text)) none = .ok c :=
    Config.ofFile_of_toFile htext none
  refine ⟨text, htext, hread, ?_⟩
  rw [hread]
  rfl

/-- Texts with quotes of both kinds, line breaks, backslashes and control characters, and a number
that just fits; and one that just does not. -/
theorem awkward_texts_read_back :
    let c : Config :=
      { connection := { uri := "'''\n\"\"\"\"\\", reconnectDelay := 9223372036854775807 }
        queues :=
          { aggregatorIn := "say \"hi\"", calendarIn := "\"it's\"", stateOut := "C:\\it's" }
        aggregation := { function := .blake3, bindBeacon := true }
        calendar := { function := .sha256x2, baseUri := "\x00\r\n\x7f\t\"'" }
        beacon := { key := "", sourceDir := some "\n" } }
    let d : Config := { c with anchoring := { interval := 9223372036854775808 } }
    ((∀ n ∈ c.numbers, n ≤ 2 ^ 63 - 1) ∧ ∃ text, c.toFile = .ok text ∧
      Config.ofFile (some (Text.encode text)) none = .ok c ∧
      (Config.ofFile (some (Text.encode text)) none).bind Config.validate = c.validate) ∧
    c.validate = .error (.empty "beacon.key") ∧ d.toFile = .error .number := by
  intro c d
  have hc : ∀ n ∈ c.numbers, n ≤ 2 ^ 63 - 1 := by decide
  have hd : ∃ n ∈ d.numbers, 2 ^ 63 - 1 < n := ⟨9223372036854775808, by decide, by decide⟩
  exact ⟨⟨hc, (configuration_files_read_back c).2 hc⟩, rfl,
    (configuration_files_read_back d).1.2 hd⟩

end HashCalendar
