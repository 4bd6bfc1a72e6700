/-
**Beacon values.**

A beacon publishes, from time to time, a value that nobody could know before.  A beacon value is the
time of such a pulse and its output as hexadecimal text; its tag, the time to the second and the
value joined by a colon, is what gets bound into leaves.

Main definitions:

* `HashCalendar.BeaconValue` — a time and a value;
* `HashCalendar.BeaconValue.of` — checked construction;
* `HashCalendar.BeaconValue.tag`, `HashCalendar.BeaconValue.ofTag` — writing and reading a tag.
-/

import HashCalendar.Malformed
import HashCalendar.Time.Printer
import HashCalendar.Time.Reader

set_option relaxedAutoImplicit false
set_option autoImplicit false

namespace HashCalendar

/-- A pulse of a beacon: when it was produced, and its output. -/
structure BeaconValue where
  timestamp : Timestamp
  /-- The output as hexadecimal text. -/
  value : String
  deriving DecidableEq

namespace BeaconValue

/-- Whether a text can be the output of a beacon: some bytes as hexadecimal text. -/
def isOutput (value : String) : Bool :=
  value ≠ "" && match Hex.decode value with | .ok _ => true | .error _ => false

/-- The beacon value with the given time and output. -/
def of (timestamp : Timestamp) (value : String) : Except Malformed BeaconValue :=
  if isOutput value then .ok ⟨timestamp, value⟩ else .error (.beacon (.notHex value))

/-- The text bound into leaves: the time to the second and the output. -/
def tag (v : BeaconValue) : String := v.timestamp.seconds ++ ":" ++ v.value

/-- What stands before the last colon of a text, and what follows it. -/
def splitLastColon : List Char → Option (List Char × List Char)
  | [] => none
  | c :: rest =>
    match splitLastColon rest with
    | some (before, after) => some (c :: before, after)
    | none => if c = ':' then some ([], rest) else none

/-- The beacon value with the given tag.  The time is read before the output is looked at. -/
def ofTag (tag : String) : Except Malformed BeaconValue :=
  match splitLastColon tag.toList with
  | none => .error (.beacon (.noSeparator tag))
  | some (time, value) =>
    match Timestamp.ofStrictChars? time with
    | none => .error (.beacon .timestamp)
    | some timestamp => of timestamp (String.ofList value)

end BeaconValue

end HashCalendar
