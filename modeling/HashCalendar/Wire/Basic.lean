/-
**Basic parts of wire messages.**

Digests and identifiers travel as strings of hexadecimal digits, hash functions as their tag, the
elements of a proof as objects with a single member, and beacon values as records.  Each part has a
written form and a reader; every part that was written is read back, and readers take some further
forms of the same document.

Main definitions, each with `toJson` and `ofJson?`:

* `HashCalendar.Digest`, `HashCalendar.Uuid`, `HashCalendar.HashFunction`, `HashCalendar.Op`,
  `HashCalendar.BeaconValue`.
-/

import HashCalendar.Json.Record
import HashCalendar.Proof.Op
import HashCalendar.Uuid
import HashCalendar.Beacon.Value

set_option relaxedAutoImplicit false
set_option autoImplicit false

namespace HashCalendar

/-- The written form of a digest. -/
def Digest.toJson (d : Digest) : Json := .ofText d.toHex

/-- Reads a digest. -/
def Digest.ofJson? (j : Json) : Option Digest :=
  j.textOf?.bind fun s => (Digest.ofHex s).toOption

/-- The written form of an identifier. -/
def Uuid.toJson (u : Uuid) : Json := .ofText u.text

/-- Reads an identifier. -/
def Uuid.ofJson? (j : Json) : Option Uuid := j.textOf?.bind Uuid.ofText?

/-- The written form of a hash function. -/
def HashFunction.toJson (f : HashFunction) : Json := .ofText f.tag

/-- Reads a hash function: its tag, or an object with null under its tag. -/
def HashFunction.ofJson? : Json → Option HashFunction
  | .string body => (Json.text? body).bind fun s => (HashFunction.ofTag s).toOption
  | j =>
    match j.variant? with
    | some (tag, .null) => (HashFunction.ofTag tag).toOption
    | _ => none

/-- The written form of an element of a proof. -/
def Op.toJson : Op → Json
  | .left v => .ofMembers [("l", .ofText v)]
  | .right v => .ofMembers [("r", .ofText v)]
  | .function tag => .ofMembers [("op", .ofText tag)]

/-- Reads an element of a proof. -/
def Op.ofJson? (j : Json) : Option Op := do
  let (key, v) ← j.variant?
  let s ← v.textOf?
  if key = "l" then some (.left s)
  else if key = "r" then some (.right s)
  else if key = "op" then some (.function s)
  else none

/-- The written form of a proof. -/
def Op.listToJson (ops : List Op) : Json := .array (ops.map Op.toJson)

/-- Reads a proof. -/
def Op.listOfJson? (j : Json) : Option (List Op) := j.listOf? Op.ofJson?

/-- The written form of a beacon value. -/
def BeaconValue.toJson (v : BeaconValue) : Json :=
  .ofMembers [("timestamp", .ofText v.timestamp.exact), ("value", .ofText v.value)]

/-- Reads a beacon value; the output is taken as it is. -/
def BeaconValue.ofJson? (j : Json) : Option BeaconValue := do
  let fields ← j.record? ["timestamp", "value"]
  let timestamp ← Json.field? fields "timestamp" fun t => t.textOf?.bind Timestamp.ofLenient?
  let value ← Json.field? fields "value" Json.textOf?
  some ⟨timestamp, value⟩

/-- Reads a whole document in the way given for its content. -/
def Json.decode? {α : Type} (content? : Json → Option α) (bs : Bytes) : Option α :=
  (Json.read? bs).bind content?

end HashCalendar
