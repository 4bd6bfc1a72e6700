/-
**Submissions.**

A submission asks for a hash to be time-stamped.  On the wire it carries an id, the hash as
hexadecimal text and optionally a beacon tag.  It is valid if the id is not empty and the hash has
20 to 64 bytes; an empty beacon tag counts as none.  The text of the hash is kept as it was sent, to
be echoed in the answer.

Main definitions:

* `HashCalendar.Submission.Payload` — a submission as it is sent;
* `HashCalendar.Submission` — a valid submission;
* `HashCalendar.Submission.ofPayload`, `HashCalendar.Submission.ofBytes` — checked and unchecked
  construction;
* `HashCalendar.Submission.read` — a submission from the bytes of a message.
-/

import HashCalendar.Wire.Basic

set_option relaxedAutoImplicit false
set_option autoImplicit false

namespace HashCalendar

/-- A submission as it is sent. -/
structure Submission.Payload where
  hashId : String
  /-- The hash as hexadecimal text. -/
  hash : String
  beaconTag : Option String
  deriving DecidableEq, Repr

/-- A hash to be time-stamped. -/
structure Submission where
  hashId : String
  hash : Bytes
  /-- The hash as it was sent. -/
  hashText : String
  beaconTag : Option String
  deriving DecidableEq, Repr

namespace Submission

/-- The fewest bytes of a hash. -/
def minHashLength : Nat := 20

/-- The most bytes of a hash. -/
def maxHashLength : Nat := 64

/-- The written form of a payload; an absent beacon tag is left out. -/
def Payload.toJson (p : Payload) : Json :=
  .ofMembers ([("hash_id", .ofText p.hashId), ("hash", .ofText p.hash)] ++
    (p.beaconTag.map fun t => ("nist", Json.ofText t)).toList)

/-- Reads a payload; a beacon tag that is missing or null is absent. -/
def Payload.ofJson? (j : Json) : Option Payload := do
  let fields ← j.record? ["hash_id", "hash", "nist"]
  let hashId ← Json.field? fields "hash_id" Json.textOf?
  let hash ← Json.field? fields "hash" Json.textOf?
  let beaconTag ← Json.fieldOr? fields "nist" none (Json.optionOf? Json.textOf?)
  some ⟨hashId, hash, beaconTag⟩

/-- The submission that a payload asks for.  The id is checked first, then the digits of the hash,
then its length. -/
def ofPayload (p : Payload) : Except Malformed Submission :=
  if p.hashId = "" then .error .emptyHashId
  else match Hex.decode p.hash with
    | .error e => .error (.hex e)
    | .ok hash =>
      if minHashLength ≤ hash.length ∧ hash.length ≤ maxHashLength then
        .ok ⟨p.hashId, hash, p.hash, p.beaconTag.filter fun t => t ≠ ""⟩
      else .error (.hashLength hash.length)

/-- A submission of the given bytes, as if they had been sent in lower-case digits. -/
def ofBytes (hashId : String) (hash : Bytes) (beaconTag : Option String) : Submission :=
  ⟨hashId, hash, Hex.encode hash, beaconTag⟩

/-- The submission that a message holds. -/
def read (message : Bytes) : Except Malformed Submission :=
  match Json.decode? Payload.ofJson? message with
  | none => .error .document
  | some p => ofPayload p

end Submission

end HashCalendar
