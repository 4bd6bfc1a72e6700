/-
**Why a value from outside is refused.**

Digests, hash functions, submissions, proof arrays and beacon values all arrive as text or bytes.
This module lists the faults that such a value can have and words them.  A document that cannot be
read at all, and a timestamp that is no timestamp, are faults without further description.

Main definitions:

* `HashCalendar.Malformed` — the faults;
* `HashCalendar.Malformed.message?` — the wording of a fault, where it has one.
-/

import HashCalendar.Text.Hex

set_option relaxedAutoImplicit false
set_option autoImplicit false

namespace HashCalendar

/-- What is wrong with an array of proof elements. -/
inductive OpsFault where
  /-- The array has an odd number of elements. -/
  | oddCount (count : Nat)
  /-- A hash function stands where a sibling is expected. -/
  | siblingExpected (tag : String)
  /-- A sibling is not followed by a hash function. -/
  | functionExpected
  deriving DecidableEq, Repr

/-- What is wrong with a beacon value. -/
inductive BeaconFault where
  /-- The value is empty or no hexadecimal text. -/
  | notHex (value : String)
  /-- The tag holds no colon. -/
  | noSeparator (tag : String)
  /-- The part before the last colon is no timestamp. -/
  | timestamp
  deriving DecidableEq, Repr

/-- Why a value from outside is refused. -/
inductive Malformed where
  /-- A digest of a wrong number of bytes. -/
  | digestLength (length : Nat)
  /-- A submitted hash of a wrong number of bytes. -/
  | hashLength (length : Nat)
  /-- A submission without an id. -/
  | emptyHashId
  /-- A hash function that is not offered. -/
  | hashFunction (tag : String)
  /-- An array that is no proof. -/
  | ops (fault : OpsFault)
  /-- A beacon value or tag that is none. -/
  | beacon (fault : BeaconFault)
  /-- A document that cannot be read. -/
  | document
  /-- A text that is no hexadecimal text. -/
  | hex (fault : Hex.Error)
  deriving DecidableEq, Repr

/-- The wording of a fault in a proof array. -/
def OpsFault.message : OpsFault → String
  | .oddCount count => s!"odd number of elements: {count}"
  | .siblingExpected tag => s!"expected a sibling op, found op {tag}"
  | .functionExpected => "sibling op must be followed by an op element"

/-- The wording of a fault in a beacon value; a bad timestamp is not described. -/
def BeaconFault.message? : BeaconFault → Option String
  | .notHex value => some s!"value is not hex: {Text.quoted value}"
  | .noSeparator tag => some s!"missing separator: {Text.quoted tag}"
  | .timestamp => none

/-- The wording of a fault, where it has one. -/
def Malformed.message? : Malformed → Option String
  | .digestLength n => some s!"Invalid digest length: expected 32, got {n}"
  | .hashLength n => some s!"Invalid hash length: {n} bytes (expected 20 to 64)"
  | .emptyHashId => some "Empty hash id"
  | .hashFunction tag => some s!"Unsupported hash function: {tag}"
  | .ops fault => some s!"Invalid proof ops: {fault.message}"
  | .beacon fault => fault.message?.map ("Invalid beacon value: " ++ ·)
  | .document => none
  | .hex fault => some s!"Hex encoding error: {fault.message}"

end HashCalendar
