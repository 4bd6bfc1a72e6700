/-
**Digests.**

A digest is a string of exactly 32 bytes.  It is written as 64 lower-case hexadecimal digits and
read from 64 digits of either case.

Main definitions:

* `HashCalendar.Digest` — strings of 32 bytes;
* `HashCalendar.Digest.ofBytes`, `HashCalendar.Digest.ofHex` — checked construction;
* `HashCalendar.Digest.toHex` — the written form;
* `HashCalendar.Digest.abbreviated` — a short form for diagnostics.
-/

import HashCalendar.Malformed

set_option relaxedAutoImplicit false
set_option autoImplicit false

namespace HashCalendar

/-- A string of 32 bytes. -/
structure Digest where
  bytes : Bytes
  length_eq : bytes.length = 32
  deriving DecidableEq

namespace Digest

instance : Repr Digest where
  reprPrec d _ := Hex.encode d.bytes

/-- The digest with the given bytes, if there are 32 of them. -/
def ofBytes (bs : Bytes) : Except Malformed Digest :=
  if h : bs.length = 32 then .ok ⟨bs, h⟩ else .error (.digestLength bs.length)

/-- The digest written as a hexadecimal text. -/
def ofHex (text : String) : Except Malformed Digest :=
  match Hex.decode text with
  | .ok bs => ofBytes bs
  | .error e => .error (.hex e)

/-- The 64 digits of a digest. -/
def toHex (d : Digest) : String := Hex.encode d.bytes

/-- The first sixteen digits, for diagnostics. -/
def abbreviated (d : Digest) : String := s!"Digest({Hex.encode (d.bytes.take 8)})"

@[ext] theorem ext {d e : Digest} (h : d.bytes = e.bytes) : d = e := by
  cases d; cases e; cases h; rfl

@[simp] theorem ofBytes_bytes (d : Digest) : ofBytes d.bytes = .ok d := by
  simp [ofBytes, d.length_eq]

/-- The digest of a list of bytes is the one that has these bytes. -/
theorem ofBytes_eq_ok_iff {bs : Bytes} {d : Digest} : ofBytes bs = .ok d ↔ bs = d.bytes := by
  constructor
  · intro h
    unfold ofBytes at h
    split at h
    · cases h; rfl
    · cases h
  · rintro rfl
    exact ofBytes_bytes d

end Digest

end HashCalendar
