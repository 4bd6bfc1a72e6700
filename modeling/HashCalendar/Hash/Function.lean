/-
**The hash functions on offer.**

A tree is built, and a proof replayed, with one of three hash functions: SHA-256, SHA-256 applied
twice, and BLAKE3.  On the wire each is named by its tag.

Main definitions:

* `HashCalendar.HashFunction` — the three functions;
* `HashCalendar.HashFunction.tag`, `HashCalendar.HashFunction.ofTag` — their names;
* `HashCalendar.HashFunction.digest` — the digest of several parts, one after the other;
* `HashCalendar.HashFunction.pair` — the digest of two digests.

Main results:

* `HashCalendar.HashFunction.ofTag_eq_ok_iff` — a function is read from its own tag and no other.
-/

import HashCalendar.Hash.Digest
import HashCalendar.Hash.Sha256
import HashCalendar.Hash.Blake3

set_option relaxedAutoImplicit false
set_option autoImplicit false

namespace HashCalendar

/-- The hash functions on offer. -/
inductive HashFunction where
  | sha256
  /-- SHA-256 of the SHA-256 digest. -/
  | sha256x2
  | blake3
  deriving DecidableEq, Repr

namespace HashFunction

/-- The function used where none is named. -/
instance : Inhabited HashFunction := ⟨.sha256⟩

/-- The name of a function on the wire. -/
def tag : HashFunction → String
  | .sha256 => "sha-256"
  | .sha256x2 => "sha-256-x2"
  | .blake3 => "blake3"

/-- The function of a given name. -/
def ofTag (text : String) : Except Malformed HashFunction :=
  if text = "sha-256" then .ok .sha256
  else if text = "sha-256-x2" then .ok .sha256x2
  else if text = "blake3" then .ok .blake3
  else .error (.hashFunction text)

/-- The digest of one string of bytes. -/
def apply : HashFunction → Bytes → Digest
  | .sha256, m => ⟨Sha256.hash m, Sha256.length_hash m⟩
  | .sha256x2, m => ⟨Sha256.hash (Sha256.hash m), Sha256.length_hash _⟩
  | .blake3, m => ⟨Blake3.hash m, Blake3.length_hash m⟩

/-- The digest of several parts, one after the other. -/
def digest (f : HashFunction) (parts : List Bytes) : Digest := f.apply parts.flatten

/-- The digest of two digests. -/
def pair (f : HashFunction) (left right : Digest) : Digest := f.digest [left.bytes, right.bytes]

@[simp] theorem ofTag_tag (f : HashFunction) : ofTag f.tag = .ok f := by cases f <;> rfl

/-- A function is read from its own tag and no other. -/
theorem ofTag_eq_ok_iff {text : String} {f : HashFunction} :
    ofTag text = .ok f ↔ text = f.tag := by
  constructor
  · intro h
    unfold ofTag at h
    split at h
    · cases h; assumption
    · split at h
      · cases h; assumption
      · split at h
        · cases h; assumption
        · cases h
  · rintro rfl
    exact ofTag_tag f

theorem tag_injective {f g : HashFunction} (h : f.tag = g.tag) : f = g :=
  Except.ok.inj ((ofTag_tag f).symm.trans (h ▸ ofTag_tag g))

end HashFunction

end HashCalendar
