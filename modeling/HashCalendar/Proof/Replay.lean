/-
**Replaying a proof.**

A proof array is replayed from a starting value, segment by segment, and the digest it reaches is
compared with the root that is expected.

Main definitions:

* `HashCalendar.Op.computeRoot` — the digest that an array leads to;
* `HashCalendar.Op.verify` — whether that digest is the expected one;
* `HashCalendar.ReplayError` — why a proof is refused.
-/

import HashCalendar.Proof.Op

set_option relaxedAutoImplicit false
set_option autoImplicit false

namespace HashCalendar

/-- Why a proof is refused. -/
inductive ReplayError where
  /-- The array is no proof. -/
  | malformed (cause : Malformed)
  /-- The proof leads to another digest. -/
  | mismatch (expected computed : Digest)
  deriving DecidableEq, Repr

/-- The wording of a refusal, where its cause has one. -/
def ReplayError.message? : ReplayError → Option String
  | .malformed cause => cause.message?.map ("Malformed proof ops: " ++ ·)
  | .mismatch expected computed =>
    some s!"Computed root {computed.toHex} does not match expected root {expected.toHex}"

namespace Op

/-- Evaluates segments one after the other; without any the starting value has to be a digest. -/
def evaluateSegments (start : Bytes) : List Path → Except Malformed Digest
  | [] => Digest.ofBytes start
  | first :: others => do
    let d ← first.evaluate start
    others.foldlM (fun d path => path.evaluate d.bytes) d

/-- The digest that an array leads to from a starting value. -/
def computeRoot (start : Bytes) (ops : List Op) : Except ReplayError Digest :=
  match segments ops with
  | .error e => .error (.malformed e)
  | .ok paths => (evaluateSegments start paths).mapError .malformed

/-- Whether an array leads from a starting value to the expected root. -/
def verify (start : Bytes) (ops : List Op) (expected : Digest) : Except ReplayError Unit := do
  let computed ← computeRoot start ops
  if computed = expected then .ok () else .error (.mismatch expected computed)

end Op

end HashCalendar
