/-
**The hash function SHA-256.**

The message is padded by a one bit, zeros and its length in bits to whole blocks of 64 bytes.  Each
block is expanded to 64 words, and 64 rounds stir them into a state of eight words, to which the
state before the block is added.  The last state, most significant bytes first, is the digest.

Main definitions:

* `HashCalendar.Sha256.pad` — the padded message;
* `HashCalendar.Sha256.schedule` — the 64 words of a block;
* `HashCalendar.Sha256.compress` — one block stirred into the state;
* `HashCalendar.Sha256.hash` — the 32 bytes of the digest.

Main results:

* `HashCalendar.Sha256.length_hash` — a digest has 32 bytes.
-/

import HashCalendar.Hash.Word

set_option relaxedAutoImplicit false
set_option autoImplicit false

namespace HashCalendar.Sha256

/-! ### Constants -/

/-- The first 32 bits of the fractional parts of the cube roots of the first 64 primes. -/
def roundConstants : List UInt32 := [
  0x428a2f98, 0x71374491, 0xb5c0fbcf, 0xe9b5dba5, 0x3956c25b, 0x59f111f1, 0x923f82a4, 0xab1c5ed5,
  0xd807aa98, 0x12835b01, 0x243185be, 0x550c7dc3, 0x72be5d74, 0x80deb1fe, 0x9bdc06a7, 0xc19bf174,
  0xe49b69c1, 0xefbe4786, 0x0fc19dc6, 0x240ca1cc, 0x2de92c6f, 0x4a7484aa, 0x5cb0a9dc, 0x76f988da,
  0x983e5152, 0xa831c66d, 0xb00327c8, 0xbf597fc7, 0xc6e00bf3, 0xd5a79147, 0x06ca6351, 0x14292967,
  0x27b70a85, 0x2e1b2138, 0x4d2c6dfc, 0x53380d13, 0x650a7354, 0x766a0abb, 0x81c2c92e, 0x92722c85,
  0xa2bfe8a1, 0xa81a664b, 0xc24b8b70, 0xc76c51a3, 0xd192e819, 0xd6990624, 0xf40e3585, 0x106aa070,
  0x19a4c116, 0x1e376c08, 0x2748774c, 0x34b0bcb5, 0x391c0cb3, 0x4ed8aa4a, 0x5b9cca4f, 0x682e6ff3,
  0x748f82ee, 0x78a5636f, 0x84c87814, 0x8cc70208, 0x90befffa, 0xa4506ceb, 0xbef9a3f7, 0xc67178f2]

/-! ### Padding -/

/-- The message, a one bit, zeros up to the last eight bytes of a block, and the length in bits. -/
def pad (message : Bytes) : Bytes :=
  let zeros := (119 - message.length % 64) % 64
  message ++ 0x80 :: List.replicate zeros 0 ++ Bytes.ofNat 8 (8 * message.length)

/-! ### The word schedule -/

/-- One more word, from those 2, 7, 15 and 16 places back. -/
def nextWord (words : Array UInt32) : UInt32 :=
  let back (k : Nat) : UInt32 := words.getD (words.size - k) 0
  let x := back 15
  let y := back 2
  let s0 := Word.rotateRight x 7 ^^^ Word.rotateRight x 18 ^^^ (x >>> 3)
  let s1 := Word.rotateRight y 17 ^^^ Word.rotateRight y 19 ^^^ (y >>> 10)
  back 16 + s0 + back 7 + s1

/-- The 64 words of the block at an offset: the sixteen words of the block and 48 more. -/
def schedule (message : Array UInt8) (offset : Nat) : Array UInt32 :=
  let block := ((List.range 16).map fun k => Word.ofBigEndian message (offset + 4 * k)).toArray
  Nat.repeat (fun words => words.push (nextWord words)) 48 block

/-! ### Compression -/

/-- One round: a round constant and a schedule word are stirred into the state. -/
def round (s : Vector UInt32 8) (constant word : UInt32) : Vector UInt32 8 :=
  let s1 := Word.rotateRight s[4] 6 ^^^ Word.rotateRight s[4] 11 ^^^ Word.rotateRight s[4] 25
  let choice := (s[4] &&& s[5]) ^^^ (~~~ s[4] &&& s[6])
  let t1 := s[7] + s1 + choice + constant + word
  let s0 := Word.rotateRight s[0] 2 ^^^ Word.rotateRight s[0] 13 ^^^ Word.rotateRight s[0] 22
  let majority := (s[0] &&& s[1]) ^^^ (s[0] &&& s[2]) ^^^ (s[1] &&& s[2])
  #v[t1 + (s0 + majority), s[0], s[1], s[2], s[3] + t1, s[4], s[5], s[6]]

/-- Stirs the block at an offset into the state. -/
def compress (message : Array UInt8) (state : Vector UInt32 8) (offset : Nat) :
    Vector UInt32 8 :=
  let words := (schedule message offset).toList
  let stirred := (roundConstants.zip words).foldl (fun s kw => round s kw.1 kw.2) state
  state.zipWith (· + ·) stirred

/-- The 32 bytes of the digest of a message. -/
def hash (message : Bytes) : Bytes :=
  let padded := (pad message).toArray
  let offsets := (List.range (padded.size / 64)).map (64 * ·)
  Word.concat Word.bigEndian (offsets.foldl (compress padded) Word.initial)

theorem length_hash (message : Bytes) : (hash message).length = 32 :=
  Word.length_concat (fun _ => rfl) _

end HashCalendar.Sha256
