/-
**Words of 32 bits in two byte orders.**

Both hash functions of this library work on 32-bit words.  One of them reads and writes a word with
its most significant byte first, the other with its least significant byte first.

Main definitions:

* `HashCalendar.Word.initial` — the words that hashing starts from;
* `HashCalendar.Word.rotateRight` — a cyclic shift;
* `HashCalendar.Word.bigEndian`, `HashCalendar.Word.littleEndian` — the four bytes of a word;
* `HashCalendar.Word.ofBigEndian`, `HashCalendar.Word.ofLittleEndian` — the word at an offset of an
  array of bytes, where a byte beyond the end counts as zero.
-/

import HashCalendar.Text.Bytes

set_option relaxedAutoImplicit false
set_option autoImplicit false

namespace HashCalendar.Word

/-- The words that both hash functions start from: the first 32 bits of the fractional parts of the
square roots of the first eight primes. -/
def initial : Vector UInt32 8 :=
  #v[0x6a09e667, 0xbb67ae85, 0x3c6ef372, 0xa54ff53a, 0x510e527f, 0x9b05688c, 0x1f83d9ab, 0x5be0cd19]

/-- Shifts cyclically to the right by `k` places, for `0 < k < 32`. -/
def rotateRight (w k : UInt32) : UInt32 := (w >>> k) ||| (w <<< (32 - k))

/-- The bytes of a word, the most significant first. -/
def bigEndian (w : UInt32) : Bytes :=
  [(w >>> 24).toUInt8, (w >>> 16).toUInt8, (w >>> 8).toUInt8, w.toUInt8]

/-- The bytes of a word, the least significant first. -/
def littleEndian (w : UInt32) : Bytes :=
  [w.toUInt8, (w >>> 8).toUInt8, (w >>> 16).toUInt8, (w >>> 24).toUInt8]

/-- The word at an offset, the most significant byte first. -/
def ofBigEndian (bytes : Array UInt8) (offset : Nat) : UInt32 :=
  let at_ (k : Nat) : UInt32 := (bytes.getD (offset + k) 0).toUInt32
  (at_ 0 <<< 24) ||| (at_ 1 <<< 16) ||| (at_ 2 <<< 8) ||| at_ 3

/-- The word at an offset, the least significant byte first. -/
def ofLittleEndian (bytes : Array UInt8) (offset : Nat) : UInt32 :=
  let at_ (k : Nat) : UInt32 := (bytes.getD (offset + k) 0).toUInt32
  at_ 0 ||| (at_ 1 <<< 8) ||| (at_ 2 <<< 16) ||| (at_ 3 <<< 24)

/-- The eight words of a digest written out, one after the other. -/
def concat (write : UInt32 → Bytes) (words : Vector UInt32 8) : Bytes :=
  words.toList.flatMap write

theorem length_concat {write : UInt32 → Bytes} (h : ∀ w, (write w).length = 4)
    (words : Vector UInt32 8) : (concat write words).length = 32 := by
  have sum : ∀ l : List UInt32, (l.flatMap write).length = 4 * l.length := by
    intro l
    induction l with
    | nil => rfl
    | cons w l ih => simp [List.flatMap_cons, h, ih]; omega
  rw [concat, sum, Vector.length_toList]

end HashCalendar.Word
