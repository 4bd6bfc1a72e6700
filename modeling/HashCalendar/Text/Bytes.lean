/-
**Byte strings and text.**

Everything that travels on a wire or enters a hash is a list of bytes; everything a person reads
is a `String`.  This module fixes the passage between the two, which is UTF-8 in both directions:
writing always succeeds, reading refuses a list of bytes that is no UTF-8 text.

Main definitions:

* `HashCalendar.Bytes` — lists of bytes;
* `HashCalendar.Bytes.ofNat` — a number as bytes;
* `HashCalendar.Text.encode` — the UTF-8 bytes of a text;
* `HashCalendar.Text.decode?` — the text with the given UTF-8 bytes, if there is one.

Main results:

* `HashCalendar.Text.decode?_eq_some_iff` — **reading and writing are inverse**: the bytes that
  are read as `s` are exactly the bytes written for `s`;
* `HashCalendar.Text.encode_append` — writing turns concatenation into concatenation.
-/

set_option relaxedAutoImplicit false
set_option autoImplicit false

namespace HashCalendar

/-- A string of bytes. -/
abbrev Bytes := List UInt8

/-- The last `width` bytes of a number, the most significant first. -/
def Bytes.ofNat (width n : Nat) : Bytes :=
  (List.range width).map fun k => UInt8.ofNat (n >>> (8 * (width - 1 - k)))

@[simp] theorem Bytes.length_ofNat (width n : Nat) : (Bytes.ofNat width n).length = width := by
  simp [Bytes.ofNat]

namespace Text

/-- The UTF-8 bytes of a text. -/
def encode (s : String) : Bytes := s.toUTF8.data.toList

/-- The text whose UTF-8 bytes are given, if there is one. -/
def decode? (bs : Bytes) : Option String := String.fromUTF8? ⟨bs.toArray⟩

/-! ### Reading and writing are inverse -/

@[simp] theorem decode?_encode (s : String) : decode? (encode s) = some s := by
  have h : (ByteArray.mk (encode s).toArray) = s.toByteArray := rfl
  unfold decode? String.fromUTF8?
  rw [h, dif_pos s.isValidUTF8]
  rfl

theorem encode_of_decode? {bs : Bytes} {s : String} (h : decode? bs = some s) :
    encode s = bs := by
  unfold decode? String.fromUTF8? at h
  split at h
  · obtain rfl := Option.some.inj h
    rfl
  · cases h

/-- The bytes that are read as `s` are exactly the bytes written for `s`. -/
theorem decode?_eq_some_iff {bs : Bytes} {s : String} : decode? bs = some s ↔ bs = encode s :=
  ⟨fun h => (encode_of_decode? h).symm, fun h => h ▸ decode?_encode s⟩

theorem encode_injective {s t : String} (h : encode s = encode t) : s = t := by
  have := congrArg decode? h
  simpa using this

@[simp] theorem encode_append (s t : String) : encode (s ++ t) = encode s ++ encode t := by
  simp [encode, String.toByteArray_append, ByteArray.data_append]

/-- The bytes of a text are the bytes of its characters. -/
theorem encode_ofList (cs : List Char) :
    encode (String.ofList cs) = cs.flatMap String.utf8EncodeChar := by
  simp [encode, List.utf8Encode]

@[simp] theorem encode_empty : encode "" = [] := rfl

/-- Only the empty text has no bytes. -/
theorem encode_eq_nil_iff {s : String} : encode s = [] ↔ s = "" :=
  ⟨fun h => encode_injective (h.trans encode_empty.symm), fun h => h ▸ encode_empty⟩

end Text

end HashCalendar
