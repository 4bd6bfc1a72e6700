/-
**Hexadecimal text.**

A byte is written as two lower-case hexadecimal digits, the high half first; digits of either case
are read.  A text is refused when it has an odd number of bytes, and otherwise at its first byte
that is no digit, which the error names together with its position.

Main definitions:

* `HashCalendar.Hex.encode`, `HashCalendar.Hex.decode` — bytes to digits and back;
* `HashCalendar.Hex.Error` — why a text is no hexadecimal text;
* `HashCalendar.Hex.IsHex` — texts of hexadecimal digits in even number.

Main results:

* `HashCalendar.Hex.decode_encode` — what was written is read back;
* `HashCalendar.Hex.decode_isOk_iff` — **exactly** the texts with an even number of digits and
  nothing else are read.
-/

import HashCalendar.Text.Bytes
import HashCalendar.Text.Quoted

set_option relaxedAutoImplicit false
set_option autoImplicit false

namespace HashCalendar.Hex

/-- Why a text is no hexadecimal text. -/
inductive Error where
  /-- The text has an odd number of bytes. -/
  | oddLength
  /-- The byte at this position is no digit. -/
  | invalidDigit (byte : UInt8) (position : Nat)
  deriving DecidableEq, Repr

/-- The wording of an error; a byte is shown as the character of its number. -/
def Error.message : Error → String
  | .oddLength => "Odd number of digits"
  | .invalidDigit byte position =>
    s!"Invalid character {Text.quotedChar (Char.ofNat byte.toNat)} at position {position}"

/-! ### Digits -/

/-- The lower-case digit of a value below sixteen. -/
def digit (value : Nat) : Char :=
  if value < 10 then Char.ofNat (48 + value) else Char.ofNat (87 + value)

/-- The digit of a value below sixteen as a byte. -/
def digitByte (value : Nat) : UInt8 := UInt8.ofNat (digit value).toNat

/-- The value of a digit of either case. -/
def digitValue? (byte : UInt8) : Option Nat :=
  let n := byte.toNat
  if 48 ≤ n ∧ n ≤ 57 then some (n - 48)
  else if 97 ≤ n ∧ n ≤ 102 then some (n - 87)
  else if 65 ≤ n ∧ n ≤ 70 then some (n - 55)
  else none

/-- Whether a byte is a hexadecimal digit. -/
def isDigit (byte : UInt8) : Bool := (digitValue? byte).isSome

/-! ### Writing and reading -/

/-- The two digits of a byte. -/
def byteDigits (byte : UInt8) : List Char :=
  [digit (byte.toNat / 16), digit (byte.toNat % 16)]

/-- The digits of a list of bytes. -/
def encode (bs : Bytes) : String := String.ofList (bs.flatMap byteDigits)

/-- Reads pairs of digits; `position` counts the bytes already read.  A last single byte has no
partner and is not read. -/
def decodePairs (position : Nat) : Bytes → Except Error Bytes
  | high :: low :: rest =>
    match digitValue? high, digitValue? low with
    | none, _ => .error (.invalidDigit high position)
    | some _, none => .error (.invalidDigit low (position + 1))
    | some h, some l => (decodePairs (position + 2) rest).map (UInt8.ofNat (16 * h + l) :: ·)
  | _ => .ok []

/-- Reads a hexadecimal text given by its bytes. -/
def decodeBytes (digits : Bytes) : Except Error Bytes :=
  if digits.length % 2 = 1 then .error .oddLength else decodePairs 0 digits

/-- Reads a hexadecimal text. -/
def decode (text : String) : Except Error Bytes := decodeBytes (Text.encode text)

/-- Texts of hexadecimal digits in even number. -/
def IsHex (text : String) : Prop :=
  (Text.encode text).length % 2 = 0 ∧ ∀ b ∈ Text.encode text, isDigit b = true

instance (text : String) : Decidable (IsHex text) := inferInstanceAs (Decidable (_ ∧ _))

/-! ### Writing and reading are inverse -/

theorem utf8EncodeChar_digit : ∀ v < 16, String.utf8EncodeChar (digit v) = [digitByte v] := by
  decide

@[simp] theorem digitValue?_digitByte : ∀ v < 16, digitValue? (digitByte v) = some v := by decide

/-- The bytes of the digits of a list of bytes. -/
theorem encode_encode (bs : Bytes) :
    Text.encode (encode bs) =
      bs.flatMap fun b => [digitByte (b.toNat / 16), digitByte (b.toNat % 16)] := by
  rw [encode, Text.encode_ofList, List.flatMap_assoc]
  congr 1
  funext b
  have := b.toNat_lt
  simp [byteDigits, utf8EncodeChar_digit (b.toNat / 16) (by omega),
    utf8EncodeChar_digit (b.toNat % 16) (by omega)]

theorem decodePairs_flatMap (position : Nat) (bs : Bytes) :
    decodePairs position
      (bs.flatMap fun b => [digitByte (b.toNat / 16), digitByte (b.toNat % 16)]) = .ok bs := by
  induction bs generalizing position with
  | nil => rfl
  | cons b bs ih =>
    have hb := b.toNat_lt
    have hsum : 16 * (b.toNat / 16) + b.toNat % 16 = b.toNat := by omega
    simp only [List.flatMap_cons, List.cons_append, List.nil_append, decodePairs]
    rw [digitValue?_digitByte _ (by omega), digitValue?_digitByte _ (by omega)]
    simp [ih, Except.map, hsum]

/-- What was written is read back. -/
@[simp] theorem decode_encode (bs : Bytes) : decode (encode bs) = .ok bs := by
  rw [decode, encode_encode, decodeBytes, if_neg, decodePairs_flatMap]
  simp [List.length_flatMap, List.map_const']

theorem decodePairs_isOk (position : Nat) (ds : Bytes) (h : ds.length % 2 = 0) :
    (decodePairs position ds).isOk = true ↔ ∀ b ∈ ds, isDigit b = true := by
  match ds with
  | [] => simp [decodePairs, Except.isOk, Except.toBool]
  | [a] => simp at h
  | a :: b :: rest =>
    have hr : rest.length % 2 = 0 := by simp only [List.length_cons] at h; omega
    have ih := decodePairs_isOk (position + 2) rest hr
    simp only [decodePairs, List.mem_cons, forall_eq_or_imp, isDigit]
    cases ha : digitValue? a with
    | none => simp [Except.isOk, Except.toBool]
    | some x =>
      cases hb : digitValue? b with
      | none => simp [Except.isOk, Except.toBool]
      | some y =>
        simp only [Option.isSome_some, true_and]
        rw [show (∀ c ∈ rest, (digitValue? c).isSome = true) ↔ ∀ c ∈ rest, isDigit c = true from
          Iff.rfl, ← ih]
        cases decodePairs (position + 2) rest <;> simp [Except.map, Except.isOk, Except.toBool]

/-- Exactly the texts with an even number of digits and nothing else are read. -/
theorem decode_isOk_iff (text : String) : (decode text).isOk = true ↔ IsHex text := by
  unfold decode decodeBytes IsHex
  by_cases h : (Text.encode text).length % 2 = 1
  · simp [h, Except.isOk, Except.toBool]
  · have h0 : (Text.encode text).length % 2 = 0 := by omega
    rw [if_neg h, decodePairs_isOk 0 _ h0]
    simp [h0]

end HashCalendar.Hex
