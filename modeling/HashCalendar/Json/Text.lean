/-
**Strings of JSON documents.**

Between its quotes a string is a list of bytes in which quotes, backslashes and control characters
are escaped.  Five control characters have a letter of their own; the others are written by number.
Reading accepts every escape of the format, where a pair of surrogates denotes one character and a
surrogate alone denotes none.

Main definitions:

* `HashCalendar.Json.escape` — the bytes of a text as they stand between quotes;
* `HashCalendar.Json.unescape?` — the bytes that stand for themselves or are escaped;
* `HashCalendar.Json.text?` — the text that a string denotes.

Main results:

* `HashCalendar.Json.unescape?_escape` — what was escaped is read back;
* `HashCalendar.Json.text?_escape` — a text written between quotes is read back.
-/

import HashCalendar.Text.Hex

set_option relaxedAutoImplicit false
set_option autoImplicit false

namespace HashCalendar.Json

/-! ### Writing -/

/-- A byte as it stands between quotes. -/
def escapeByte (b : UInt8) : Bytes :=
  if b = 0x22 then [0x5c, 0x22]
  else if b = 0x5c then [0x5c, 0x5c]
  else if b = 0x08 then [0x5c, 0x62]
  else if b = 0x0c then [0x5c, 0x66]
  else if b = 0x0a then [0x5c, 0x6e]
  else if b = 0x0d then [0x5c, 0x72]
  else if b = 0x09 then [0x5c, 0x74]
  else if b < 0x20 then
    [0x5c, 0x75, 0x30, 0x30, Hex.digitByte (b.toNat / 16), Hex.digitByte (b.toNat % 16)]
  else [b]

/-- Bytes as they stand between quotes. -/
def escape (bs : Bytes) : Bytes := bs.flatMap escapeByte

/-! ### Reading -/

/-- The byte that a letter after a backslash stands for. -/
def escaped? (letter : UInt8) : Option UInt8 :=
  if letter = 0x22 || letter = 0x5c || letter = 0x2f then some letter
  else if letter = 0x62 then some 0x08
  else if letter = 0x66 then some 0x0c
  else if letter = 0x6e then some 0x0a
  else if letter = 0x72 then some 0x0d
  else if letter = 0x74 then some 0x09
  else none

/-- The number that four hexadecimal digits denote. -/
def unit? (a b c d : UInt8) : Option Nat := do
  some (16 * (16 * (16 * (← Hex.digitValue? a) + (← Hex.digitValue? b)) + (← Hex.digitValue? c))
    + (← Hex.digitValue? d))

/-- Whether a unit is the first half of a pair of surrogates. -/
def isHigh (unit : Nat) : Bool := 0xd800 ≤ unit && unit < 0xdc00

/-- Whether a unit is the second half of a pair of surrogates. -/
def isLow (unit : Nat) : Bool := 0xdc00 ≤ unit && unit < 0xe000

/-- Reads what stands between quotes; `done` holds the bytes already read, the last one first. -/
def unescapeFrom (done : Bytes) : Bytes → Option Bytes
  | [] => some done.reverse
  | 0x5c :: 0x75 :: a :: b :: c :: d :: rest =>
    match unit? a b c d with
    | none => none
    | some unit =>
      if isLow unit then none
      else if isHigh unit then
        match rest with
        | 0x5c :: 0x75 :: e :: f :: g :: h :: rest =>
          match unit? e f g h with
          | none => none
          | some second =>
            if isLow second then
              let code := 0x10000 + 0x400 * (unit - 0xd800) + (second - 0xdc00)
              unescapeFrom ((String.utf8EncodeChar (Char.ofNat code)).reverse ++ done) rest
            else none
        | _ => none
      else unescapeFrom ((String.utf8EncodeChar (Char.ofNat unit)).reverse ++ done) rest
  | 0x5c :: letter :: rest =>
    match escaped? letter with
    | some b => unescapeFrom (b :: done) rest
    | none => none
  | b :: rest => unescapeFrom (b :: done) rest

/-- The bytes that a string denotes. -/
def unescape? (body : Bytes) : Option Bytes := unescapeFrom [] body

/-- The text that a string denotes. -/
def text? (body : Bytes) : Option String := (unescape? body).bind Text.decode?

/-! ### What was written is read back -/

theorem unit?_control :
    ∀ n < 32, unit? 0x30 0x30 (Hex.digitByte (n / 16)) (Hex.digitByte (n % 16)) = some n := by
  decide

theorem utf8EncodeChar_control :
    ∀ n < 32, String.utf8EncodeChar (Char.ofNat n) = [UInt8.ofNat n] := by
  decide

/-- A control character that was written by its number. -/
theorem unescapeFrom_control {b : UInt8} (hb : b.toNat < 32) (done rest : Bytes) :
    unescapeFrom done
      (0x5c :: 0x75 :: 0x30 :: 0x30 :: Hex.digitByte (b.toNat / 16) ::
        Hex.digitByte (b.toNat % 16) :: rest) = unescapeFrom (b :: done) rest := by
  have low : isLow b.toNat = false := by simp [isLow]; omega
  have high : isHigh b.toNat = false := by simp [isHigh]; omega
  rw [unescapeFrom]
  simp [unit?_control b.toNat hb, low, high, utf8EncodeChar_control b.toNat hb]

/-- A byte that was escaped is read back, whatever follows. -/
theorem unescapeFrom_escapeByte (b : UInt8) (done rest : Bytes) :
    unescapeFrom done (escapeByte b ++ rest) = unescapeFrom (b :: done) rest := by
  unfold escapeByte
  split
  · subst_vars; rfl
  split
  · subst_vars; rfl
  split
  · subst_vars; rfl
  split
  · subst_vars; rfl
  split
  · subst_vars; rfl
  split
  · subst_vars; rfl
  split
  · subst_vars; rfl
  split
  · rename_i h
    exact unescapeFrom_control (by simpa using UInt8.lt_iff_toNat_lt.1 h) done rest
  · rw [List.singleton_append, unescapeFrom]
    · intros; simp_all
    · intros; simp_all

theorem unescapeFrom_escape (bs done rest : Bytes) :
    unescapeFrom done (escape bs ++ rest) = unescapeFrom (bs.reverse ++ done) rest := by
  induction bs generalizing done with
  | nil => rfl
  | cons b bs ih =>
    simp only [escape, List.flatMap_cons, List.append_assoc]
    rw [unescapeFrom_escapeByte]
    exact (ih (b :: done)).trans (by simp)

/-- What was escaped is read back. -/
@[simp] theorem unescape?_escape (bs : Bytes) : unescape? (escape bs) = some bs := by
  simpa [unescape?, unescapeFrom] using unescapeFrom_escape bs [] []

/-- A text written between quotes is read back. -/
@[simp] theorem text?_escape (s : String) : text? (escape (Text.encode s)) = some s := by
  simp [text?]

end HashCalendar.Json
