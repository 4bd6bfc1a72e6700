/-
**Identifiers.**

Trees and anchor requests are named by identifiers of sixteen bytes.  One is written as 32
hexadecimal digits in five groups joined by hyphens; it is also read from plain digits, from the
hyphenated form in braces, and behind a mark for its kind of name.

New identifiers come from a supply that never yields one twice; they have the shape of random ones,
with the number 4 in the place for their version and a variant digit `8`.

Main definitions:

* `HashCalendar.Uuid` — identifiers;
* `HashCalendar.Uuid.text`, `HashCalendar.Uuid.ofText?` — writing and reading;
* `HashCalendar.Uuid.fresh` — the identifier of a given number in the supply.
-/

import HashCalendar.Text.Hex

set_option relaxedAutoImplicit false
set_option autoImplicit false

namespace HashCalendar

/-- A string of sixteen bytes. -/
structure Uuid where
  bytes : Bytes
  length_eq : bytes.length = 16
  deriving DecidableEq

namespace Uuid

instance : Repr Uuid where
  reprPrec u _ := Hex.encode u.bytes

/-- The identifier that is all zeros. -/
def zero : Uuid := ⟨List.replicate 16 0, by simp⟩

/-- The written form: groups of 8, 4, 4, 4 and 12 digits. -/
def text (u : Uuid) : String :=
  let group (start count : Nat) : String := Hex.encode ((u.bytes.drop start).take count)
  s!"{group 0 4}-{group 4 2}-{group 6 2}-{group 8 2}-{group 10 6}"

/-! ### Reading -/

/-- The identifier with the given 32 digits. -/
def ofDigits? (digits : Bytes) : Option Uuid :=
  match Hex.decodeBytes digits with
  | .ok bs => if h : bs.length = 16 then some ⟨bs, h⟩ else none
  | .error _ => none

/-- The identifier with the given digits in groups. -/
def ofGroups? (bs : Bytes) : Option Uuid :=
  let hyphen : UInt8 := 0x2d
  if bs.length = 36 ∧ bs[8]? = some hyphen ∧ bs[13]? = some hyphen ∧ bs[18]? = some hyphen ∧
      bs[23]? = some hyphen then
    ofDigits? (bs.take 8 ++ (bs.drop 9).take 4 ++ (bs.drop 14).take 4 ++ (bs.drop 19).take 4 ++
      bs.drop 24)
  else none

/-- The mark before a name that is an identifier; its letters may be of either case. -/
def nameMark : Bytes := Text.encode "urn:uuid:"

/-- A byte with the letters `A` to `Z` in lower case. -/
def lowered (byte : UInt8) : UInt8 := if 65 ≤ byte ∧ byte ≤ 90 then byte + 32 else byte

/-- Reads an identifier in any of its forms. -/
def ofText? (s : String) : Option Uuid :=
  let bs := Text.encode s
  if bs.length = 32 then ofDigits? bs
  else if bs.length = 36 then ofGroups? bs
  else if bs.length = 38 ∧ bs.head? = some 0x7b ∧ bs.getLast? = some 0x7d then
    ofGroups? (bs.drop 1).dropLast
  else if (bs.take nameMark.length).map lowered = nameMark then ofGroups? (bs.drop nameMark.length)
  else none

/-! ### The supply of new identifiers -/

/-- The identifier of a given number in the supply. -/
def fresh (n : Nat) : Uuid :=
  ⟨Bytes.ofNat 6 (n >>> 48) ++ [0x40, 0, 0x80, 0] ++ Bytes.ofNat 6 n, by simp⟩

end Uuid

end HashCalendar
