/-
**Decimal digits.**

A natural number is written by its digits, the most significant first and without leading zeros.
Digits are numbers below ten; how a digit looks as a character or as a byte is a separate matter.

Main definitions:

* `HashCalendar.Decimal.digits`, `HashCalendar.Decimal.value` — a number to its digits and back;
* `HashCalendar.Decimal.padded` — digits with leading zeros up to a width;
* `HashCalendar.Decimal.char`, `HashCalendar.Decimal.ofChar?`, `HashCalendar.Decimal.byte`,
  `HashCalendar.Decimal.ofByte?` — a digit as a character and as a byte.

Main results:

* `HashCalendar.Decimal.value_digits` — the digits of a number have its value;
* `HashCalendar.Decimal.ofChar?_char`, `HashCalendar.Decimal.ofByte?_byte` — a digit is read back.
-/

import HashCalendar.Text.Bytes

set_option relaxedAutoImplicit false
set_option autoImplicit false

namespace HashCalendar.Decimal

/-- The digits of a number, the most significant first; zero has one digit. -/
def digits (n : Nat) : List Nat := if n < 10 then [n] else digits (n / 10) ++ [n % 10]

/-- The number that digits denote. -/
def value (ds : List Nat) : Nat := ds.foldl (fun v d => 10 * v + d) 0

/-- The digits of a number with leading zeros up to a width. -/
def padded (width n : Nat) : List Nat :=
  List.replicate (width - (digits n).length) 0 ++ digits n

/-- A digit as a character. -/
def char (d : Nat) : Char := Char.ofNat (48 + d)

/-- The digit that a character shows. -/
def ofChar? (c : Char) : Option Nat :=
  if '0' ≤ c ∧ c ≤ '9' then some (c.toNat - 48) else none

/-- A digit as a byte. -/
def byte (d : Nat) : UInt8 := UInt8.ofNat (48 + d)

/-- The digit that a byte shows. -/
def ofByte? (b : UInt8) : Option Nat :=
  if 48 ≤ b ∧ b ≤ 57 then some (b.toNat - 48) else none

/-- A number as text. -/
def chars (n : Nat) : List Char := (digits n).map char

/-! ### Writing and reading are inverse -/

@[simp] theorem value_append_singleton (ds : List Nat) (d : Nat) :
    value (ds ++ [d]) = 10 * value ds + d := by
  simp [value]

/-- The digits of a number have its value. -/
@[simp] theorem value_digits (n : Nat) : value (digits n) = n := by
  fun_induction digits n with
  | case1 n h => simp [value]
  | case2 n h ih => rw [value_append_singleton, ih]; omega

theorem lt_ten_of_mem_digits {n d : Nat} (h : d ∈ digits n) : d < 10 := by
  fun_induction digits n with
  | case1 n hn => simp only [List.mem_singleton] at h; omega
  | case2 n hn ih =>
    rcases List.mem_append.1 h with h | h
    · exact ih h
    · simp only [List.mem_singleton] at h; omega

theorem digits_ne_nil (n : Nat) : digits n ≠ [] := by
  fun_cases digits n <;> simp

@[simp] theorem ofChar?_char {d : Nat} (h : d < 10) : ofChar? (char d) = some d := by
  match d, h with
  | 0, _ | 1, _ | 2, _ | 3, _ | 4, _ | 5, _ | 6, _ | 7, _ | 8, _ | 9, _ => decide

@[simp] theorem ofByte?_byte {d : Nat} (h : d < 10) : ofByte? (byte d) = some d := by
  match d, h with
  | 0, _ | 1, _ | 2, _ | 3, _ | 4, _ | 5, _ | 6, _ | 7, _ | 8, _ | 9, _ => decide

end HashCalendar.Decimal
