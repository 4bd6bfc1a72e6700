/-
**Timestamps as text.**

A timestamp is written with the date, the letter `T`, the time and the letter `Z`.  Years from 0 to
9999 have four digits, other years a sign and at least four digits; a leap second is shown as the
second that comes next, at the end of a minute as second 60.  The fraction is left out, or written
with 0, 3, 6 or 9 digits, the fewest that are exact.

Main definitions:

* `HashCalendar.Timestamp.seconds` — the text without a fraction;
* `HashCalendar.Timestamp.exact` — the text with as much of the fraction as needed.
-/

import HashCalendar.Time.Timestamp

set_option relaxedAutoImplicit false
set_option autoImplicit false

namespace HashCalendar.Timestamp

/-- A number with leading zeros up to a width. -/
def digitsOf (width n : Nat) : List Char := (Decimal.padded width n).map Decimal.char

/-- A year. -/
def yearChars (year : Int) : List Char :=
  if 0 ≤ year ∧ year ≤ 9999 then digitsOf 4 year.toNat
  else (if year < 0 then '-' else '+') :: digitsOf 4 year.natAbs

/-- The second that is shown, which is the next one in a leap second. -/
def shownSecond (t : Timestamp) : Nat := if t.inLeapSecond then t.second + 1 else t.second

/-- The fraction of the second that is shown, in nanoseconds. -/
def shownNanos (t : Timestamp) : Nat := t.nanos % 1000000000

/-- Date and time up to the second. -/
def wholeChars (t : Timestamp) : List Char :=
  yearChars t.date.year ++ '-' :: digitsOf 2 t.date.month ++ '-' :: digitsOf 2 t.date.day ++
  'T' :: digitsOf 2 t.hour ++ ':' :: digitsOf 2 t.minute ++ ':' :: digitsOf 2 t.shownSecond

/-- The fraction of the second with the fewest digits out of 0, 3, 6 and 9. -/
def fractionChars (nanos : Nat) : List Char :=
  if nanos = 0 then []
  else if nanos % 1000000 = 0 then '.' :: digitsOf 3 (nanos / 1000000)
  else if nanos % 1000 = 0 then '.' :: digitsOf 6 (nanos / 1000)
  else '.' :: digitsOf 9 nanos

/-- The text of a timestamp without a fraction. -/
def seconds (t : Timestamp) : String := String.ofList (t.wholeChars ++ ['Z'])

/-- The text of a timestamp with as much of the fraction as needed. -/
def exact (t : Timestamp) : String :=
  String.ofList (t.wholeChars ++ fractionChars t.shownNanos ++ ['Z'])

end HashCalendar.Timestamp
