/-
**Timestamps.**

A timestamp is a date and a time of day in universal time, to the nanosecond.  A second may be
followed by a leap second, in which the nanoseconds since it run from one to two billions.  Leap
seconds belong to the ends of minutes, and whatever is read from seconds or from text has them only
there; but a timestamp may be in one after any second.

Main definitions:

* `HashCalendar.Timestamp` — timestamps, with the proof that there is such a time;
* `HashCalendar.Timestamp.of?` — checked construction;
* `HashCalendar.Timestamp.minus?` — the universal time of a local time with its offset;
* `HashCalendar.Timestamp.ofUnix?`, `HashCalendar.Timestamp.unix` — passage to Unix seconds;
* `HashCalendar.Timestamp.truncate` — a timestamp without its fraction.
-/

import HashCalendar.Time.Date

set_option relaxedAutoImplicit false
set_option autoImplicit false

namespace HashCalendar

/-- Whether there is such a time of day, leap seconds after any second included. -/
def IsTime (hour minute second nanos : Nat) : Prop :=
  hour < 24 ∧ minute < 60 ∧ second < 60 ∧ nanos < 2000000000

instance (hour minute second nanos : Nat) : Decidable (IsTime hour minute second nanos) := by
  unfold IsTime; infer_instance

/-- A date and a time of day in universal time. -/
structure Timestamp where
  date : Date
  hour : Nat
  minute : Nat
  second : Nat
  /-- The nanoseconds since the full second; from one billion on they are in the leap second that
  follows it. -/
  nanos : Nat
  isTime : IsTime hour minute second nanos
  deriving DecidableEq

namespace Timestamp

/-- The given time on a date, if there is such a time. -/
def of? (date : Date) (hour minute second nanos : Nat) : Option Timestamp :=
  if h : IsTime hour minute second nanos then some ⟨date, hour, minute, second, nanos, h⟩ else none

/-- Whether a timestamp is in a leap second. -/
def inLeapSecond (t : Timestamp) : Bool := 1000000000 ≤ t.nanos

/-- The timestamp that is earlier by a number of minutes, which is less than a day in size; a leap
second stays one. -/
def minus? (t : Timestamp) (minutes : Int) : Option Timestamp :=
  let total : Int := 60 * t.hour + t.minute - minutes
  let clock := (total % 1440).toNat
  let date? :=
    if total < 0 then t.date.previous? else if 1440 ≤ total then t.date.next? else some t.date
  date?.bind fun date => of? date (clock / 60) (clock % 60) t.second t.nanos

/-- The time of a number of seconds after the start of 1970, which may be negative, and of
nanoseconds after that second, which are in a leap second only at the end of a minute. -/
def ofUnix? (seconds : Int) (nanos : Nat) : Option Timestamp :=
  let clock := (seconds % 86400).toNat
  if 1000000000 ≤ nanos ∧ clock % 60 ≠ 59 then none
  else (Date.ofDays? (seconds / 86400)).bind fun date =>
    of? date (clock / 3600) (clock / 60 % 60) (clock % 60) nanos

/-- The number of full seconds since the start of 1970. -/
def unix (t : Timestamp) : Int :=
  86400 * t.date.days + 3600 * t.hour + 60 * t.minute + t.second

/-- A timestamp without its fraction; a leap second stays one. -/
def truncate (t : Timestamp) : Timestamp :=
  { t with
    nanos := if t.inLeapSecond then 1000000000 else 0
    isTime := by
      obtain ⟨hhour, hminute, hsecond, -⟩ := t.isTime
      exact ⟨hhour, hminute, hsecond, by split <;> omega⟩ }

end Timestamp

end HashCalendar
