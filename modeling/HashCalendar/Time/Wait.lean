/-
**Waiting.**

Times are given in milliseconds of 64 bits, but nothing waits for longer than thirty years.

Main definitions:

* `HashCalendar.longestWait` — the longest wait;
* `HashCalendar.boundedWait` — how long is in fact waited.
-/

set_option relaxedAutoImplicit false
set_option autoImplicit false

namespace HashCalendar

/-- The longest wait, in milliseconds: thirty years of 365 days. -/
def longestWait : Nat := 30 * 365 * 24 * 60 * 60 * 1000

/-- How long is in fact waited where a time is asked for. -/
def boundedWait (time : Nat) : Nat := min time longestWait

theorem boundedWait_le (time : Nat) : boundedWait time ≤ longestWait := Nat.min_le_right _ _

theorem boundedWait_of_le {time : Nat} (h : time ≤ longestWait) : boundedWait time = time :=
  Nat.min_eq_left h

end HashCalendar
