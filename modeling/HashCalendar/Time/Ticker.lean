/-
**Tickers.**

A ticker falls due again and again, one period apart.  One that was seen to late keeps its distance
from then on: the next tick is due a whole period after the late one.

Main definitions:

* `HashCalendar.Ticker` — a ticker;
* `HashCalendar.Ticker.next` — the ticker after a tick.
-/

set_option relaxedAutoImplicit false
set_option autoImplicit false

namespace HashCalendar

/-- A ticker, with times in milliseconds. -/
structure Ticker where
  period : Nat
  /-- When the next tick is due. -/
  due : Nat
  deriving DecidableEq, Repr

namespace Ticker

/-- How late a tick may be without moving the following ones, in milliseconds. -/
def tolerance : Nat := 5

/-- The ticker after its tick has been seen to. -/
def next (t : Ticker) (now : Nat) : Ticker :=
  { t with due := if t.due + tolerance < now then now + t.period else t.due + t.period }

/-- A tick is followed by a later one. -/
theorem lt_due_next {t : Ticker} {now : Nat} (h : 0 < t.period) : t.due < (t.next now).due := by
  unfold next
  simp only
  split <;> omega

end Ticker

end HashCalendar
