/-
**The beacon feed.**

The latest beacon value is kept where the aggregation tier can take a snapshot of its tag at any
time.

Main definitions:

* `HashCalendar.Feed` — the latest value, if there has been one;
* `HashCalendar.Feed.publish`, `HashCalendar.Feed.snapshot` — writing and reading it.
-/

import HashCalendar.Beacon.Value

set_option relaxedAutoImplicit false
set_option autoImplicit false

namespace HashCalendar

/-- The latest beacon value, if there has been one. -/
structure Feed where
  latest : Option BeaconValue := none
  deriving DecidableEq

namespace Feed

/-- Replaces the latest value, and tells whether it was another one. -/
def publish (feed : Feed) (v : BeaconValue) : Feed × Bool := (⟨some v⟩, feed.latest ≠ some v)

/-- The tag of the latest value. -/
def snapshot (feed : Feed) : Option String := feed.latest.map BeaconValue.tag

end Feed

end HashCalendar
