/-
**The links of the two tiers.**

The aggregation tier consumes submissions, and publishes states and aggregate roots; the calendar
tier consumes aggregate roots, and publishes states and requests for anchoring.

Main definitions:

* `HashCalendar.Config.aggregatorLink`, `HashCalendar.Config.calendarLink` — the settings of their
  links;
* `HashCalendar.Config.Anchoring.period` — the time between requests in milliseconds.
-/

import HashCalendar.Broker.Link
import HashCalendar.Config.Basic

set_option relaxedAutoImplicit false
set_option autoImplicit false

namespace HashCalendar.Config

/-- The settings of a link on which one queue is consumed and others are declared. -/
def link (c : Config) (consumes : String) (declares : List String) : Link.Settings :=
  { uri := c.connection.uri
    prefetch := c.connection.prefetch.toNat
    consumes
    declares
    reconnectDelay := c.connection.reconnectDelay.toNat }

/-- The link of the aggregation tier. -/
def aggregatorLink (c : Config) : Link.Settings :=
  c.link c.queues.aggregatorIn [c.queues.stateOut, c.queues.calendarIn]

/-- The link of the calendar tier. -/
def calendarLink (c : Config) : Link.Settings :=
  c.link c.queues.calendarIn [c.queues.stateOut, c.queues.anchorOut]

/-- The time between requests for anchoring, in milliseconds. -/
def Anchoring.period (c : Anchoring) : Nat := c.interval.toNat * 1000

end HashCalendar.Config
