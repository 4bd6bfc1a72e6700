/-
**The link to the broker.**

A component keeps one connection to the broker.  To connect it opens a channel, declares its queues,
and starts to consume the first of them; the channel is then shared with the publishers of the
component, which see it before the first delivery arrives.  Attempts are repeated with a fixed delay
until one succeeds.

During an attempt the connection may get lost or come back; such an incident is given with the
attempt.

Main definitions:

* `HashCalendar.Link` — a link with its shared channel;
* `HashCalendar.Link.attempt` — one attempt to connect;
* `HashCalendar.Link.connect` — attempts up to a limit of time;
* `HashCalendar.Receiver` — the consuming end of a connection.
-/

import HashCalendar.Broker.Call
import HashCalendar.Time.Wait

set_option relaxedAutoImplicit false
set_option autoImplicit false

namespace HashCalendar

/-- What a link connects to, and how. -/
structure Link.Settings where
  uri : String
  prefetch : Nat
  /-- The queue to be consumed. -/
  consumes : String
  /-- Further queues to be declared. -/
  declares : List String
  /-- The wait after a failed attempt, in milliseconds. -/
  reconnectDelay : Nat
  deriving DecidableEq, Repr

/-- How long a failed attempt is in fact waited for. -/
def Link.Settings.wait (s : Link.Settings) : Nat := boundedWait s.reconnectDelay

/-- A link, with its shared channel while there is one. -/
structure Link where
  settings : Link.Settings
  channel : Option Channel := none
  deriving DecidableEq, Repr

/-- The consuming end of a connection: the stream that deliveries arrive in, and the connection that
they are settled on. -/
structure Receiver where
  generation : Nat
  stream : Nat
  deriving DecidableEq, Repr

/-- The handle of a delivery. -/
def Receiver.handle (r : Receiver) (d : Delivery) : Handle := ⟨r.generation, d.tag⟩

/-- What happens to the connection during an attempt. -/
inductive Incident where
  | nothing
  /-- No channel can be opened. -/
  | refused
  /-- The connection is lost right after the channel was opened. -/
  | lostAfterOpening
  /-- The connection is lost right before consuming starts. -/
  | lostBeforeConsuming
  /-- The broker becomes reachable before the channel is opened. -/
  | recovered
  deriving DecidableEq, Repr

namespace Broker

/-- Declares queues in order, up to the first failure. -/
def declareAll (b : Broker) (ch : Channel) : List String → Broker × Except Error Unit
  | [] => (b, .ok ())
  | queue :: queues =>
    match b.declareQueue ch queue with
    | (b, .ok ()) => declareAll b ch queues
    | (b, .error e) => (b, .error e)

/-- Opens a channel, declares the queues of a link and sets the prefetch. -/
def prepareChannel (b : Broker) (settings : Link.Settings) (incident : Incident) :
    Broker × Except Error Channel :=
  let b := if incident = .recovered then b.setReachable true else b
  if incident = .refused then (b, .error (.unreachable settings.uri))
  else match b.openChannel settings.uri with
    | .error e => (b, .error e)
    | .ok ch =>
      let b := if incident = .lostAfterOpening then b.close else b
      match b.declareAll ch (settings.consumes :: settings.declares) with
      | (b, .error e) => (b, .error e)
      | (b, .ok ()) => (b, b.setPrefetch ch settings.prefetch)

end Broker

namespace Link

/-- One attempt to connect.  If it fails before the channel is shared, the link stays as it was, and
if it fails afterwards, the link has no channel. -/
def attempt (b : Broker) (link : Link) (incident : Incident) :
    Broker × Link × Except Broker.Error Receiver :=
  match b.prepareChannel link.settings incident with
  | (b, .error e) => (b, link, .error e)
  | (b, .ok ch) =>
    let b := if incident = .lostBeforeConsuming then b.close else b
    match b.consume ch link.settings.consumes with
    | (b, .error e) => (b, { link with channel := none }, .error e)
    | (b, .ok stream) => (b, { link with channel := some ch }, .ok ⟨ch.generation, stream⟩)

/-- Gives the channel up after the connection was lost. -/
def close (link : Link) : Link := { link with channel := none }

/-- How connecting ended. -/
structure Connecting where
  receiver : Option Receiver
  /-- The number of attempts made. -/
  attempts : Nat
  /-- The time that passed, in milliseconds. -/
  waited : Nat
  deriving DecidableEq, Repr

/-- Up to `budget` further attempts to connect, after `made` failed ones; each meets the next of the
incidents. -/
def connectWithin (limit : Nat) :
    (budget made : Nat) → List Incident → Broker → Link → Broker × Link × Connecting
  | 0, made, _, b, link => (b, link, ⟨none, made, limit⟩)
  | budget + 1, made, incidents, b, link =>
    match link.attempt b (incidents.head?.getD .nothing) with
    | (b, link, .ok receiver) =>
      (b, link, ⟨some receiver, made + 1, made * link.settings.wait⟩)
    | (b, link, .error _) => connectWithin limit budget (made + 1) incidents.tail b link

/-- Attempts to connect until one succeeds, or is given up when a number of milliseconds has
passed.  Without a delay no time passes, and the attempts are those with an incident and one
more. -/
def connect (b : Broker) (link : Link) (incidents : List Incident) (limit : Nat) :
    Broker × Link × Connecting :=
  let delay := link.settings.wait
  let budget := if delay = 0 then incidents.length + 1 else limit / delay + 1
  connectWithin limit budget 0 incidents b link

end Link

end HashCalendar
