/-
**Calls to the broker.**

Publishers and consumers talk to the broker through channels.  A channel belongs to the connection
on which it was opened, and so do the handles by which deliveries are settled: calls through an old
channel fail.  Some calls are not bound to a channel: messages come in from outside, finished ones
are taken out, and the connection can be made to fail in several ways.

Main definitions:

* `HashCalendar.Channel`, `HashCalendar.Handle` — a channel, and a claim to one delivery;
* `HashCalendar.Broker.openChannel`, `HashCalendar.Broker.declareQueue`,
  `HashCalendar.Broker.setPrefetch`, `HashCalendar.Broker.consume`, `HashCalendar.Broker.publish`,
  `HashCalendar.Broker.ack`, `HashCalendar.Broker.nack` — the calls through a channel;
* `HashCalendar.Broker.receive`, `HashCalendar.Broker.dropStream` — the receiving end;
* `HashCalendar.Broker.inject`, `HashCalendar.Broker.take` — the outside.
-/

import HashCalendar.Broker.Basic

set_option relaxedAutoImplicit false
set_option autoImplicit false

namespace HashCalendar

/-- A channel on one connection, with the prefetch for its next consumer. -/
structure Channel where
  generation : Nat
  prefetch : Nat := 0
  deriving DecidableEq, Repr

/-- The claim to one delivery, bound to the connection it arrived on. -/
structure Handle where
  generation : Nat
  tag : Nat
  deriving DecidableEq, Repr

/-- A message to be published. -/
structure Outbound where
  queue : String
  content : Content
  deriving DecidableEq, Repr

/-- What a consumer receives without waiting. -/
inductive Received where
  | delivery (d : Delivery)
  /-- Nothing has arrived yet. -/
  | empty
  /-- Nothing will arrive any more. -/
  | closed
  deriving DecidableEq, Repr

namespace Broker

/-- Checks an address: only brokers in this process are served. -/
def checkUri (uri : String) : Except Error Unit :=
  if (Text.encode "memory://").isPrefixOf (Text.encode uri) then .ok ()
  else .error (.unsupportedUri uri)

/-- Whether calls through a channel of a generation are taken. -/
def isOpen (b : Broker) (generation : Nat) : Bool := b.reachable && generation = b.generation

/-! ### Calls through a channel -/

/-- Opens a channel. -/
def openChannel (b : Broker) (uri : String) : Except Error Channel :=
  if b.reachable then .ok { generation := b.generation } else .error (.unreachable uri)

/-- Declares a queue; one that is there stays as it is. -/
def declareQueue (b : Broker) (ch : Channel) (name : String) : Broker × Except Error Unit :=
  if b.isOpen ch.generation then (b.modify name id, .ok ()) else (b, .error .channelClosed)

/-- Sets the prefetch for the next consumer of a channel. -/
def setPrefetch (b : Broker) (ch : Channel) (count : Nat) : Except Error Channel :=
  if b.isOpen ch.generation then .ok { ch with prefetch := count } else .error .channelClosed

/-- Starts to consume a queue, in place of its consumer; the number of the new stream. -/
def consume (b : Broker) (ch : Channel) (name : String) : Broker × Except Error Nat :=
  if b.isOpen ch.generation then
    match b.queue? name with
    | none => (b, .error (.unknownQueue name))
    | some _ =>
      let stream := b.streams.length
      let c : Consumer := ⟨ch.generation, ch.prefetch, stream⟩
      let registered : Broker :=
        { b.modify name fun q => { q with consumer := some c } with
          streams := b.streams ++ [{}] }
      (registered.dispatch name, .ok stream)
  else (b, .error .channelClosed)

/-- Counts a publish down to the closing of the connection. -/
def countDown (b : Broker) : Broker :=
  match b.closeAfter with
  | none => b
  | some left =>
    let b := { b with closeAfter := some (left - 1) }
    if left ≤ 1 then b.close else b

/-- Publishes a message and waits for its confirmation.  The budget is charged before the queue is
looked up. -/
def publish (b : Broker) (ch : Channel) (m : Outbound) : Broker × Except Error Unit :=
  if b.isOpen ch.generation then
    if b.budget = some 0 then (b, .error (.rejected m.queue))
    else
      let charged := { b with budget := b.budget.map (· - 1) }
      match charged.queue? m.queue with
      | none => (charged, .error (.unknownQueue m.queue))
      | some _ => (((charged.enqueue m.queue m.content).dispatch m.queue).countDown, .ok ())
  else (b, .error .channelClosed)

/-- The unacknowledged message of a tag that was handed over in a generation. -/
def unacked? (b : Broker) (generation tag : Nat) : Option Unacked :=
  (b.unacked.find? fun u => u.tag = tag).filter fun u => u.generation = generation

/-- The broker without the unacknowledged message of a tag. -/
def dropUnacked (b : Broker) (tag : Nat) : Broker :=
  { b with unacked := b.unacked.filter fun u => u.tag ≠ tag }

/-- Acknowledges a delivery: its message is done with. -/
def ack (b : Broker) (h : Handle) : Broker × Except Error Unit :=
  if b.isOpen h.generation then
    match b.unacked? h.generation h.tag with
    | none => (b, .error (.unknownTag h.tag))
    | some entry => ((b.dropUnacked h.tag).dispatch entry.queue, .ok ())
  else (b, .error .channelClosed)

/-- Refuses a delivery: its message returns to the head of its queue or is discarded. -/
def nack (b : Broker) (h : Handle) (back : Bool) : Broker × Except Error Unit :=
  if b.isOpen h.generation then
    match b.unacked? h.generation h.tag with
    | none => (b, .error (.unknownTag h.tag))
    | some entry =>
      let dropped := b.dropUnacked h.tag
      let returned := if back then dropped.requeue entry else dropped
      (returned.dispatch entry.queue, .ok ())
  else (b, .error .channelClosed)

/-! ### The receiving end -/

/-- Takes the next delivery from a stream, without waiting.  A stream that no consumer feeds any
more still gives out what has arrived. -/
def receive (b : Broker) (stream : Nat) : Broker × Received :=
  match b.streams[stream]? with
  | some ⟨d :: rest, listening⟩ =>
    ({ b with streams := b.streams.set stream ⟨rest, listening⟩ }, .delivery d)
  | _ => (b, if b.isFed stream then .empty else .closed)

/-- Stops listening to a stream. -/
def dropStream (b : Broker) (stream : Nat) : Broker :=
  { b with streams := b.streams.modify stream fun _ => ⟨[], false⟩ }

/-! ### The outside -/

/-- Puts a message into a queue from outside. -/
def inject (b : Broker) (name : String) (content : Content) : Broker :=
  (b.enqueue name content).dispatch name

/-- Takes all ready messages out of a queue. -/
def take (b : Broker) (name : String) : Broker × List Message :=
  match b.queue? name with
  | none => (b, [])
  | some q => (b.modify name fun q => { q with ready := [] }, q.ready)

/-- Lets the connection close after a number of further publishes, or at once. -/
def closeAfterPublishes (b : Broker) (count : Nat) : Broker :=
  if count = 0 then b.close else { b with closeAfter := some count }

/-- Makes the broker reachable or unreachable. -/
def setReachable (b : Broker) (reachable : Bool) : Broker := { b with reachable }

/-- Takes a number of further publishes and rejects all after them. -/
def rejectAfter (b : Broker) (count : Nat) : Broker := { b with budget := some count }

/-- Takes publishes without limit again. -/
def acceptAll (b : Broker) : Broker := { b with budget := none }

end Broker

end HashCalendar
