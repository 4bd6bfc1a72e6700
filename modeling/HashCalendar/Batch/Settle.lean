/-
**Publishing and settling a batch.**

The messages of a batch are published one after the other, up to the first that is not taken.  If
all were taken, the deliveries that the batch came from are acknowledged one after the other, and
else all of them are given back.  A delivery that cannot be settled is passed over: its connection
is gone, and the broker delivers its message again.

Main definitions:

* `HashCalendar.Broker.publishAll` — publishes a list of messages;
* `HashCalendar.Outcome` — how the deliveries of a batch were settled;
* `HashCalendar.Broker.settle` — settles the deliveries of a batch.
-/

import HashCalendar.Broker.Call

set_option relaxedAutoImplicit false
set_option autoImplicit false

namespace HashCalendar

/-- How the deliveries of a batch were settled. -/
inductive Outcome where
  /-- All of them were acknowledged. -/
  | acked (count : Nat)
  /-- All of them were given back. -/
  | rejected (count : Nat)
  /-- The messages were published, but the connection was lost before the last acknowledgement. -/
  | abandoned (acked unacked : Nat)
  deriving DecidableEq, Repr

/-- Whether all deliveries were acknowledged. -/
def Outcome.isAcked : Outcome → Bool
  | .acked _ => true
  | _ => false

namespace Broker

/-- Publishes messages in order, up to the first that is not taken. -/
def publishAll (b : Broker) (ch : Channel) : List Outbound → Broker × Except Error Unit
  | [] => (b, .ok ())
  | m :: ms =>
    match b.publish ch m with
    | (b, .ok ()) => publishAll b ch ms
    | (b, .error e) => (b, .error e)

/-- Acknowledges deliveries in order; the number of those for which it went well. -/
def ackAll (b : Broker) : List Handle → Broker × Nat
  | [] => (b, 0)
  | h :: hs =>
    match b.ack h with
    | (b, .ok ()) => let (b, n) := ackAll b hs; (b, n + 1)
    | (b, .error _) => ackAll b hs

/-- Gives deliveries back in order. -/
def giveBackAll (b : Broker) : List Handle → Broker
  | [] => b
  | h :: hs => giveBackAll (b.nack h true).1 hs

/-- Settles the deliveries of a batch whose messages were published, or were not. -/
def settle (b : Broker) (handles : List Handle) (published : Bool) : Broker × Outcome :=
  if published then
    let (b, n) := b.ackAll handles
    (b, if n = handles.length then .acked n else .abandoned n (handles.length - n))
  else (b.giveBackAll handles, .rejected handles.length)

/-- Publishes the messages of a batch and settles its deliveries. -/
def publishAndSettle (b : Broker) (ch : Channel) (messages : List Outbound)
    (handles : List Handle) : Broker × Outcome :=
  let (b, result) := b.publishAll ch messages
  b.settle handles result.isOk

end Broker

end HashCalendar
