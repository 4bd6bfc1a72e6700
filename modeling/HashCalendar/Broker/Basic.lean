/-
**A message broker.**

The broker keeps named queues.  A message waits in its queue until it is handed to the consumer of
the queue; from then on it is unacknowledged, under a delivery tag of its own, until it is
acknowledged, given back or discarded.  When the connection closes, every unacknowledged message
returns to the head of its queue, marked as redelivered, and all channels and consumers of the
connection are gone: a new connection is a new generation.

Main definitions:

* `HashCalendar.Broker` — the state of a broker;
* `HashCalendar.Broker.dispatch` — hands ready messages to the consumer of a queue;
* `HashCalendar.Broker.close` — ends the connection;
* `HashCalendar.Broker.Error` — why a call is refused.
-/

import HashCalendar.Text.Bytes

set_option relaxedAutoImplicit false
set_option autoImplicit false

namespace HashCalendar

/-- What is sent: a kind, if the message has one, and its content. -/
structure Content where
  kind : Option String
  payload : Bytes
  deriving DecidableEq, Repr

/-- A message in the broker. -/
structure Message where
  content : Content
  /-- Whether the message was handed to a consumer before and came back. -/
  redelivered : Bool
  /-- The number of the message in the order of arrival, which no other message has. -/
  serial : Nat
  deriving DecidableEq, Repr

/-- A message handed to a consumer, under its delivery tag. -/
structure Delivery where
  tag : Nat
  message : Message
  deriving DecidableEq, Repr

namespace Broker

/-- Why a call is refused. -/
inductive Error where
  /-- There is no connection to be had. -/
  | unreachable (uri : String)
  /-- The connection of the channel is gone. -/
  | channelClosed
  /-- The broker takes no more messages. -/
  | rejected (queue : String)
  /-- There is no such queue. -/
  | unknownQueue (queue : String)
  /-- No unacknowledged message has this tag. -/
  | unknownTag (tag : Nat)
  /-- The address is not that of a broker in this process. -/
  | unsupportedUri (uri : String)
  deriving DecidableEq, Repr

/-- The wording of an error. -/
def Error.message : Error → String
  | .unreachable uri => s!"Broker unreachable: {uri}"
  | .channelClosed => "Channel closed"
  | .rejected queue => s!"Publish to {queue} rejected: nacked by broker"
  | .unknownQueue queue => s!"Queue not declared: {queue}"
  | .unknownTag tag => s!"Unknown delivery tag: {tag}"
  | .unsupportedUri uri => s!"Unsupported broker URI {uri}: only memory:// is built in"

/-- The right to receive the messages of a queue. -/
structure Consumer where
  generation : Nat
  /-- How many messages may be unacknowledged at a time; 0 for no limit. -/
  prefetch : Nat
  /-- The number of the stream that deliveries go to. -/
  stream : Nat
  deriving DecidableEq, Repr

/-- A queue: the messages waiting in it, and its consumer. -/
structure Queue where
  ready : List Message := []
  consumer : Option Consumer := none
  deriving DecidableEq, Repr

/-- A message that was handed to a consumer and not settled yet. -/
structure Unacked where
  tag : Nat
  queue : String
  generation : Nat
  message : Message
  deriving DecidableEq, Repr

/-- The receiving end of a consumer. -/
structure Stream where
  /-- Deliveries that have not been received yet. -/
  buffer : List Delivery := []
  /-- Whether anybody is still there to receive. -/
  listening : Bool := true
  deriving DecidableEq, Repr

end Broker

/-- The state of a broker. -/
structure Broker where
  /-- The number of the connection; it grows whenever the connection closes. -/
  generation : Nat := 0
  reachable : Bool := true
  /-- How many more messages are taken from publishers, if there is a limit. -/
  budget : Option Nat := none
  /-- After how many more publishes the connection closes, if it is to close. -/
  closeAfter : Option Nat := none
  nextTag : Nat := 1
  nextSerial : Nat := 0
  queues : List (String × Broker.Queue) := []
  /-- The unacknowledged messages in the order of their tags. -/
  unacked : List Broker.Unacked := []
  /-- The streams in the order of their numbers. -/
  streams : List Broker.Stream := []
  deriving DecidableEq, Repr

namespace Broker

/-! ### Queues by name -/

/-- Changes the queue of a name; an absent queue counts as an empty one. -/
def updateQueue (name : String) (change : Queue → Queue) :
    List (String × Queue) → List (String × Queue)
  | [] => [(name, change {})]
  | (n, q) :: rest =>
    if n = name then (n, change q) :: rest else (n, q) :: updateQueue name change rest

/-- The queue of a name, if it has been declared. -/
def queue? (b : Broker) (name : String) : Option Queue := b.queues.lookup name

/-- The messages waiting in the queue of a name. -/
def ready (b : Broker) (name : String) : List Message :=
  match b.queue? name with
  | some q => q.ready
  | none => []

/-- Changes the queue of a name. -/
def modify (b : Broker) (name : String) (change : Queue → Queue) : Broker :=
  { b with queues := updateQueue name change b.queues }

/-- Puts a new message at the end of a queue. -/
def enqueue (b : Broker) (name : String) (content : Content) : Broker :=
  { b.modify name fun q => { q with ready := q.ready ++ [⟨content, false, b.nextSerial⟩] } with
    nextSerial := b.nextSerial + 1 }

/-- Puts a message back at the head of its queue, marked as redelivered. -/
def requeue (b : Broker) (entry : Unacked) : Broker :=
  b.modify entry.queue fun q =>
    { q with ready := { entry.message with redelivered := true } :: q.ready }

/-! ### Handing messages over -/

/-- The unacknowledged messages of a queue that were handed over in a generation. -/
def inFlight (b : Broker) (name : String) (generation : Nat) : Nat :=
  b.unacked.countP fun u => u.queue = name && u.generation = generation

/-- Whether the stream of a number is listened to. -/
def isListening (b : Broker) (stream : Nat) : Bool :=
  match b.streams[stream]? with
  | some s => s.listening
  | none => false

/-- How many messages of a queue its consumer has room for. -/
def room (b : Broker) (name : String) (q : Queue) (c : Consumer) : Nat :=
  if c.prefetch = 0 then q.ready.length
  else min q.ready.length (c.prefetch - b.inFlight name c.generation)

/-- Messages as deliveries under consecutive tags. -/
def deliveries (firstTag : Nat) (messages : List Message) : List Delivery :=
  messages.mapIdx fun k m => ⟨firstTag + k, m⟩

/-- Adds deliveries to the stream of a number. -/
def pushStream (streams : List Stream) (stream : Nat) (ds : List Delivery) : List Stream :=
  streams.modify stream fun s => { s with buffer := s.buffer ++ ds }

/-- Hands the first `count` ready messages of a queue to its consumer. -/
def handOver (b : Broker) (name : String) (q : Queue) (c : Consumer) (count : Nat) : Broker :=
  let ds := deliveries b.nextTag (q.ready.take count)
  { b.modify name fun q => { q with ready := q.ready.drop count } with
    nextTag := b.nextTag + count
    unacked := b.unacked ++ ds.map fun d => ⟨d.tag, name, c.generation, d.message⟩
    streams := pushStream b.streams c.stream ds }

/-- Hands ready messages to the consumer of a queue as far as it has room for them.  A consumer that
nobody listens to any more is found out at the first message: that takes up a tag, the message stays
where it was, and the consumer is gone. -/
def dispatch (b : Broker) (name : String) : Broker :=
  match b.queue? name with
  | none => b
  | some q =>
    match q.consumer with
    | none => b
    | some c =>
      let count := b.room name q c
      if count = 0 then b
      else if b.isListening c.stream then b.handOver name q c count
      else
        { b.modify name fun q => { q with consumer := none } with
          nextTag := b.nextTag + 1 }

/-! ### The connection -/

/-- Ends the connection: consumers and channels are gone, and the unacknowledged messages return to
the heads of their queues in their old order. -/
def close (b : Broker) : Broker :=
  let emptied : Broker :=
    { b with
      generation := b.generation + 1
      closeAfter := none
      queues := b.queues.map fun p => (p.1, { p.2 with consumer := none })
      unacked := [] }
  b.unacked.foldr (fun entry b => b.requeue entry) emptied

/-- Whether a consumer delivers to the stream of a number. -/
def isFed (b : Broker) (stream : Nat) : Bool :=
  b.queues.any fun p => match p.2.consumer with
    | some c => c.stream = stream
    | none => false

end Broker

end HashCalendar
