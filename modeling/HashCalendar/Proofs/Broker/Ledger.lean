/-
**Calls to the broker, and what they did to each message.**

A run of the broker is a list of calls, by anybody and through any channel.  The broker itself
forgets a message when it is acknowledged, discarded or taken, and it does not remember which
messages it handed over.  A ledger beside it keeps all of this: it is written by the moves that the
calls are put together from, and the broker never looks at it.

Main definitions:

* `HashCalendar.Broker.Call`, `HashCalendar.Broker.perform` — a call, and what it does;
* `HashCalendar.Ledger` — what became of the messages so far;
* `HashCalendar.Tracked` — a broker with its ledger;
* `HashCalendar.Tracked.perform` — a call that is written down.

Main results:

* `HashCalendar.Tracked.perform_broker` — **writing down does not change what the broker does**.
-/

import HashCalendar.Proofs.Broker.Queues

set_option relaxedAutoImplicit false
set_option autoImplicit false

namespace HashCalendar

namespace Broker

/-! ### Calls -/

/-- A call that may change the broker.  Opening a channel and setting its prefetch leave the broker
as it is; the calls through a channel come with the channel. -/
inductive Call where
  | inject (queue : String) (content : Content)
  | take (queue : String)
  | closeNow
  | closeAfterPublishes (count : Nat)
  | setReachable (reachable : Bool)
  | rejectAfter (count : Nat)
  | acceptAll
  | declareQueue (ch : Channel) (queue : String)
  | consume (ch : Channel) (queue : String)
  | publish (ch : Channel) (m : Outbound)
  | ack (h : Handle)
  | nack (h : Handle) (back : Bool)
  | receive (stream : Nat)
  | dropStream (stream : Nat)
  deriving DecidableEq, Repr

/-- The broker after a call. -/
def perform (b : Broker) : Call → Broker
  | .inject queue content => b.inject queue content
  | .take queue => (b.take queue).1
  | .closeNow => b.close
  | .closeAfterPublishes count => b.closeAfterPublishes count
  | .setReachable reachable => b.setReachable reachable
  | .rejectAfter count => b.rejectAfter count
  | .acceptAll => b.acceptAll
  | .declareQueue ch queue => (b.declareQueue ch queue).1
  | .consume ch queue => (b.consume ch queue).1
  | .publish ch m => (b.publish ch m).1
  | .ack h => (b.ack h).1
  | .nack h back => (b.nack h back).1
  | .receive stream => (b.receive stream).1
  | .dropStream stream => b.dropStream stream

/-- The broker after several calls. -/
def performAll (b : Broker) (calls : List Call) : Broker := calls.foldl perform b

@[simp] theorem performAll_nil (b : Broker) : b.performAll [] = b := rfl

@[simp] theorem performAll_cons (b : Broker) (c : Call) (cs : List Call) :
    b.performAll (c :: cs) = (b.perform c).performAll cs := rfl

@[simp] theorem performAll_append (b : Broker) (cs ds : List Call) :
    b.performAll (cs ++ ds) = (b.performAll cs).performAll ds := List.foldl_append

/-- The entries under which a queue is dispatched. -/
def dispatched (b : Broker) (name : String) : List Unacked :=
  (b.dispatch name).unacked.drop b.unacked.length

end Broker

/-! ### The ledger -/

/-- How a delivery is settled. -/
inductive Fate where
  | acked
  | discarded
  | returned
  deriving DecidableEq, Repr

/-- What became of the messages so far. -/
structure Ledger where
  /-- Where each message arrived and what it was, by serial number. -/
  arrived : List (String × Content) := []
  /-- All deliveries that were ever handed over. -/
  handed : List Broker.Unacked := []
  /-- The deliveries that were acknowledged. -/
  acked : List Broker.Unacked := []
  /-- The deliveries that were refused and not put back. -/
  discarded : List Broker.Unacked := []
  /-- The deliveries that were refused and put back. -/
  returned : List Broker.Unacked := []
  /-- The deliveries whose connection closed before they were settled. -/
  lost : List Broker.Unacked := []
  /-- The messages that were taken out, with their queues. -/
  taken : List (String × Message) := []
  deriving DecidableEq, Repr

namespace Ledger

/-- Writes down how a delivery was settled. -/
def record (l : Ledger) (entry : Broker.Unacked) : Fate → Ledger
  | .acked => { l with acked := l.acked ++ [entry] }
  | .discarded => { l with discarded := l.discarded ++ [entry] }
  | .returned => { l with returned := l.returned ++ [entry] }

/-- All deliveries that are over, in one way or another. -/
def ended (l : Ledger) : List Broker.Unacked := l.acked ++ l.discarded ++ l.returned ++ l.lost

end Ledger

/-- A broker with its ledger. -/
structure Tracked where
  broker : Broker := {}
  ledger : Ledger := {}
  deriving DecidableEq, Repr

namespace Tracked

/-! ### The moves -/

/-- Puts a new message at the end of a queue. -/
def enqueue (t : Tracked) (name : String) (content : Content) : Tracked where
  broker := t.broker.enqueue name content
  ledger := { t.ledger with arrived := t.ledger.arrived ++ [(name, content)] }

/-- Hands ready messages of a queue over. -/
def dispatch (t : Tracked) (name : String) : Tracked where
  broker := t.broker.dispatch name
  ledger := { t.ledger with handed := t.ledger.handed ++ t.broker.dispatched name }

/-- Settles the delivery of a tag. -/
def settle (t : Tracked) (tag : Nat) (entry : Broker.Unacked) (fate : Fate) : Tracked where
  broker :=
    let dropped := t.broker.dropUnacked tag
    if fate = .returned then dropped.requeue entry else dropped
  ledger := t.ledger.record entry fate

/-- Ends the connection. -/
def close (t : Tracked) : Tracked where
  broker := t.broker.close
  ledger := { t.ledger with lost := t.ledger.lost ++ t.broker.unacked }

/-- Takes all ready messages out of a queue. -/
def take (t : Tracked) (name : String) : Tracked where
  broker := (t.broker.take name).1
  ledger :=
    { t.ledger with
      taken := t.ledger.taken ++ (t.broker.take name).2.map fun m => (name, m) }

/-- Changes the broker in what no message depends on. -/
def setBroker (t : Tracked) (broker : Broker) : Tracked := { t with broker }

section Settling

variable (t : Tracked) (tag : Nat) (entry : Broker.Unacked) (fate : Fate)

theorem ready_settle (name : String) :
    (t.settle tag entry fate).broker.ready name =
      if fate = .returned ∧ name = entry.queue then entry.returned :: t.broker.ready name
      else t.broker.ready name := by
  by_cases h : fate = .returned
  · simp only [settle, h, true_and]
    exact Broker.ready_requeue _ entry name
  · simp only [settle, h, false_and]
    rfl

@[simp] theorem settle_unacked :
    (t.settle tag entry fate).broker.unacked = (t.broker.dropUnacked tag).unacked := by
  cases fate <;> rfl

@[simp] theorem settle_nextSerial :
    (t.settle tag entry fate).broker.nextSerial = t.broker.nextSerial := by
  cases fate <;> rfl

@[simp] theorem settle_nextTag :
    (t.settle tag entry fate).broker.nextTag = t.broker.nextTag := by
  cases fate <;> rfl

@[simp] theorem settle_streams :
    (t.settle tag entry fate).broker.streams = t.broker.streams := by
  cases fate <;> rfl

@[simp] theorem settle_generation :
    (t.settle tag entry fate).broker.generation = t.broker.generation := by
  cases fate <;> rfl

@[simp] theorem settle_reachable :
    (t.settle tag entry fate).broker.reachable = t.broker.reachable := by
  cases fate <;> rfl

@[simp] theorem settle_arrived :
    (t.settle tag entry fate).ledger.arrived = t.ledger.arrived := by
  cases fate <;> rfl

@[simp] theorem settle_handed :
    (t.settle tag entry fate).ledger.handed = t.ledger.handed := by
  cases fate <;> rfl

@[simp] theorem settle_taken : (t.settle tag entry fate).ledger.taken = t.ledger.taken := by
  cases fate <;> rfl

/-- A delivery that is settled is over. -/
theorem settle_ended :
    (t.settle tag entry fate).ledger.ended.Perm (entry :: t.ledger.ended) := by
  rw [List.perm_iff_count]
  intro u
  cases fate with
  | acked =>
      simp only [settle, Ledger.record, Ledger.ended, List.count_append, List.count_cons,
        List.count_nil]
      omega
  | discarded =>
      simp only [settle, Ledger.record, Ledger.ended, List.count_append, List.count_cons,
        List.count_nil]
      omega
  | returned =>
      simp only [settle, Ledger.record, Ledger.ended, List.count_append, List.count_cons,
        List.count_nil]
      omega

end Settling

/-! ### Calls that are written down -/

/-- Counts a publish down to the closing of the connection. -/
def countDown (t : Tracked) : Tracked :=
  match t.broker.closeAfter with
  | none => t
  | some left =>
    let t := t.setBroker { t.broker with closeAfter := some (left - 1) }
    if left ≤ 1 then t.close else t

/-- Publishes a message. -/
def publish (t : Tracked) (ch : Channel) (m : Outbound) : Tracked :=
  if t.broker.isOpen ch.generation then
    if t.broker.budget = some 0 then t
    else
      let t := t.setBroker { t.broker with budget := t.broker.budget.map (· - 1) }
      match t.broker.queue? m.queue with
      | none => t
      | some _ => ((t.enqueue m.queue m.content).dispatch m.queue).countDown
  else t

/-- Settles the delivery of a handle, if there is one. -/
def settleHandle (t : Tracked) (h : Handle) (fate : Fate) : Tracked :=
  if t.broker.isOpen h.generation then
    match t.broker.unacked? h.generation h.tag with
    | none => t
    | some entry => (t.settle h.tag entry fate).dispatch entry.queue
  else t

/-- The broker of a queue that has just got a new consumer. -/
def consume (t : Tracked) (ch : Channel) (name : String) : Tracked :=
  if t.broker.isOpen ch.generation then
    match t.broker.queue? name with
    | none => t
    | some _ =>
      let c : Broker.Consumer := ⟨ch.generation, ch.prefetch, t.broker.streams.length⟩
      (t.setBroker
        { t.broker.modify name fun q => { q with consumer := some c } with
          streams := t.broker.streams ++ [{}] }).dispatch name
  else t

/-- A call that is written down. -/
def perform (t : Tracked) : Broker.Call → Tracked
  | .inject queue content => (t.enqueue queue content).dispatch queue
  | .take queue => t.take queue
  | .closeNow => t.close
  | .closeAfterPublishes count =>
    if count = 0 then t.close else t.setBroker { t.broker with closeAfter := some count }
  | .setReachable reachable => t.setBroker (t.broker.setReachable reachable)
  | .rejectAfter count => t.setBroker (t.broker.rejectAfter count)
  | .acceptAll => t.setBroker t.broker.acceptAll
  | .declareQueue ch queue => t.setBroker (t.broker.declareQueue ch queue).1
  | .consume ch queue => t.consume ch queue
  | .publish ch m => t.publish ch m
  | .ack h => t.settleHandle h .acked
  | .nack h back => t.settleHandle h (if back then .returned else .discarded)
  | .receive stream => t.setBroker (t.broker.receive stream).1
  | .dropStream stream => t.setBroker (t.broker.dropStream stream)

/-- Several calls that are written down. -/
def performAll (t : Tracked) (calls : List Broker.Call) : Tracked := calls.foldl perform t

@[simp] theorem performAll_nil (t : Tracked) : t.performAll [] = t := rfl

@[simp] theorem performAll_cons (t : Tracked) (c : Broker.Call) (cs : List Broker.Call) :
    t.performAll (c :: cs) = (t.perform c).performAll cs := rfl

@[simp] theorem performAll_append (t : Tracked) (cs ds : List Broker.Call) :
    t.performAll (cs ++ ds) = (t.performAll cs).performAll ds := List.foldl_append

/-! ### Writing down changes nothing -/

@[simp] theorem setBroker_broker (t : Tracked) (b : Broker) : (t.setBroker b).broker = b := rfl

theorem countDown_broker (t : Tracked) : t.countDown.broker = t.broker.countDown := by
  rw [countDown, Broker.countDown]
  cases t.broker.closeAfter with
  | none => rfl
  | some left =>
      dsimp only
      by_cases h : left ≤ 1
      · rw [if_pos h, if_pos h]
        rfl
      · rw [if_neg h, if_neg h]
        rfl

theorem publish_broker (t : Tracked) (ch : Channel) (m : Outbound) :
    (t.publish ch m).broker = (t.broker.publish ch m).1 := by
  rw [publish, Broker.publish]
  by_cases ho : t.broker.isOpen ch.generation = true
  · rw [if_pos ho, if_pos ho]
    by_cases hb : t.broker.budget = some 0
    · rw [if_pos hb, if_pos hb]
    · rw [if_neg hb, if_neg hb]
      dsimp only [setBroker_broker]
      cases Broker.queue? { t.broker with budget := t.broker.budget.map (· - 1) } m.queue with
      | none => rfl
      | some q => exact countDown_broker _
  · rw [if_neg ho, if_neg ho]

theorem consume_broker (t : Tracked) (ch : Channel) (name : String) :
    (t.consume ch name).broker = (t.broker.consume ch name).1 := by
  rw [consume, Broker.consume]
  by_cases ho : t.broker.isOpen ch.generation = true
  · rw [if_pos ho, if_pos ho]
    cases t.broker.queue? name with
    | none => rfl
    | some q => rfl
  · rw [if_neg ho, if_neg ho]

theorem settleHandle_acked_broker (t : Tracked) (h : Handle) :
    (t.settleHandle h .acked).broker = (t.broker.ack h).1 := by
  rw [settleHandle, Broker.ack]
  by_cases ho : t.broker.isOpen h.generation = true
  · rw [if_pos ho, if_pos ho]
    cases t.broker.unacked? h.generation h.tag with
    | none => rfl
    | some entry => rfl
  · rw [if_neg ho, if_neg ho]

theorem settleHandle_refused_broker (t : Tracked) (h : Handle) (back : Bool) :
    (t.settleHandle h (if back then .returned else .discarded)).broker =
      (t.broker.nack h back).1 := by
  rw [settleHandle, Broker.nack]
  by_cases ho : t.broker.isOpen h.generation = true
  · rw [if_pos ho, if_pos ho]
    cases t.broker.unacked? h.generation h.tag with
    | none => rfl
    | some entry =>
        cases back with
        | false => rfl
        | true => rfl
  · rw [if_neg ho, if_neg ho]

/-- Writing down does not change what the broker does. -/
theorem perform_broker (t : Tracked) (c : Broker.Call) :
    (t.perform c).broker = t.broker.perform c := by
  -- Only where the two are written as different branchings they have to be split.
  cases c with
  | consume ch queue => exact consume_broker t ch queue
  | publish ch m => exact publish_broker t ch m
  | ack h => exact settleHandle_acked_broker t h
  | nack h back => exact settleHandle_refused_broker t h back
  | closeAfterPublishes count =>
      rw [perform, Broker.perform, Broker.closeAfterPublishes]
      by_cases h : count = 0
      · rw [if_pos h, if_pos h]
        rfl
      · rw [if_neg h, if_neg h]
        rfl
  | inject queue content => rfl
  | take queue => rfl
  | closeNow => rfl
  | setReachable reachable => rfl
  | rejectAfter count => rfl
  | acceptAll => rfl
  | declareQueue ch queue => rfl
  | receive stream => rfl
  | dropStream stream => rfl

theorem performAll_broker (t : Tracked) (calls : List Broker.Call) :
    (t.performAll calls).broker = t.broker.performAll calls := by
  induction calls generalizing t with
  | nil => rfl
  | cons c cs ih => rw [performAll_cons, ih, perform_broker, Broker.performAll_cons]

end Tracked

end HashCalendar
