/-
**What a queue looks like.**

What a queue hands over next depends on little: on what waits in it, on its consumer and on how many
of its messages are unacknowledged.  Neither tags nor messages of other queues have a say in it.
When a message of the queue is acknowledged, there is room for one more, and the queue is
dispatched, whichever message it was.  When a message of another queue is acknowledged, or one is
published to another queue, the queue looks as it did before.

Main definitions:

* `HashCalendar.Broker.Outlook` — all that the next deliveries from a queue depend on;
* `HashCalendar.Broker.Outlook.dispatch`, `HashCalendar.Broker.Outlook.acked` — what becomes of it;
* `HashCalendar.Tracked.outlook` — what a queue of a broker looks like.

Main results:

* `HashCalendar.Tracked.outlook_dispatch` — **a dispatch depends on what its queue looks like
  only**;
* `HashCalendar.Tracked.outlook_ack` — **which message of a queue is acknowledged does not matter**;
* `HashCalendar.Tracked.outlook_publish` — what is published to other queues does not matter either.
-/

import HashCalendar.Proofs.Broker.Fetching
import HashCalendar.Proofs.Broker.Prefetch

set_option relaxedAutoImplicit false
set_option autoImplicit false

namespace HashCalendar

namespace Broker

/-! ### Outlooks -/

/-- What a queue looks like: all that its next deliveries depend on, and those so far. -/
@[ext] structure Outlook where
  ready : List Message
  consumer : Option Consumer
  /-- Which streams are listened to. -/
  listening : Nat → Bool
  /-- How many of its messages are unacknowledged. -/
  outstanding : Nat
  /-- The messages that were handed over from it so far. -/
  delivered : List Message

namespace Outlook

variable (o : Outlook)

/-- How many messages a consumer of the queue has room for. -/
def room (c : Consumer) : Nat :=
  if c.prefetch = 0 then o.ready.length else min o.ready.length (c.prefetch - o.outstanding)

/-- The first messages are handed over. -/
def handOver (count : Nat) : Outlook :=
  { o with
    ready := o.ready.drop count
    outstanding := o.outstanding + count
    delivered := o.delivered ++ o.ready.take count }

/-- The consumer is gone. -/
def forget : Outlook := { o with consumer := none }

/-- Hands messages over as far as there is room for them. -/
def dispatch : Outlook :=
  match o.consumer with
  | none => o
  | some c =>
    if o.room c = 0 then o
    else if o.listening c.stream then o.handOver (o.room c)
    else o.forget

/-- The place of one message is free. -/
def free : Outlook := { o with outstanding := o.outstanding - 1 }

/-- A message of the queue was acknowledged. -/
def acked : Outlook := o.free.dispatch

/-- What was handed over stays so. -/
theorem delivered_dispatch : o.delivered <+: o.dispatch.delivered := by
  rw [dispatch]
  cases o.consumer with
  | none => exact List.prefix_refl _
  | some c =>
      dsimp only
      split
      · exact List.prefix_refl _
      · split
        · exact List.prefix_append _ _
        · exact List.prefix_refl _

theorem delivered_iterate_acked (n : Nat) : o.delivered <+: (acked^[n] o).delivered := by
  induction n with
  | zero => exact List.prefix_refl _
  | succ n ih =>
      rw [Function.iterate_succ_apply']
      exact ih.trans (acked^[n] o).free.delivered_dispatch

end Outlook

/-! ### Dispatching -/

theorem room_le (b : Broker) (name : String) (q : Queue) (c : Consumer) :
    b.room name q c ≤ q.ready.length := by
  rw [room]
  by_cases h0 : c.prefetch = 0
  · exact Nat.le_of_eq (if_pos h0)
  · rw [if_neg h0]
    exact Nat.min_le_left _ _

theorem outstanding_handOver (b : Broker) (name : String) (q : Queue) (c : Consumer) (count : Nat)
    (n : String) :
    (b.handOver name q c count).outstanding n =
      b.outstanding n + if n = name then min count q.ready.length else 0 := by
  rw [outstanding, handOver_unacked, List.countP_append, outstanding]
  congr 1
  by_cases hn : n = name
  · rw [if_pos hn, ← length_handed b name q c count, List.countP_eq_length]
    intro u hu
    simpa using (mem_handed hu).1.trans hn.symm
  · rw [if_neg hn, List.countP_eq_zero]
    intro u hu
    simpa [(mem_handed hu).1] using Ne.symm hn

end Broker

namespace Tracked

/-- The messages that were handed over from a queue, in their order. -/
def delivered (t : Tracked) (name : String) : List Message :=
  (t.ledger.handed.filter fun u => u.queue = name).map Broker.Unacked.message

/-- What a queue looks like. -/
def outlook (t : Tracked) (name : String) : Broker.Outlook where
  ready := t.broker.ready name
  consumer := t.broker.consumer? name
  listening := t.broker.isListening
  outstanding := t.broker.outstanding name
  delivered := t.delivered name

variable {t : Tracked} {name n : String}

theorem delivered_handOver (t : Tracked) (name : String) (q : Broker.Queue) (c : Broker.Consumer)
    (count : Nat) (n : String) :
    (t.handOver name q c count).delivered n =
      t.delivered n ++ if n = name then q.ready.take count else [] := by
  rw [delivered, handOver, List.filter_append, List.map_append, delivered]
  congr 1
  by_cases hn : n = name
  · subst hn
    rw [if_pos rfl, ← Broker.map_message_handed t.broker n q c count]
    congr 1
    exact List.filter_eq_self.2 fun u hu => by simpa using (Broker.mem_handed hu).1
  · rw [if_neg hn, List.map_eq_nil_iff, List.filter_eq_nil_iff]
    intro u hu
    simpa [(Broker.mem_handed hu).1] using Ne.symm hn

/-- Handing messages over changes what their queue looks like, and no other. -/
theorem outlook_handOver {q : Broker.Queue} (hq : t.broker.queue? name = some q)
    (c : Broker.Consumer) {count : Nat} (hcount : count ≤ q.ready.length) (n : String) :
    (t.handOver name q c count).outlook n =
      if n = name then (t.outlook n).handOver count else t.outlook n := by
  have hready := Broker.ready_handOver hq c count n
  have hconsumer := Broker.consumer?_handOver t.broker name q c count n
  have hlistening := funext (Broker.isListening_handOver t.broker name q c count)
  have houtstanding := t.broker.outstanding_handOver name q c count n
  have hdelivered := t.delivered_handOver name q c count n
  by_cases hn : n = name
  · subst hn
    rw [if_pos rfl] at hready houtstanding hdelivered ⊢
    rw [← Broker.ready_of_queue? hq] at hready hdelivered
    rw [Nat.min_eq_left hcount] at houtstanding
    exact Broker.Outlook.ext hready hconsumer hlistening houtstanding hdelivered
  · rw [if_neg hn] at hready houtstanding hdelivered ⊢
    rw [List.append_nil] at hdelivered
    exact Broker.Outlook.ext hready hconsumer hlistening houtstanding hdelivered

/-- Forgetting a consumer changes what its queue looks like, and no other. -/
theorem outlook_forget (t : Tracked) (name n : String) :
    (t.setBroker (t.broker.forget name)).outlook n =
      if n = name then (t.outlook n).forget else t.outlook n := by
  have hready := Broker.ready_forget t.broker name n
  have hconsumer := t.broker.consumer?_forget name n
  by_cases hn : n = name
  · rw [if_pos hn] at hconsumer ⊢
    exact Broker.Outlook.ext hready hconsumer rfl rfl rfl
  · rw [if_neg hn] at hconsumer ⊢
    exact Broker.Outlook.ext hready hconsumer rfl rfl rfl

theorem dispatch_eq_self (h : t.broker.dispatch name = t.broker) : t.dispatch name = t := by
  simp [dispatch, Broker.dispatched, h]

theorem dispatch_eq_handOver {q : Broker.Queue} {c : Broker.Consumer} {count : Nat}
    (h : t.broker.dispatch name = t.broker.handOver name q c count) :
    t.dispatch name = t.handOver name q c count := by
  simp [dispatch, handOver, Broker.dispatched, h]

theorem dispatch_eq_forget (h : t.broker.dispatch name = t.broker.forget name) :
    t.dispatch name = t.setBroker (t.broker.forget name) := by
  have hunacked : (t.broker.forget name).unacked = t.broker.unacked := rfl
  simp [dispatch, setBroker, Broker.dispatched, h, hunacked]

/-- A consumer that is there has the room that the outlook of its queue tells. -/
theorem room_outlook (h : t.Current) {q : Broker.Queue} (hq : t.broker.queue? name = some q)
    {c : Broker.Consumer} (hc : q.consumer = some c) :
    t.broker.room name q c = (t.outlook name).room c := by
  -- All that is unacknowledged is of the connection of the consumer.
  have hgeneration := h.consumer name c ((Broker.consumer?_of_queue? hq).trans hc)
  have hflight : t.broker.outstanding name = t.broker.inFlight name c.generation :=
    Broker.outstanding_eq_inFlight (fun u hu => (h.unacked u hu).trans hgeneration.symm) name
  have hready : (t.outlook name).ready = q.ready := Broker.ready_of_queue? hq
  rw [Broker.Outlook.room, Broker.room, hready, ← hflight]
  rfl

/-- What a dispatch does depends only on what its queue looks like. -/
theorem outlook_dispatch (h : t.Current) (name : String) :
    (t.dispatch name).outlook name = (t.outlook name).dispatch := by
  rw [Broker.Outlook.dispatch]
  cases hc : (t.outlook name).consumer with
  | none => rw [dispatch_eq_self (Broker.dispatch_of_consumer?_none hc)]
  | some c =>
      obtain ⟨q, hq, hqc⟩ := Broker.queue?_of_consumer? hc
      dsimp only
      rw [← room_outlook h hq hqc]
      by_cases h0 : t.broker.room name q c = 0
      · have hsame : t.broker.dispatch name = t.broker := by
          simp [Broker.dispatch, hq, hqc, h0]
        rw [if_pos h0, dispatch_eq_self hsame]
      · rw [if_neg h0]
        by_cases hl : t.broker.isListening c.stream = true
        · have hover := Broker.dispatch_of_queue? hq hqc h0 hl
          rw [dispatch_eq_handOver hover, outlook_handOver hq c (t.broker.room_le name q c),
            if_pos rfl]
          exact (if_pos hl).symm
        · have hforget : t.broker.dispatch name = t.broker.forget name := by
            simp [Broker.dispatch, Broker.forget, hq, hqc, h0, hl]
          rw [dispatch_eq_forget hforget, outlook_forget, if_pos rfl]
          exact (if_neg hl).symm

/-- A dispatch leaves what other queues look like as it is. -/
theorem outlook_dispatch_of_ne (t : Tracked) (hn : n ≠ name) :
    (t.dispatch name).outlook n = t.outlook n := by
  rcases t.broker.dispatch_cases name with hd | ⟨q, c, hq, -, -, -, hd⟩ | ⟨q, c, -, -, -, hd⟩
  · rw [dispatch_eq_self hd]
  · rw [dispatch_eq_handOver hd, outlook_handOver hq c (t.broker.room_le name q c), if_neg hn]
  · rw [dispatch_eq_forget hd, outlook_forget, if_neg hn]

/-! ### Publishing and acknowledging -/

theorem outlook_enqueue_of_ne (t : Tracked) (hn : n ≠ name) (content : Content) :
    (t.enqueue name content).outlook n = t.outlook n := by
  have hready := t.broker.ready_enqueue name content n
  rw [if_neg hn] at hready
  exact Broker.Outlook.ext hready (Broker.consumer?_enqueue ..) rfl rfl rfl

theorem countDown_of_none (h : t.broker.closeAfter = none) : t.countDown = t := by
  rw [countDown, h]

/-- Unless the connection is to close, what is published to another queue leaves what a queue looks
like as it is. -/
theorem outlook_publish (h : t.broker.closeAfter = none) (ch : Channel) {m : Outbound}
    (hn : n ≠ m.queue) : (t.publish ch m).outlook n = t.outlook n := by
  rw [publish]
  split
  · split
    · rfl
    · dsimp only
      split
      · rfl
      · rw [countDown_of_none, outlook_dispatch_of_ne _ hn, outlook_enqueue_of_ne _ hn]
        · rfl
        · exact (Broker.steady_dispatch _ _).closeAfter.trans h
  · rfl

/-- A message that is acknowledged frees a place of its queue. -/
theorem outlook_settle (hs : t.Sound) {generation tag : Nat} {u : Broker.Unacked}
    (hu : t.broker.unacked? generation tag = some u) (n : String) :
    (t.settle tag u .acked).outlook n =
      if u.queue = n then (t.outlook n).free else t.outlook n := by
  have houtstanding : t.broker.outstanding n =
      (t.broker.dropUnacked tag).outstanding n + if u.queue = n then 1 else 0 := by
    rw [Broker.outstanding, (Broker.perm_dropUnacked hu hs.unacked_tags).countP_eq,
      List.countP_cons]
    simp [Broker.outstanding]
  by_cases hn : u.queue = n
  · rw [if_pos hn] at houtstanding ⊢
    exact Broker.Outlook.ext rfl rfl rfl (Nat.eq_sub_of_add_eq houtstanding.symm) rfl
  · rw [if_neg hn] at houtstanding ⊢
    exact Broker.Outlook.ext rfl rfl rfl houtstanding.symm rfl

/-- Whichever message of a queue is acknowledged, the queue looks the same afterwards, and other
queues look as they did. -/
theorem outlook_ack (hs : t.Sound) (hcurrent : t.Current) {h : Handle} {u : Broker.Unacked}
    (ho : t.broker.isOpen h.generation = true)
    (hu : t.broker.unacked? h.generation h.tag = some u) (n : String) :
    (t.settleHandle h .acked).outlook n =
      if u.queue = n then (t.outlook n).acked else t.outlook n := by
  have hsettle := outlook_settle hs hu n
  have hmove : Move Broker.Policy.any.free t (t.settle h.tag u .acked) := .settle hu trivial
  rw [settleHandle, if_pos ho, hu]
  dsimp only
  by_cases hn : u.queue = n
  · rw [if_pos hn] at hsettle ⊢
    rw [hn, outlook_dispatch (hcurrent.move hmove), hsettle]
    rfl
  · rw [if_neg hn] at hsettle ⊢
    rw [outlook_dispatch_of_ne _ (Ne.symm hn), hsettle]

end Tracked

end HashCalendar
