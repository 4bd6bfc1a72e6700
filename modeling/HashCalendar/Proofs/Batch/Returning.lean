/-
**A rejected batch that is handed over again.**

When the deliveries of a batch are given back, each message returns to the head of its queue, and
the consumer of the queue gets what it has room for.  A consumer that is within its prefetch has
room for just one more once a delivery was given back: either nothing waits, or as many messages
were unacknowledged as it may have.  So it is the message that came back that is handed over again,
before the next delivery is given back, and the batch returns in its order.  Nothing else changes.

Main definitions:

* `HashCalendar.Broker.redeliver` — messages are handed over again;
* `HashCalendar.Broker.Returns` — deliveries that will come back to a consumer.

Main results:

* `HashCalendar.Broker.Returns.room` — there is room for just one message;
* `HashCalendar.Broker.Returns.nack` — **what is given back is handed over again, alone**;
* `HashCalendar.rejected_batch_comes_back` — **a rejected batch comes back in order and alone**.
-/

import HashCalendar.Proofs.Batch.Jobs
import HashCalendar.Proofs.Broker.Prefetch

set_option relaxedAutoImplicit false
set_option autoImplicit false

namespace HashCalendar

namespace Broker

/-! ### Queues that are changed twice -/

/-- Two changes of the same queue are one. -/
theorem updateQueue_updateQueue (name : String) (change change' : Queue → Queue)
    (queues : List (String × Queue)) :
    updateQueue name change' (updateQueue name change queues) =
      updateQueue name (fun q => change' (change q)) queues := by
  induction queues with
  | nil => simp [updateQueue]
  | cons p rest ih =>
      obtain ⟨n, q⟩ := p
      by_cases h : n = name
      · simp [updateQueue, h]
      · simp [updateQueue, h, ih]

/-- A change that leaves the queue of a name as it is leaves all queues as they are. -/
theorem updateQueue_eq_self {name : String} {change : Queue → Queue}
    {queues : List (String × Queue)} {q : Queue} (h : queues.lookup name = some q)
    (hq : change q = q) : updateQueue name change queues = queues := by
  induction queues with
  | nil => cases h
  | cons p rest ih =>
      obtain ⟨n, q'⟩ := p
      rw [updateQueue]
      by_cases hn : n = name
      · rw [List.lookup_cons, hn, beq_self_eq_true] at h
        cases h
        rw [if_pos hn, hq]
      · have hne : (name == n) = false := beq_false_of_ne fun heq => hn heq.symm
        rw [List.lookup_cons, hne] at h
        rw [if_neg hn, ih h]

/-! ### Messages that are handed over again -/

/-- The broker after the messages of deliveries were handed over again to a consumer, under new
tags. -/
def redeliver (b : Broker) (name : String) (c : Consumer) (us : List Unacked) : Broker :=
  let ds := deliveries b.nextTag (us.map Unacked.returned)
  { b with
    nextTag := b.nextTag + us.length
    unacked := b.unacked.filter (· ∉ us) ++ ds.map fun d => ⟨d.tag, name, c.generation, d.message⟩
    streams := pushStream b.streams c.stream ds }

theorem map_tag_deliveries (tag : Nat) (messages : List Message) :
    (deliveries tag messages).map Delivery.tag = List.range' tag messages.length := by
  induction messages generalizing tag with
  | nil => rfl
  | cons m rest ih => rw [deliveries_cons, List.map_cons, ih, List.length_cons, List.range'_succ]

theorem length_deliveries (tag : Nat) (messages : List Message) :
    (deliveries tag messages).length = messages.length := by
  rw [deliveries, List.length_mapIdx]

@[simp] theorem pushStream_nil (streams : List Stream) (stream : Nat) :
    pushStream streams stream [] = streams := by
  simp only [pushStream, List.append_nil]
  exact List.modify_id stream streams

theorem pushStream_pushStream (streams : List Stream) (stream : Nat) (ds es : List Delivery) :
    pushStream (pushStream streams stream ds) stream es =
      pushStream streams stream (ds ++ es) := by
  rw [pushStream, pushStream, List.modify_modify_eq]
  simp [pushStream, Function.comp_def]

@[simp] theorem redeliver_nil (b : Broker) (name : String) (c : Consumer) :
    b.redeliver name c [] = b := by
  simp [redeliver, deliveries]

/-- Messages that are handed over again do not change who listens. -/
theorem isListening_redeliver (b : Broker) (name : String) (c : Consumer) (us : List Unacked)
    (stream : Nat) : (b.redeliver name c us).isListening stream = b.isListening stream := by
  rw [isListening, isListening, redeliver, pushStream, List.getElem?_modify]
  cases b.streams[stream]? with
  | none => rfl
  | some s =>
      by_cases h : c.stream = stream
      · simp [h]
      · simp [h]

/-- Deliveries of a queue that come back to its consumer when they are given back. -/
structure Returns (b : Broker) (name : String) (c : Consumer) (us : List Unacked) : Prop where
  reachable : b.reachable = true
  consumer : b.consumer? name = some c
  listening : b.isListening c.stream = true
  within : c.prefetch = 0 ∨ b.inFlight name c.generation ≤ c.prefetch
  nodup : us.Nodup
  held : ∀ u ∈ us, u ∈ b.unacked ∧ u.queue = name
  served : b.IsServed name
  tags : b.unacked.Pairwise fun u v => u.tag < v.tag
  below : ∀ u ∈ b.unacked, u.tag < b.nextTag
  current : c.generation = b.generation ∧ ∀ u ∈ b.unacked, u.generation = b.generation

namespace Returns

variable {b : Broker} {name : String} {c : Consumer} {u : Unacked} {us : List Unacked}

/-- After any calls queues are served, tags are distinct, and all is of one connection. -/
theorem of_performAll {calls : List Call} (hreachable : (performAll {} calls).reachable = true)
    (hconsumer : (performAll {} calls).consumer? name = some c)
    (hlistening : (performAll {} calls).isListening c.stream = true)
    (hwithin : c.prefetch = 0 ∨
      (performAll {} calls).inFlight name c.generation ≤ c.prefetch)
    (hnodup : us.Nodup) (hheld : ∀ u ∈ us, u ∈ (performAll {} calls).unacked ∧ u.queue = name) :
    (performAll {} calls).Returns name c us := by
  have hcurrent := current_trackedRun calls
  have hsound := sound_trackedRun calls
  refine ⟨hreachable, hconsumer, hlistening, hwithin, hnodup, hheld, isServed_performAll calls name,
    distinct_performAll calls, ?_, ?_⟩
  · rw [← trackedRun_broker]
    exact fun u hu => hsound.tags_below u (hsound.mem_handed_of_unacked hu)
  · rw [← trackedRun_broker] at hconsumer ⊢
    exact ⟨hcurrent.consumer name c hconsumer, hcurrent.unacked⟩

/-- Of what is unacknowledged, some is given back and some is not. -/
theorem length_unacked (h : b.Returns name c us) :
    b.unacked.length = us.length + (b.unacked.filter (· ∉ us)).length := by
  have hnodup : b.unacked.Nodup :=
    List.Nodup.of_map Unacked.tag (List.pairwise_map.2 (h.tags.imp fun huv => Nat.ne_of_lt huv))
  have hperm : (b.unacked.filter (· ∈ us)).Perm us := by
    refine (List.perm_ext_iff_of_nodup (hnodup.filter _) h.nodup).2 ?_
    intro u
    simp only [List.mem_filter, decide_eq_true_eq, and_iff_right_iff_imp]
    exact fun hu => (h.held u hu).1
  have hsplit := (List.filter_append_perm (fun u => decide (u ∈ us)) b.unacked).length_eq
  rw [List.length_append, hperm.length_eq] at hsplit
  rw [← hsplit]
  simp

/-- A delivery that will come back can be given back. -/
theorem unacked? (h : b.Returns name c (u :: us)) :
    b.isOpen u.generation = true ∧ b.unacked? u.generation u.tag = some u := by
  have hu := (h.held u List.mem_cons_self).1
  exact ⟨isOpen_iff.2 ⟨h.reachable, h.current.2 u hu⟩, unacked?_of_mem h.tags hu⟩

/-- Before a delivery is given back, it takes up one place of its queue. -/
theorem inFlight_dropUnacked (h : b.Returns name c (u :: us)) :
    b.inFlight name c.generation = (b.dropUnacked u.tag).inFlight name c.generation + 1 := by
  obtain ⟨hu, hqueue⟩ := h.held u List.mem_cons_self
  rw [Broker.inFlight_dropUnacked h.tags h.unacked?.2 name c.generation,
    if_pos ⟨hqueue, (h.current.2 u hu).trans h.current.1.symm⟩]

/-- There is room for just one message: for the one that was given back. -/
theorem room (h : b.Returns name c (u :: us)) (m : Message) :
    (b.dropUnacked u.tag).room name ⟨m :: b.ready name, some c⟩ c = 1 := by
  have hflight := h.inFlight_dropUnacked
  have hserved := h.served c h.consumer
  rw [Broker.room, List.length_cons]
  cases hready : b.ready name with
  | nil =>
      by_cases hp : c.prefetch = 0
      · rw [if_pos hp]
        rfl
      · have hle := h.within.resolve_left hp
        rw [if_neg hp, List.length_nil]
        omega
  | cons first rest =>
      obtain ⟨hpos, hfull⟩ := hserved (by simp [hready])
      have hle := h.within.resolve_left (Nat.ne_of_gt hpos)
      rw [if_neg (Nat.ne_of_gt hpos), List.length_cons]
      omega

/-- Putting a message at the head of its queue and handing the first one over leaves the queue as it
is. -/
theorem queues_handOver (h : b.Returns name c (u :: us)) :
    updateQueue name (fun q => { q with ready := q.ready.drop 1 })
      (updateQueue name (fun q => { q with ready := u.returned :: q.ready }) b.queues) =
      b.queues := by
  obtain ⟨q, hq, -⟩ := queue?_of_consumer? h.consumer
  rw [updateQueue_updateQueue]
  exact updateQueue_eq_self hq rfl

/-- Dropping the tag of a delivery drops just this one. -/
theorem filter_tag (h : b.Returns name c (u :: us)) :
    b.unacked.filter (fun v => v.tag ≠ u.tag) = b.unacked.filter (· ∉ [u]) := by
  refine List.filter_congr ?_
  intro v hv
  have hsame : v.tag = u.tag ↔ v = u := by
    refine ⟨fun htag => ?_, congrArg Unacked.tag⟩
    have hfound := h.unacked?.2
    rw [← htag, h.current.2 u (h.held u List.mem_cons_self).1, ← h.current.2 v hv,
      unacked?_of_mem h.tags hv] at hfound
    exact Option.some.inj hfound
  simp [hsame]

/-- A delivery that is given back is put at the head of its queue, which is dispatched. -/
theorem nack_eq (h : b.Returns name c (u :: us)) :
    (b.nack u.handle true).1 = ((b.dropUnacked u.tag).requeue u).dispatch name := by
  obtain ⟨ho, hunacked⟩ := h.unacked?
  have hclaimed : b.claimed? u.handle = some u := by
    rw [claimed?, Unacked.handle, if_pos ho, hunacked]
  rcases b.nack_cases u.handle true with ⟨hnone, -⟩ | ⟨entry, hentry, heq⟩
  · rw [hclaimed] at hnone
    cases hnone
  · obtain rfl : u = entry := Option.some.inj (hclaimed.symm.trans hentry)
    rw [heq, if_pos rfl, (h.held u List.mem_cons_self).2]
    rfl

/-- A delivery that is given back is handed over again, and nothing else changes. -/
theorem nack (h : b.Returns name c (u :: us)) :
    (b.nack u.handle true).1 = b.redeliver name c [u] := by
  obtain ⟨q, hq, hc⟩ := queue?_of_consumer? h.consumer
  have hqueue := (h.held u List.mem_cons_self).2
  have hback : ((b.dropUnacked u.tag).requeue u).queue? name =
      some ⟨u.returned :: b.ready name, some c⟩ := by
    have hdropped : (b.dropUnacked u.tag).queue? name = some q := hq
    rw [requeue, hqueue, queue?_modify, if_pos rfl, hdropped, ready_of_queue? hq, ← hc]
    rfl
  have hroom : ((b.dropUnacked u.tag).requeue u).room name
      ⟨u.returned :: b.ready name, some c⟩ c = 1 := h.room u.returned
  rw [h.nack_eq, dispatch_of_queue? hback rfl (hroom ▸ Nat.one_ne_zero) h.listening, hroom,
    redeliver, ← h.filter_tag]
  subst hqueue
  exact congrArg (fun queues => ({ b.redeliver u.queue c [u] with
    queues, unacked := b.unacked.filter (fun v => v.tag ≠ u.tag) ++
      (deliveries b.nextTag [u.returned]).map fun d =>
        ⟨d.tag, u.queue, c.generation, d.message⟩ } : Broker)) h.queues_handOver

/-- A delivery that was handed over again takes up the place of the one that was given back. -/
theorem inFlight_redeliver (h : b.Returns name c (u :: us)) :
    (b.redeliver name c [u]).inFlight name c.generation = b.inFlight name c.generation := by
  have hdropped : (b.dropUnacked u.tag).unacked = b.unacked.filter (· ∉ [u]) := h.filter_tag
  rw [h.inFlight_dropUnacked, Broker.inFlight, Broker.inFlight, hdropped, redeliver,
    List.countP_append]
  congr 1
  simp [deliveries]

/-- After one of the deliveries has come back, the others will. -/
theorem next {calls : List Call} (h : (performAll {} calls).Returns name c (u :: us)) :
    (performAll {} (calls ++ [.nack u.handle true])).Returns name c us := by
  have hafter : performAll {} (calls ++ [.nack u.handle true]) =
      (performAll {} calls).redeliver name c [u] := by
    rw [performAll_append]
    exact h.nack
  obtain ⟨hout, hnodup⟩ := List.nodup_cons.1 h.nodup
  refine .of_performAll ?_ ?_ ?_ ?_ hnodup ?_
  · rw [hafter]
    exact h.reachable
  · rw [hafter]
    exact h.consumer
  · rw [hafter, isListening_redeliver]
    exact h.listening
  · rw [hafter, h.inFlight_redeliver]
    exact h.within
  · intro v hv
    obtain ⟨hunacked, hqueue⟩ := h.held v (List.mem_cons_of_mem u hv)
    refine ⟨?_, hqueue⟩
    rw [hafter]
    refine List.mem_append_left _ (List.mem_filter.2 ⟨hunacked, ?_⟩)
    have hne : v ≠ u := fun heq => hout (heq ▸ hv)
    simp [hne]

/-- Deliveries that come back one after the other come back together. -/
theorem redeliver_redeliver (h : b.Returns name c (u :: us)) :
    (b.redeliver name c [u]).redeliver name c us = b.redeliver name c (u :: us) := by
  have hds : deliveries b.nextTag ((u :: us).map Unacked.returned) =
      deliveries b.nextTag [u.returned] ++
        deliveries (b.nextTag + 1) (us.map Unacked.returned) := by
    rw [List.map_cons, deliveries_cons]
    rfl
  -- The delivery under the new tag is none of those that are still to come back.
  have hnew : (⟨b.nextTag, name, c.generation, u.returned⟩ : Unacked) ∉ us := by
    intro hmem
    have hlt := h.below _ (h.held _ (List.mem_cons_of_mem u hmem)).1
    exact Nat.lt_irrefl _ hlt
  have hunacked : (b.unacked.filter (· ∉ [u])).filter (· ∉ us) =
      b.unacked.filter (· ∉ u :: us) := by
    rw [List.filter_filter]
    refine List.filter_congr ?_
    intro v _
    simp [Bool.and_comm]
  simp only [redeliver, List.length_cons, List.length_nil, hds, List.map_append,
    List.filter_append, hunacked, ← pushStream_pushStream, List.append_assoc]
  congr 1
  · omega
  · have hkeep : (List.map (fun d : Delivery => (⟨d.tag, name, c.generation, d.message⟩ : Unacked))
        (deliveries b.nextTag [u.returned])).filter (· ∉ us) =
        [⟨b.nextTag, name, c.generation, u.returned⟩] := by
      simp [deliveries, hnew]
    exact congrArg (b.unacked.filter (· ∉ u :: us) ++ ·) (congrArg (· ++ _) hkeep)

end Returns

/-- Deliveries that are given back in a row are handed over again in a row. -/
theorem giveBackAll_of_returns {calls : List Call} {name : String} {c : Consumer}
    {us : List Unacked} (h : (performAll {} calls).Returns name c us) :
    (performAll {} calls).giveBackAll (us.map Unacked.handle) =
      (performAll {} calls).redeliver name c us := by
  induction us generalizing calls with
  | nil => exact (redeliver_nil _ name c).symm
  | cons u us ih =>
      have hnext := ih h.next
      rw [performAll_append, performAll_cons, performAll_nil, perform, h.nack] at hnext
      rw [List.map_cons, giveBackAll, h.nack, hnext]
      exact h.redeliver_redeliver

end Broker

/-- **A rejected batch comes back in order and alone.**  After any calls to a new broker that is
within reach, let a queue have a consumer that somebody listens to and that has no prefetch or not
more messages of the queue than its prefetch allows.  When a list of distinct unacknowledged
deliveries of the queue is settled with an error,

* the outcome is that all were rejected, and just their messages are handed over again, in the
  order of the list: they are pushed into the stream of the consumer, and they are unacknowledged in
  place of the deliveries that were given back; apart from the next tag nothing else has changed,
  neither what waits in the queue nor another queue, nor another unacknowledged delivery;
* their tags are consecutive, and larger than all that were ever handed out;
* all of them are marked as redelivered;
* as many messages are unacknowledged as before. -/
theorem rejected_batch_comes_back (calls : List Broker.Call) {name : String} {c : Broker.Consumer}
    (hreachable : (Broker.performAll {} calls).reachable = true)
    (hconsumer : (Broker.performAll {} calls).consumer? name = some c)
    (hlistening : (Broker.performAll {} calls).isListening c.stream = true)
    (hwithin : c.prefetch = 0 ∨
      (Broker.performAll {} calls).inFlight name c.generation ≤ c.prefetch)
    {us : List Broker.Unacked} (hnodup : us.Nodup)
    (hheld : ∀ u ∈ us, u ∈ (Broker.performAll {} calls).unacked ∧ u.queue = name) :
    let b := Broker.performAll {} calls
    let ds := Broker.deliveries b.nextTag (us.map Broker.Unacked.returned)
    let back := ds.map fun d => (⟨d.tag, name, c.generation, d.message⟩ : Broker.Unacked)
    b.settle (us.map Broker.Unacked.handle) false =
      ({ b with
          nextTag := b.nextTag + us.length
          unacked := b.unacked.filter (· ∉ us) ++ back
          streams := Broker.pushStream b.streams c.stream ds }, .rejected us.length) ∧
    ds.map Delivery.tag = List.range' b.nextTag us.length ∧
    (∀ u ∈ (trackedRun calls).ledger.handed, u.tag < b.nextTag) ∧
    (∀ d ∈ ds, d.message.redelivered = true) ∧
    (b.unacked.filter (· ∉ us) ++ back).length = b.unacked.length := by
  intro b ds back
  have hreturns := Broker.Returns.of_performAll hreachable hconsumer hlistening hwithin hnodup hheld
  refine ⟨?_, ?_, ?_, ?_, ?_⟩
  · rw [Broker.settle, if_neg Bool.false_ne_true, List.length_map]
    exact Prod.ext (Broker.giveBackAll_of_returns hreturns) rfl
  · rw [Broker.map_tag_deliveries, List.length_map]
  · intro u hu
    have hbelow := (sound_trackedRun calls).tags_below u hu
    rwa [trackedRun_broker] at hbelow
  · intro d hd
    have hmessage : d.message ∈ ds.map Delivery.message := List.mem_map_of_mem hd
    rw [Broker.map_message_deliveries] at hmessage
    obtain ⟨u, -, heq⟩ := List.mem_map.1 hmessage
    rw [← heq]
    rfl
  · rw [hreturns.length_unacked, List.length_append, List.length_map, Broker.length_deliveries,
      List.length_map, Nat.add_comm]

/-- Three messages come in, and a consumer of two at a time. -/
def twoOfThree : List Broker.Call :=
  [.inject "q" ⟨none, [1]⟩, .inject "q" ⟨none, [2]⟩, .inject "q" ⟨none, [3]⟩, .consume ⟨0, 2⟩ "q"]

/-- The first two messages are given back, in the other order.  In this order they are handed over
again, and the third message still waits. -/
theorem two_come_back_before_the_third :
    let settled := (Broker.performAll {} twoOfThree).settle [⟨0, 2⟩, ⟨0, 1⟩] false
    settled.2 = .rejected 2 ∧
    settled.1.unacked.map (fun u => (u.tag, u.message.serial)) = [(3, 1), (4, 0)] ∧
    (settled.1.ready "q").map Message.serial = [2] := by
  obtain ⟨hback, -⟩ := @rejected_batch_comes_back twoOfThree "q" ⟨0, 2, 0⟩ (by decide) (by decide)
    (by decide) (by decide)
    [⟨2, "q", 0, ⟨⟨none, [2]⟩, false, 1⟩⟩, ⟨1, "q", 0, ⟨⟨none, [1]⟩, false, 0⟩⟩] (by decide)
    (by decide)
  intro settled
  rw [show settled = _ from hback]
  exact ⟨rfl, by decide, by decide⟩

end HashCalendar
