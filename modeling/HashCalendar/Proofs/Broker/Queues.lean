/-
**What the moves of a broker change.**

Every call to the broker is put together from a few moves: a message is enqueued, ready messages are
handed over, an unacknowledged message is dropped or put back, and the connection closes.  This
module says of each of them what becomes of the ready messages of every queue, of the
unacknowledged messages and of the streams.

Main results:

* `HashCalendar.Broker.ready_modify` — changing one queue leaves the others as they are;
* `HashCalendar.Broker.ready_close` — **closing puts the unacknowledged messages of a queue before
  its ready ones, marked as redelivered**;
* `HashCalendar.Broker.dispatch_cases` — **all that dispatching can do**;
* `HashCalendar.Broker.perm_dropUnacked` — dropping a tag takes away one entry and no other;
* `HashCalendar.Broker.publish_answers`, `HashCalendar.Broker.ack_cases`,
  `HashCalendar.Broker.nack_cases` — calls that may fail change next to nothing if they do.
-/

import HashCalendar.Broker.Call
import Mathlib.Data.List.Basic

set_option relaxedAutoImplicit false
set_option autoImplicit false

namespace HashCalendar.Broker

/-- A message after it came back. -/
def Unacked.returned (entry : Unacked) : Message := { entry.message with redelivered := true }

@[simp] theorem Unacked.returned_serial (entry : Unacked) :
    entry.returned.serial = entry.message.serial := rfl

/-! ### Queues by name -/

theorem lookup_updateQueue (name : String) (change : Queue → Queue)
    (queues : List (String × Queue)) (n : String) :
    (updateQueue name change queues).lookup n =
      if n = name then some (change ((queues.lookup name).getD {})) else queues.lookup n := by
  induction queues with
  | nil =>
      by_cases h : n = name
      · simp [updateQueue, h]
      · have h' : (n == name) = false := beq_false_of_ne h
        simp [updateQueue, List.lookup_cons, h, h']
  | cons p rest ih =>
      obtain ⟨m, q⟩ := p
      rw [updateQueue]
      by_cases hm : m = name
      · subst hm
        by_cases h : n = m
        · simp [h]
        · have h' : (n == m) = false := beq_false_of_ne h
          simp [List.lookup_cons, h, h']
      · have hm' : (name == m) = false := beq_false_of_ne fun h => hm h.symm
        rw [if_neg hm, List.lookup_cons, ih, List.lookup_cons, List.lookup_cons, hm']
        by_cases h : n = m
        · have hn : n ≠ name := fun e => hm (h ▸ e)
          simp [h, hm]
        · have h' : (n == m) = false := beq_false_of_ne h
          simp [h']

theorem queue?_modify (b : Broker) (name : String) (change : Queue → Queue) (n : String) :
    (b.modify name change).queue? n =
      if n = name then some (change ((b.queue? name).getD {})) else b.queue? n :=
  lookup_updateQueue name change b.queues n

theorem ready_eq (b : Broker) (name : String) :
    b.ready name = ((b.queue? name).getD {}).ready := by
  rw [ready]
  cases b.queue? name with
  | none => rfl
  | some q => rfl

theorem ready_of_queue? {b : Broker} {name : String} {q : Queue} (h : b.queue? name = some q) :
    b.ready name = q.ready := by
  rw [ready_eq, h]
  rfl

theorem ready_of_queue?_none {b : Broker} {name : String} (h : b.queue? name = none) :
    b.ready name = [] := by
  rw [ready_eq, h]
  rfl

/-- Changing one queue leaves the others as they are. -/
theorem ready_modify (b : Broker) (name : String) (change : Queue → Queue) (n : String) :
    (b.modify name change).ready n =
      if n = name then (change ((b.queue? name).getD {})).ready else b.ready n := by
  rw [ready_eq, queue?_modify]
  by_cases h : n = name
  · rw [if_pos h, if_pos h]
    rfl
  · rw [if_neg h, if_neg h, ready_eq]

/-- A change that lets the ready messages be lets them be in all queues. -/
theorem ready_modify_consumer (b : Broker) (name : String) (change : Queue → Queue)
    (h : ∀ q, (change q).ready = q.ready) (n : String) :
    (b.modify name change).ready n = b.ready n := by
  rw [ready_modify, h]
  by_cases hn : n = name
  · rw [if_pos hn, hn, ready_eq]
  · rw [if_neg hn]

/-! ### Messages come in and come back -/

theorem ready_enqueue (b : Broker) (name : String) (content : Content) (n : String) :
    (b.enqueue name content).ready n =
      if n = name then b.ready n ++ [⟨content, false, b.nextSerial⟩] else b.ready n := by
  have h := ready_modify b name
    (fun q => { q with ready := q.ready ++ [⟨content, false, b.nextSerial⟩] }) n
  refine h.trans ?_
  by_cases hn : n = name
  · rw [if_pos hn, if_pos hn, hn, ready_eq]
  · rw [if_neg hn, if_neg hn]

@[simp] theorem enqueue_unacked (b : Broker) (name : String) (content : Content) :
    (b.enqueue name content).unacked = b.unacked := rfl

@[simp] theorem enqueue_nextSerial (b : Broker) (name : String) (content : Content) :
    (b.enqueue name content).nextSerial = b.nextSerial + 1 := rfl

theorem ready_requeue (b : Broker) (entry : Unacked) (n : String) :
    (b.requeue entry).ready n =
      if n = entry.queue then entry.returned :: b.ready n else b.ready n := by
  have h := ready_modify b entry.queue
    (fun q => { q with ready := { entry.message with redelivered := true } :: q.ready }) n
  refine h.trans ?_
  by_cases hn : n = entry.queue
  · rw [if_pos hn, if_pos hn, hn, ready_eq]
    rfl
  · rw [if_neg hn, if_neg hn]

/-! ### Messages are taken out -/

@[simp] theorem take_snd (b : Broker) (name : String) : (b.take name).2 = b.ready name := by
  rw [take, ready]
  cases b.queue? name with
  | none => rfl
  | some q => rfl

theorem ready_take (b : Broker) (name n : String) :
    (b.take name).1.ready n = if n = name then [] else b.ready n := by
  rw [take]
  cases hq : b.queue? name with
  | none =>
      by_cases h : n = name
      · rw [if_pos h, h]
        exact ready_of_queue?_none hq
      · rw [if_neg h]
  | some q => exact ready_modify b name (fun q => { q with ready := [] }) n

/-- Taking messages out changes nothing but the queues. -/
theorem take_eq (b : Broker) (name : String) :
    (b.take name).1 = { b with queues := (b.take name).1.queues } := by
  rw [take]
  cases b.queue? name with
  | none => rfl
  | some q => rfl

@[simp] theorem take_unacked (b : Broker) (name : String) :
    (b.take name).1.unacked = b.unacked := by rw [take_eq]

@[simp] theorem take_nextSerial (b : Broker) (name : String) :
    (b.take name).1.nextSerial = b.nextSerial := by rw [take_eq]

@[simp] theorem take_nextTag (b : Broker) (name : String) :
    (b.take name).1.nextTag = b.nextTag := by rw [take_eq]

@[simp] theorem take_streams (b : Broker) (name : String) :
    (b.take name).1.streams = b.streams := by rw [take_eq]

/-! ### The connection closes -/

section Requeueing

variable (b : Broker) (entries : List Unacked)

/-- Entries put back one by one, the last first, stand in their order before what was ready. -/
theorem ready_foldr_requeue (n : String) :
    (entries.foldr (fun entry b => b.requeue entry) b).ready n =
      (entries.filter fun u => u.queue = n).map Unacked.returned ++ b.ready n := by
  induction entries with
  | nil => rfl
  | cons entry rest ih =>
      rw [List.foldr_cons, ready_requeue, ih, List.filter_cons]
      by_cases h : n = entry.queue
      · simp [h]
      · have h' : ¬ entry.queue = n := fun e => h e.symm
        simp [h, h']

/-- Putting entries back changes nothing but the queues. -/
theorem foldr_requeue_eq :
    entries.foldr (fun entry b => b.requeue entry) b =
      { b with queues := (entries.foldr (fun entry b => b.requeue entry) b).queues } := by
  induction entries with
  | nil => rfl
  | cons entry rest ih =>
      rw [List.foldr_cons, ih]
      rfl

@[simp] theorem foldr_requeue_unacked :
    (entries.foldr (fun entry b => b.requeue entry) b).unacked = b.unacked := by
  rw [foldr_requeue_eq]

@[simp] theorem foldr_requeue_nextSerial :
    (entries.foldr (fun entry b => b.requeue entry) b).nextSerial = b.nextSerial := by
  rw [foldr_requeue_eq]

@[simp] theorem foldr_requeue_nextTag :
    (entries.foldr (fun entry b => b.requeue entry) b).nextTag = b.nextTag := by
  rw [foldr_requeue_eq]

@[simp] theorem foldr_requeue_streams :
    (entries.foldr (fun entry b => b.requeue entry) b).streams = b.streams := by
  rw [foldr_requeue_eq]

end Requeueing

theorem lookup_map_snd (change : Queue → Queue) (queues : List (String × Queue)) (n : String) :
    (queues.map fun p => (p.1, change p.2)).lookup n = (queues.lookup n).map change := by
  induction queues with
  | nil => rfl
  | cons p rest ih =>
      rw [List.map_cons, List.lookup_cons, List.lookup_cons, ih]
      cases n == p.1 with
      | true => rfl
      | false => rfl

/-- Closing puts the unacknowledged messages of a queue before its ready ones, in their order and
marked as redelivered. -/
theorem ready_close (b : Broker) (n : String) :
    b.close.ready n =
      (b.unacked.filter fun u => u.queue = n).map Unacked.returned ++ b.ready n := by
  rw [close, ready_foldr_requeue, ready_eq, ready_eq b]
  have h := lookup_map_snd (fun q => { q with consumer := none }) b.queues n
  congr 1
  refine (congrArg (fun q => (Option.getD q {}).ready) h).trans ?_
  rw [queue?]
  cases b.queues.lookup n with
  | none => rfl
  | some q => rfl

@[simp] theorem close_unacked (b : Broker) : b.close.unacked = [] := by simp [close]

@[simp] theorem close_nextSerial (b : Broker) : b.close.nextSerial = b.nextSerial := by
  simp [close]

@[simp] theorem close_nextTag (b : Broker) : b.close.nextTag = b.nextTag := by simp [close]

@[simp] theorem close_streams (b : Broker) : b.close.streams = b.streams := by simp [close]

/-! ### Messages are handed over -/

theorem deliveries_cons (tag : Nat) (m : Message) (rest : List Message) :
    deliveries tag (m :: rest) = ⟨tag, m⟩ :: deliveries (tag + 1) rest := by
  simp [deliveries, List.mapIdx_cons, Nat.add_assoc, Nat.add_comm 1]

theorem map_message_deliveries (tag : Nat) (messages : List Message) :
    (deliveries tag messages).map Delivery.message = messages := by
  induction messages generalizing tag with
  | nil => rfl
  | cons m rest ih => rw [deliveries_cons, List.map_cons, ih]

theorem tag_mem_deliveries {tag : Nat} {messages : List Message} {d : Delivery}
    (h : d ∈ deliveries tag messages) : tag ≤ d.tag ∧ d.tag < tag + messages.length := by
  induction messages generalizing tag with
  | nil => cases h
  | cons m rest ih =>
      rw [deliveries_cons] at h
      rw [List.length_cons]
      rcases List.mem_cons.1 h with rfl | h
      · exact ⟨Nat.le_refl _, by simp⟩
      · have := ih h
        omega

theorem pairwise_tag_deliveries (tag : Nat) (messages : List Message) :
    (deliveries tag messages).Pairwise fun d e => d.tag < e.tag := by
  induction messages generalizing tag with
  | nil => exact List.Pairwise.nil
  | cons m rest ih =>
      rw [deliveries_cons]
      refine List.pairwise_cons.2 ⟨?_, ih (tag + 1)⟩
      intro d hd
      exact (tag_mem_deliveries hd).1

/-- The entries under which the first ready messages of a queue are handed over. -/
def handed (b : Broker) (name : String) (q : Queue) (c : Consumer) (count : Nat) : List Unacked :=
  (deliveries b.nextTag (q.ready.take count)).map fun d => ⟨d.tag, name, c.generation, d.message⟩

section HandingOver

variable (b : Broker) (name : String) (q : Queue) (c : Consumer) (count : Nat)

theorem map_message_handed :
    (b.handed name q c count).map Unacked.message = q.ready.take count := by
  rw [handed, List.map_map]
  exact map_message_deliveries _ _

theorem pairwise_tag_handed :
    (b.handed name q c count).Pairwise fun u v => u.tag < v.tag :=
  List.pairwise_map.2 (pairwise_tag_deliveries _ _)

@[simp] theorem handOver_unacked :
    (b.handOver name q c count).unacked = b.unacked ++ b.handed name q c count := rfl

@[simp] theorem handOver_streams :
    (b.handOver name q c count).streams =
      pushStream b.streams c.stream (deliveries b.nextTag (q.ready.take count)) := rfl

end HandingOver

theorem ready_handOver {b : Broker} {name : String} {q : Queue} (h : b.queue? name = some q)
    (c : Consumer) (count : Nat) (n : String) :
    (b.handOver name q c count).ready n =
      if n = name then q.ready.drop count else b.ready n := by
  have hm := ready_modify b name (fun q => { q with ready := q.ready.drop count }) n
  rw [h] at hm
  exact hm

theorem mem_handed {b : Broker} {name : String} {q : Queue} {c : Consumer} {count : Nat}
    {u : Unacked} (h : u ∈ b.handed name q c count) :
    u.queue = name ∧ u.message ∈ q.ready ∧ b.nextTag ≤ u.tag ∧ u.tag < b.nextTag + count := by
  obtain ⟨d, hd, rfl⟩ := List.mem_map.1 h
  have hmem : d.message ∈ q.ready.take count := by
    rw [← map_message_deliveries b.nextTag (q.ready.take count)]
    exact List.mem_map_of_mem hd
  have htag := tag_mem_deliveries hd
  have hlen := List.length_take_le count q.ready
  exact ⟨rfl, List.mem_of_mem_take hmem, htag.1, by simp only; omega⟩

/-- A broker that found out, at the expense of a tag, that nobody listens to the consumer of a
queue. -/
def forget (b : Broker) (name : String) : Broker :=
  { b.modify name fun q => { q with consumer := none } with nextTag := b.nextTag + 1 }

@[simp] theorem ready_forget (b : Broker) (name n : String) :
    (b.forget name).ready n = b.ready n :=
  ready_modify_consumer b name (fun q => { q with consumer := none }) (fun _ => rfl) n

/-- All that dispatching can do: nothing, handing ready messages over, or finding out that nobody
listens any more. -/
theorem dispatch_cases (b : Broker) (name : String) :
    b.dispatch name = b ∨
      (∃ q c, b.queue? name = some q ∧ q.consumer = some c ∧ b.isListening c.stream = true ∧
        0 < b.room name q c ∧ b.dispatch name = b.handOver name q c (b.room name q c)) ∨
      (∃ q c, b.queue? name = some q ∧ q.consumer = some c ∧ b.isListening c.stream = false ∧
        b.dispatch name = b.forget name) := by
  rw [dispatch]
  cases hq : b.queue? name with
  | none => exact Or.inl rfl
  | some q =>
      dsimp only
      cases hc : q.consumer with
      | none => exact Or.inl rfl
      | some c =>
          dsimp only
          by_cases h0 : b.room name q c = 0
          · exact Or.inl (if_pos h0)
          · rw [if_neg h0]
            by_cases hl : b.isListening c.stream = true
            · rw [if_pos hl]
              exact Or.inr (Or.inl ⟨q, c, rfl, hc, hl, Nat.pos_of_ne_zero h0, rfl⟩)
            · rw [if_neg hl]
              exact Or.inr (Or.inr ⟨q, c, rfl, hc, Bool.eq_false_iff.2 hl, rfl⟩)

/-! ### Entries are dropped -/

/-- Dropping a tag takes away one entry and no other, where tags are distinct. -/
theorem perm_filter_tag {entries : List Unacked} {entry : Unacked} {tag : Nat}
    (h : entries.find? (fun u => u.tag = tag) = some entry)
    (distinct : entries.Pairwise fun u v => u.tag < v.tag) :
    entries.Perm (entry :: entries.filter fun u => u.tag ≠ tag) := by
  induction entries with
  | nil => cases h
  | cons u rest ih =>
      rw [List.pairwise_cons] at distinct
      by_cases hu : u.tag = tag
      · rw [List.find?_cons_of_pos (by simpa using hu)] at h
        cases h
        -- Later tags are larger, so this is the only entry of the tag.
        have hall : rest.filter (fun v => v.tag ≠ tag) = rest := by
          refine List.filter_eq_self.2 ?_
          intro v hv
          have := distinct.1 v hv
          simp only [ne_eq, decide_eq_true_eq]
          omega
        rw [List.filter_cons_of_neg (by simpa using hu), hall]
      · rw [List.find?_cons_of_neg (by simpa using hu)] at h
        rw [List.filter_cons_of_pos (by simpa using hu)]
        exact ((ih h distinct.2).cons u).trans (List.Perm.swap entry u _)

theorem unacked?_eq_some {b : Broker} {generation tag : Nat} {entry : Unacked}
    (h : b.unacked? generation tag = some entry) :
    b.unacked.find? (fun u => u.tag = tag) = some entry ∧ entry.generation = generation := by
  rw [unacked?, Option.filter_eq_some_iff] at h
  exact ⟨h.1, by simpa using h.2⟩

/-- Dropping the tag of an unacknowledged message takes away its entry and no other. -/
theorem perm_dropUnacked {b : Broker} {generation tag : Nat} {entry : Unacked}
    (h : b.unacked? generation tag = some entry)
    (distinct : b.unacked.Pairwise fun u v => u.tag < v.tag) :
    b.unacked.Perm (entry :: (b.dropUnacked tag).unacked) :=
  perm_filter_tag (unacked?_eq_some h).1 distinct

/-! ### Calls that may fail -/

section Calls

variable (b : Broker)

/-- The four answers to a publish.  The limit is looked at before the queue. -/
theorem publish_answers (ch : Channel) (m : Outbound) :
    (b.isOpen ch.generation = false ∧ b.publish ch m = (b, .error .channelClosed)) ∨
    (b.isOpen ch.generation = true ∧ b.budget = some 0 ∧
      b.publish ch m = (b, .error (.rejected m.queue))) ∨
    (b.isOpen ch.generation = true ∧ b.budget ≠ some 0 ∧ b.queue? m.queue = none ∧
      b.publish ch m =
        ({ b with budget := b.budget.map (· - 1) }, .error (.unknownQueue m.queue))) ∨
    (b.isOpen ch.generation = true ∧ b.budget ≠ some 0 ∧ (b.queue? m.queue).isSome = true ∧
      b.publish ch m = (((({ b with budget := b.budget.map (· - 1) } : Broker).enqueue m.queue
        m.content).dispatch m.queue).countDown, .ok ())) := by
  rw [publish]
  by_cases ho : b.isOpen ch.generation = true
  · rw [if_pos ho]
    refine Or.inr ?_
    by_cases hb : b.budget = some 0
    · exact Or.inl ⟨ho, hb, if_pos hb⟩
    · rw [if_neg hb]
      refine Or.inr ?_
      -- The limit has no say in which queues there are.
      have hqueue : queue? { b with budget := b.budget.map (· - 1) } m.queue =
          b.queue? m.queue := rfl
      dsimp only
      rw [hqueue]
      cases hq : b.queue? m.queue with
      | none => exact Or.inl ⟨ho, hb, rfl, rfl⟩
      | some q => exact Or.inr ⟨ho, hb, rfl, rfl⟩
  · rw [if_neg ho]
    exact Or.inl ⟨Bool.eq_false_iff.2 ho, rfl⟩

/-- Publishing fails, at the expense of the budget at most, or the message is enqueued and its queue
dispatched before the publish is counted. -/
theorem publish_cases (ch : Channel) (m : Outbound) :
    (∃ e budget, b.publish ch m = ({ b with budget }, .error e)) ∨
      b.publish ch m = (((({ b with budget := b.budget.map (· - 1) } : Broker).enqueue m.queue
        m.content).dispatch m.queue).countDown, .ok ()) := by
  rcases b.publish_answers ch m with ⟨-, h⟩ | ⟨-, -, h⟩ | ⟨-, -, -, h⟩ | ⟨-, -, -, h⟩
  · exact Or.inl ⟨_, b.budget, h⟩
  · exact Or.inl ⟨_, b.budget, h⟩
  · exact Or.inl ⟨_, _, h⟩
  · exact Or.inr h

/-- Counting a publish down closes the connection, or it changes nothing but the countdown. -/
theorem countDown_cases :
    (∃ closeAfter, b.countDown = ({ b with closeAfter } : Broker).close) ∨
      ∃ closeAfter, b.countDown = { b with closeAfter } := by
  cases h : b.closeAfter with
  | none =>
      have hsame : b.countDown = b := by rw [countDown, h]
      exact Or.inr ⟨b.closeAfter, hsame⟩
  | some left =>
      rw [countDown, h]
      dsimp only
      by_cases h1 : left ≤ 1
      · exact Or.inl ⟨_, if_pos h1⟩
      · exact Or.inr ⟨_, if_neg h1⟩

/-- The unacknowledged message that a handle claims, if calls through its channel are taken. -/
def claimed? (h : Handle) : Option Unacked :=
  if b.isOpen h.generation then b.unacked? h.generation h.tag else none

/-- The delivery of a handle is acknowledged if the handle claims one, and else nothing changes. -/
theorem ack_cases (h : Handle) :
    (b.claimed? h = none ∧ ∃ e, b.ack h = (b, .error e)) ∨
      ∃ entry, b.claimed? h = some entry ∧
        b.ack h = ((b.dropUnacked h.tag).dispatch entry.queue, .ok ()) := by
  rw [ack, claimed?]
  by_cases ho : b.isOpen h.generation = true
  · rw [if_pos ho, if_pos ho]
    cases b.unacked? h.generation h.tag with
    | none => exact Or.inl ⟨rfl, _, rfl⟩
    | some entry => exact Or.inr ⟨entry, rfl, rfl⟩
  · rw [if_neg ho, if_neg ho]
    exact Or.inl ⟨rfl, _, rfl⟩

/-- The delivery of a handle is refused if the handle claims one, and else nothing changes. -/
theorem nack_cases (h : Handle) (back : Bool) :
    (b.claimed? h = none ∧ ∃ e, b.nack h back = (b, .error e)) ∨
      ∃ entry, b.claimed? h = some entry ∧
        b.nack h back = ((if back then (b.dropUnacked h.tag).requeue entry
          else b.dropUnacked h.tag).dispatch entry.queue, .ok ()) := by
  rw [nack, claimed?]
  by_cases ho : b.isOpen h.generation = true
  · rw [if_pos ho, if_pos ho]
    cases b.unacked? h.generation h.tag with
    | none => exact Or.inl ⟨rfl, _, rfl⟩
    | some entry => exact Or.inr ⟨entry, rfl, rfl⟩
  · rw [if_neg ho, if_neg ho]
    exact Or.inl ⟨rfl, _, rfl⟩

variable {b}

theorem unacked?_of_claimed? {h : Handle} {entry : Unacked} (hc : b.claimed? h = some entry) :
    b.unacked? h.generation h.tag = some entry := by
  rw [claimed?] at hc
  by_cases ho : b.isOpen h.generation = true
  · rwa [if_pos ho] at hc
  · rw [if_neg ho] at hc
    cases hc

end Calls

end HashCalendar.Broker
