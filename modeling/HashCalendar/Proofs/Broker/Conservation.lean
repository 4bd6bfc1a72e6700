/-
**No message is lost, and none is doubled.**

At every moment of every run, a message that arrived is in one place: it is ready in its own queue,
it is unacknowledged under one tag, or it was taken, acknowledged or discarded.  Its content stays
what it was, and among the ready messages those are marked as redelivered that were handed over
before.

The invariant behind this counts the copies of each message over all places.  That a message that is
handed over stays in one place needs the ledger to agree with the broker on two more points: a
message never gets into the queue of another, and no tag is used twice.

Main definitions:

* `HashCalendar.copies`, `HashCalendar.Tracked.places` — how often a message is found;
* `HashCalendar.Tracked.Sound` — the invariant.

Main results:

* `HashCalendar.Tracked.Sound.places_handOver`, `HashCalendar.Tracked.Sound.places_settle` — what is
  handed over or settled goes from one place to another;
* `HashCalendar.Tracked.keeps_sound` — every move keeps the invariant;
* `HashCalendar.every_message_in_one_place` — **every message is in one place, unchanged**.
-/

import HashCalendar.Proofs.Broker.Moves
import Mathlib.Data.List.Nodup
import Mathlib.Data.List.Perm.Subperm

set_option relaxedAutoImplicit false
set_option autoImplicit false

namespace HashCalendar

/-! ### Copies of a message -/

/-- How often the message of a number is in a list. -/
def copies (serial : Nat) (messages : List Message) : Nat :=
  messages.countP fun m => m.serial = serial

@[simp] theorem copies_nil (serial : Nat) : copies serial [] = 0 := rfl

@[simp] theorem copies_append (serial : Nat) (ms ns : List Message) :
    copies serial (ms ++ ns) = copies serial ms + copies serial ns := List.countP_append

theorem copies_cons (serial : Nat) (m : Message) (ms : List Message) :
    copies serial (m :: ms) = copies serial ms + if m.serial = serial then 1 else 0 := by
  simp [copies, List.countP_cons]

theorem copies_eq_zero {serial : Nat} {messages : List Message}
    (h : ∀ m ∈ messages, m.serial ≠ serial) : copies serial messages = 0 := by
  refine List.countP_eq_zero.2 ?_
  intro m hm
  simpa using h m hm

theorem copies_pos {serial : Nat} {messages : List Message} {m : Message} (hm : m ∈ messages)
    (h : m.serial = serial) : 0 < copies serial messages :=
  List.countP_pos_iff.2 ⟨m, hm, by simpa using h⟩

theorem exists_of_copies_pos {serial : Nat} {messages : List Message}
    (h : 0 < copies serial messages) : ∃ m ∈ messages, m.serial = serial := by
  obtain ⟨m, hm, hserial⟩ := List.countP_pos_iff.1 h
  exact ⟨m, hm, by simpa using hserial⟩

/-- Two deliveries of a message are two copies of it. -/
theorem two_le_copies {serial : Nat} {entries : List Broker.Unacked} {u v : Broker.Unacked}
    (hu : u ∈ entries) (hv : v ∈ entries) (huv : u ≠ v) (hserial : u.message.serial = serial)
    (hserial' : v.message.serial = serial) :
    2 ≤ copies serial (entries.map Broker.Unacked.message) := by
  have hsub : [u, v].Subperm entries := by
    refine List.subperm_of_subset (by simpa using huv) ?_
    intro w hw
    rcases List.mem_pair.1 hw with rfl | rfl
    · exact hu
    · exact hv
  have hle := hsub.countP_le fun w => w.message.serial = serial
  rw [copies, List.countP_map]
  refine Nat.le_trans ?_ hle
  simp [hserial, hserial']

theorem copies_perm (serial : Nat) {ms ns : List Message} (h : ms.Perm ns) :
    copies serial ms = copies serial ns := h.countP_eq _

theorem copies_take_add_drop (serial : Nat) (messages : List Message) (count : Nat) :
    copies serial (messages.take count) + copies serial (messages.drop count) =
      copies serial messages := by
  rw [← copies_append, List.take_append_drop]

/-- Entries that come back are as many copies as before. -/
theorem copies_map_returned (serial : Nat) (entries : List Broker.Unacked) :
    copies serial (entries.map Broker.Unacked.returned) =
      copies serial (entries.map Broker.Unacked.message) := by
  rw [copies, copies, List.countP_map, List.countP_map]
  rfl

namespace Tracked

/-- How often a message is found: ready in a queue, unacknowledged, taken, acknowledged and
discarded. -/
def places (t : Tracked) (queue : String) (serial : Nat) : Nat :=
  copies serial (t.broker.ready queue) +
  copies serial (t.broker.unacked.map Broker.Unacked.message) +
  copies serial (t.ledger.taken.map Prod.snd) +
  copies serial (t.ledger.acked.map Broker.Unacked.message) +
  copies serial (t.ledger.discarded.map Broker.Unacked.message)

/-- A message that is put into a queue is found there once more. -/
theorem places_enqueue (t : Tracked) (name : String) (content : Content) (queue : String)
    (serial : Nat) :
    (t.enqueue name content).places queue serial =
      t.places queue serial + if queue = name ∧ serial = t.broker.nextSerial then 1 else 0 := by
  simp only [places, Tracked.enqueue, Broker.ready_enqueue, Broker.enqueue_unacked]
  by_cases hq : queue = name
  · rw [if_pos hq, copies_append, copies_cons, copies_nil]
    simp only [hq, true_and, eq_comm (a := serial)]
    omega
  · simp [hq]

/-! ### The invariant -/

/-- The ledger tells what became of the messages of the broker. -/
structure Sound (t : Tracked) : Prop where
  arrived_length : t.ledger.arrived.length = t.broker.nextSerial
  /-- A message that arrived is in one place. -/
  one_place : ∀ serial queue content, t.ledger.arrived[serial]? = some (queue, content) →
    t.places queue serial = 1
  ready_own : ∀ queue, ∀ m ∈ t.broker.ready queue,
    t.ledger.arrived[m.serial]? = some (queue, m.content)
  /-- Those ready messages are marked that were handed over before. -/
  ready_marked : ∀ queue, ∀ m ∈ t.broker.ready queue,
    (m.redelivered = true ↔ ∃ u ∈ t.ledger.handed, u.message.serial = m.serial)
  handed_own : ∀ u ∈ t.ledger.handed,
    t.ledger.arrived[u.message.serial]? = some (u.queue, u.message.content)
  taken_own : ∀ p ∈ t.ledger.taken, t.ledger.arrived[p.2.serial]? = some (p.1, p.2.content)
  /-- A delivery is unacknowledged or over, and it is over in one way. -/
  fates : t.ledger.handed.Perm (t.broker.unacked ++ t.ledger.ended)
  unacked_sublist : t.broker.unacked.Sublist t.ledger.handed
  tags_increase : t.ledger.handed.Pairwise fun u v => u.tag < v.tag
  tags_below : ∀ u ∈ t.ledger.handed, u.tag < t.broker.nextTag
  /-- What waits in a stream was handed over. -/
  buffered_handed : ∀ d ∈ t.broker.buffered,
    ∃ u ∈ t.ledger.handed, u.tag = d.tag ∧ u.message = d.message
  buffered_tags : (t.broker.buffered.map Delivery.tag).Nodup

theorem sound_empty : Sound {} where
  arrived_length := rfl
  one_place := by simp
  ready_own := by
    intro queue m hm
    cases hm
  ready_marked := by
    intro queue m hm
    cases hm
  handed_own := by simp
  taken_own := by simp
  fates := List.Perm.refl _
  unacked_sublist := List.Sublist.refl _
  tags_increase := List.Pairwise.nil
  tags_below := by simp
  buffered_handed := by simp [Broker.buffered]
  buffered_tags := List.Pairwise.nil

namespace Sound

variable {t : Tracked}

theorem mem_handed_of_unacked (h : t.Sound) {u : Broker.Unacked} (hu : u ∈ t.broker.unacked) :
    u ∈ t.ledger.handed := h.unacked_sublist.subset hu

theorem mem_handed_of_ended (h : t.Sound) {u : Broker.Unacked} (hu : u ∈ t.ledger.ended) :
    u ∈ t.ledger.handed := h.fates.mem_iff.2 (List.mem_append_right _ hu)

theorem mem_handed_of_acked (h : t.Sound) {u : Broker.Unacked} (hu : u ∈ t.ledger.acked) :
    u ∈ t.ledger.handed := h.mem_handed_of_ended (by simp [Ledger.ended, hu])

theorem mem_handed_of_discarded (h : t.Sound) {u : Broker.Unacked}
    (hu : u ∈ t.ledger.discarded) : u ∈ t.ledger.handed :=
  h.mem_handed_of_ended (by simp [Ledger.ended, hu])

theorem mem_handed_of_lost (h : t.Sound) {u : Broker.Unacked} (hu : u ∈ t.ledger.lost) :
    u ∈ t.ledger.handed := h.mem_handed_of_ended (by simp [Ledger.ended, hu])

/-- A delivery is of the queue that its message arrived in. -/
theorem queue_of_serial (h : t.Sound) {serial : Nat} {queue : String} {content : Content}
    (hserial : t.ledger.arrived[serial]? = some (queue, content)) {u : Broker.Unacked}
    (hu : u ∈ t.ledger.handed) (hu' : u.message.serial = serial) : u.queue = queue := by
  have harrived := h.handed_own u hu
  rw [hu', hserial] at harrived
  exact (congrArg Prod.fst (Option.some.inj harrived)).symm

/-- A ready message is in the queue that it arrived in. -/
theorem queue_of_ready (h : t.Sound) {serial : Nat} {queue name : String} {content : Content}
    (hserial : t.ledger.arrived[serial]? = some (queue, content)) {m : Message}
    (hm : m ∈ t.broker.ready name) (hm' : m.serial = serial) : name = queue := by
  have harrived := h.ready_own name m hm
  rw [hm', hserial] at harrived
  exact (congrArg Prod.fst (Option.some.inj harrived)).symm

/-- A delivery that is unacknowledged, acknowledged or discarded was handed over. -/
theorem mem_handed_of_held (h : t.Sound) {u : Broker.Unacked}
    (hu : u ∈ t.broker.unacked ++ t.ledger.acked ++ t.ledger.discarded) :
    u ∈ t.ledger.handed := by
  rcases List.mem_append.1 hu with hu | hu
  · rcases List.mem_append.1 hu with hu | hu
    · exact h.mem_handed_of_unacked hu
    · exact h.mem_handed_of_acked hu
  · exact h.mem_handed_of_discarded hu

/-- A message has one delivery that is unacknowledged, acknowledged or discarded. -/
theorem eq_of_serial_eq (h : t.Sound) {u v : Broker.Unacked}
    (hu : u ∈ t.broker.unacked ++ t.ledger.acked ++ t.ledger.discarded)
    (hv : v ∈ t.broker.unacked ++ t.ledger.acked ++ t.ledger.discarded)
    (huv : u.message.serial = v.message.serial) : u = v := by
  have hone := h.one_place _ _ _ (h.handed_own u (h.mem_handed_of_held hu))
  by_contra hne
  have htwo := two_le_copies hu hv hne rfl huv.symm
  simp only [List.map_append, copies_append] at htwo
  rw [places] at hone
  omega

theorem unacked_tags (h : t.Sound) : t.broker.unacked.Pairwise fun u v => u.tag < v.tag :=
  h.tags_increase.sublist h.unacked_sublist

theorem handed_tags (h : t.Sound) : (t.ledger.handed.map Broker.Unacked.tag).Nodup :=
  List.pairwise_map.2 (h.tags_increase.imp fun huv => Nat.ne_of_lt huv)

/-- A delivery is acknowledged once. -/
theorem nodup_acked (h : t.Sound) : t.ledger.acked.Nodup := by
  have hends := h.fates.nodup_iff.1 (List.Nodup.of_map _ h.handed_tags)
  exact (List.nodup_append.1 hends).2.1.sublist (by simp [Ledger.ended])

/-- A tag stands for one delivery. -/
theorem eq_of_tag_eq (h : t.Sound) {u v : Broker.Unacked} (hu : u ∈ t.ledger.handed)
    (hv : v ∈ t.ledger.handed) (huv : u.tag = v.tag) : u = v :=
  List.inj_on_of_nodup_map h.handed_tags hu hv huv

/-- A message that has not arrived yet is nowhere. -/
theorem serial_lt (h : t.Sound) {serial : Nat} {p : String × Content}
    (hp : t.ledger.arrived[serial]? = some p) : serial < t.broker.nextSerial := by
  rw [← h.arrived_length]
  exact (List.getElem?_eq_some_iff.1 hp).1

theorem places_nextSerial (h : t.Sound) (queue : String) :
    t.places queue t.broker.nextSerial = 0 := by
  have hready : copies t.broker.nextSerial (t.broker.ready queue) = 0 := by
    refine copies_eq_zero ?_
    intro m hm
    exact Nat.ne_of_lt (h.serial_lt (h.ready_own queue m hm))
  have hhanded : ∀ entries : List Broker.Unacked, (∀ u ∈ entries, u ∈ t.ledger.handed) →
      copies t.broker.nextSerial (entries.map Broker.Unacked.message) = 0 := by
    intro entries hentries
    refine copies_eq_zero ?_
    intro m hm
    obtain ⟨u, hu, rfl⟩ := List.mem_map.1 hm
    exact Nat.ne_of_lt (h.serial_lt (h.handed_own u (hentries u hu)))
  have htaken : copies t.broker.nextSerial (t.ledger.taken.map Prod.snd) = 0 := by
    refine copies_eq_zero ?_
    intro m hm
    obtain ⟨p, hp, rfl⟩ := List.mem_map.1 hm
    exact Nat.ne_of_lt (h.serial_lt (h.taken_own p hp))
  rw [places, hready, htaken, hhanded _ fun _ => h.mem_handed_of_unacked,
    hhanded _ fun _ => h.mem_handed_of_acked, hhanded _ fun _ => h.mem_handed_of_discarded]

/-! ### Every move keeps the invariant -/

theorem enqueue (h : t.Sound) (name : String) (content : Content) :
    (t.enqueue name content).Sound := by
  have hold : ∀ {serial : Nat} {p : String × Content}, t.ledger.arrived[serial]? = some p →
      (t.enqueue name content).ledger.arrived[serial]? = some p := by
    intro serial p hp
    have hlt := (List.getElem?_eq_some_iff.1 hp).1
    exact (List.getElem?_append_left hlt).trans hp
  have hnew : (t.enqueue name content).ledger.arrived[t.broker.nextSerial]? =
      some (name, content) := by
    rw [← h.arrived_length]
    exact List.getElem?_concat_length
  have hready : ∀ queue, ∀ m ∈ (t.enqueue name content).broker.ready queue,
      m ∈ t.broker.ready queue ∨ queue = name ∧ m = ⟨content, false, t.broker.nextSerial⟩ := by
    intro queue m hm
    rw [Tracked.enqueue, Broker.ready_enqueue] at hm
    by_cases hq : queue = name
    · rw [if_pos hq, List.mem_append, List.mem_singleton] at hm
      exact hm.imp_right fun hm => ⟨hq, hm⟩
    · rw [if_neg hq] at hm
      exact Or.inl hm
  constructor
  case arrived_length =>
    simp [Tracked.enqueue, h.arrived_length]
  case one_place =>
    intro serial queue c hc
    rw [places_enqueue]
    by_cases hs : serial = t.broker.nextSerial
    · -- The new message was nowhere before.
      subst hs
      rw [hnew] at hc
      cases hc
      rw [h.places_nextSerial, if_pos ⟨rfl, rfl⟩]
    · have hlt : serial < t.ledger.arrived.length := by
        have hlen := (List.getElem?_eq_some_iff.1 hc).1
        have := h.arrived_length
        simp only [Tracked.enqueue, List.length_append, List.length_singleton] at hlen
        omega
      rw [if_neg fun hand => hs hand.2]
      exact h.one_place serial queue c ((List.getElem?_append_left hlt).symm.trans hc)
  case ready_own =>
    intro queue m hm
    rcases hready queue m hm with hm | ⟨rfl, rfl⟩
    · exact hold (h.ready_own queue m hm)
    · exact hnew
  case ready_marked =>
    intro queue m hm
    rcases hready queue m hm with hm | ⟨rfl, rfl⟩
    · exact h.ready_marked queue m hm
    · constructor
      · intro hfalse
        cases hfalse
      · rintro ⟨u, hu, hserial⟩
        have := h.serial_lt (h.handed_own u hu)
        simp only at hserial
        omega
  case handed_own => exact fun u hu => hold (h.handed_own u hu)
  case taken_own => exact fun p hp => hold (h.taken_own p hp)
  case fates => exact h.fates
  case unacked_sublist => exact h.unacked_sublist
  case tags_increase => exact h.tags_increase
  case tags_below => exact h.tags_below
  case buffered_handed => exact h.buffered_handed
  case buffered_tags => exact h.buffered_tags

theorem quiet (h : t.Sound) {b : Broker} (hb : Broker.Quiet t.broker b) :
    (t.setBroker b).Sound where
  arrived_length := h.arrived_length.trans hb.nextSerial.symm
  one_place serial queue content hc := by
    rw [places, setBroker_broker, hb.ready, hb.unacked]
    exact h.one_place serial queue content hc
  ready_own queue m hm := h.ready_own queue m (hb.ready queue ▸ hm)
  ready_marked queue m hm := h.ready_marked queue m (hb.ready queue ▸ hm)
  handed_own := h.handed_own
  taken_own := h.taken_own
  fates := by
    rw [setBroker_broker, hb.unacked]
    exact h.fates
  unacked_sublist := by
    rw [setBroker_broker, hb.unacked]
    exact h.unacked_sublist
  tags_increase := h.tags_increase
  tags_below u hu := Nat.lt_of_lt_of_le (h.tags_below u hu) hb.nextTag
  buffered_handed d hd := h.buffered_handed d (hb.buffered.subset hd)
  buffered_tags := h.buffered_tags.sublist (hb.buffered.map _)

section HandOver

variable {name : String} {q : Broker.Queue} {c : Broker.Consumer} {count : Nat}

/-- What is still ready when something was handed over was ready before. -/
theorem mem_ready_of_handOver (hq : t.broker.queue? name = some q) {queue : String} {m : Message}
    (hm : m ∈ (t.handOver name q c count).broker.ready queue) : m ∈ t.broker.ready queue := by
  rw [Tracked.handOver, Broker.ready_handOver hq] at hm
  by_cases hqueue : queue = name
  · rw [if_pos hqueue] at hm
    rw [hqueue, Broker.ready_of_queue? hq]
    exact List.mem_of_mem_drop hm
  · rwa [if_neg hqueue] at hm

/-- What is handed over was ready. -/
theorem mem_ready_of_handed (hq : t.broker.queue? name = some q) {u : Broker.Unacked}
    (hu : u ∈ t.broker.handed name q c count) : u.message ∈ t.broker.ready u.queue := by
  obtain ⟨rfl, hm, -⟩ := Broker.mem_handed hu
  rwa [Broker.ready_of_queue? hq]

/-- A message of another queue is none of those that are handed over. -/
theorem serial_ne_of_handed (h : t.Sound) (hq : t.broker.queue? name = some q) {serial : Nat}
    {queue : String} {content : Content}
    (hc : t.ledger.arrived[serial]? = some (queue, content)) (hne : queue ≠ name)
    {u : Broker.Unacked} (hu : u ∈ t.broker.handed name q c count) :
    u.message.serial ≠ serial := by
  intro hserial
  have hready := mem_ready_of_handed hq hu
  rw [(Broker.mem_handed hu).1] at hready
  exact hne (h.queue_of_ready hc hready hserial).symm

/-- What is no longer ready is unacknowledged now. -/
theorem places_handOver (h : t.Sound) (hq : t.broker.queue? name = some q) {serial : Nat}
    {queue : String} {content : Content}
    (hc : t.ledger.arrived[serial]? = some (queue, content)) :
    (t.handOver name q c count).places queue serial = t.places queue serial := by
  simp only [places, Tracked.handOver, Broker.ready_handOver hq, Broker.handOver_unacked,
    List.map_append, copies_append]
  by_cases hqueue : queue = name
  · rw [if_pos hqueue, Broker.map_message_handed, hqueue, Broker.ready_of_queue? hq,
      ← copies_take_add_drop serial q.ready count]
    omega
  · have hzero : copies serial
        ((t.broker.handed name q c count).map Broker.Unacked.message) = 0 := by
      refine copies_eq_zero ?_
      intro m hm
      obtain ⟨u, hu, rfl⟩ := List.mem_map.1 hm
      exact h.serial_ne_of_handed hq hc hqueue hu
    rw [if_neg hqueue, hzero]
    rfl

/-- What is still ready is none of what is handed over: a message would be in two places else. -/
theorem serial_ne_of_ready (h : t.Sound) (hq : t.broker.queue? name = some q) {queue : String}
    {m : Message} (hm : m ∈ (t.handOver name q c count).broker.ready queue) {u : Broker.Unacked}
    (hu : u ∈ t.broker.handed name q c count) : u.message.serial ≠ m.serial := by
  have hown := h.ready_own queue m (mem_ready_of_handOver hq hm)
  by_cases hqueue : queue = name
  · intro hserial
    have hone := h.one_place m.serial queue m.content hown
    have hdrop : 0 < copies m.serial (q.ready.drop count) := by
      rw [Tracked.handOver, Broker.ready_handOver hq, if_pos hqueue] at hm
      exact copies_pos hm rfl
    have htake : 0 < copies m.serial (q.ready.take count) := by
      rw [← t.broker.map_message_handed name q c count]
      exact copies_pos (List.mem_map_of_mem hu) hserial
    rw [places, hqueue, Broker.ready_of_queue? hq,
      ← copies_take_add_drop m.serial q.ready count] at hone
    omega
  · exact h.serial_ne_of_handed hq hown hqueue hu

/-- What is handed over gets tags that nothing in a stream has. -/
theorem nodup_buffered_handOver (h : t.Sound) (hl : t.broker.isListening c.stream = true) :
    ((t.handOver name q c count).broker.buffered.map Delivery.tag).Nodup := by
  have hperm := (Broker.buffered_handOver hl name q count).map Delivery.tag
  refine hperm.nodup_iff.2 ?_
  rw [List.map_append]
  refine List.nodup_append.2 ⟨h.buffered_tags, ?_, ?_⟩
  · exact List.pairwise_map.2
      ((Broker.pairwise_tag_deliveries _ _).imp fun hlt => Nat.ne_of_lt hlt)
  -- What waits already was handed over before, under a smaller tag.
  · intro tag htag tag' htag' heq
    obtain ⟨d, hd, rfl⟩ := List.mem_map.1 htag
    obtain ⟨e, he, rfl⟩ := List.mem_map.1 htag'
    obtain ⟨u, hu, hutag, -⟩ := h.buffered_handed d hd
    have hlt := h.tags_below u hu
    have hle := (Broker.tag_mem_deliveries he).1
    omega

theorem handOver (h : t.Sound) (hq : t.broker.queue? name = some q)
    (hl : t.broker.isListening c.stream = true) : (t.handOver name q c count).Sound := by
  constructor
  case arrived_length => exact h.arrived_length
  case one_place =>
    intro serial queue content hc
    exact (h.places_handOver hq hc).trans (h.one_place serial queue content hc)
  case ready_own => exact fun queue m hm => h.ready_own queue m (mem_ready_of_handOver hq hm)
  case ready_marked =>
    intro queue m hm
    refine (h.ready_marked queue m (mem_ready_of_handOver hq hm)).trans ?_
    constructor
    · rintro ⟨u, hu, hserial⟩
      exact ⟨u, List.mem_append_left _ hu, hserial⟩
    · rintro ⟨u, hu, hserial⟩
      rcases List.mem_append.1 hu with hu | hu
      · exact ⟨u, hu, hserial⟩
      · exact absurd hserial (h.serial_ne_of_ready hq hm hu)
  case handed_own =>
    intro u hu
    rcases List.mem_append.1 hu with hu | hu
    · exact h.handed_own u hu
    · exact h.ready_own _ _ (mem_ready_of_handed hq hu)
  case taken_own => exact h.taken_own
  case fates =>
    have hperm := h.fates.append_right (t.broker.handed name q c count)
    refine hperm.trans ?_
    simp only [Tracked.handOver, Broker.handOver_unacked, List.append_assoc]
    exact List.perm_append_comm.append_left _
  case unacked_sublist => exact h.unacked_sublist.append (List.Sublist.refl _)
  case tags_increase =>
    refine List.pairwise_append.2 ⟨h.tags_increase, Broker.pairwise_tag_handed _ _ _ _ _, ?_⟩
    intro u hu v hv
    exact Nat.lt_of_lt_of_le (h.tags_below u hu) (Broker.mem_handed hv).2.2.1
  case tags_below =>
    intro u hu
    rcases List.mem_append.1 hu with hu | hu
    · exact Nat.lt_of_lt_of_le (h.tags_below u hu) (Nat.le_add_right _ _)
    · exact (Broker.mem_handed hu).2.2.2
  case buffered_handed =>
    intro d hd
    rcases List.mem_append.1 ((Broker.buffered_handOver hl name q count).mem_iff.1 hd) with hd | hd
    · obtain ⟨u, hu, heq⟩ := h.buffered_handed d hd
      exact ⟨u, List.mem_append_left _ hu, heq⟩
    · exact ⟨_, List.mem_append_right _ (List.mem_map_of_mem hd), rfl, rfl⟩
  case buffered_tags => exact h.nodup_buffered_handOver hl

end HandOver

/-- An entry that is settled is one copy of its message, which goes from one place to another. -/
theorem places_settle (h : t.Sound) {generation tag : Nat} {entry : Broker.Unacked}
    (he : t.broker.unacked? generation tag = some entry) (fate : Fate) {serial : Nat}
    {queue : String} {content : Content}
    (hc : t.ledger.arrived[serial]? = some (queue, content)) :
    (t.settle tag entry fate).places queue serial = t.places queue serial := by
  have hperm := Broker.perm_dropUnacked he h.unacked_tags
  have hcopies := copies_perm serial (hperm.map Broker.Unacked.message)
  rw [List.map_cons, copies_cons] at hcopies
  simp only [places, ready_settle, settle_unacked, settle_taken]
  cases fate with
  | acked =>
      simp only [Tracked.settle, Ledger.record, reduceCtorEq, false_and, if_false,
        List.map_append, List.map_cons, List.map_nil, copies_append, copies_cons, copies_nil]
      omega
  | discarded =>
      simp only [Tracked.settle, Ledger.record, reduceCtorEq, false_and, if_false,
        List.map_append, List.map_cons, List.map_nil, copies_append, copies_cons, copies_nil]
      omega
  | returned =>
      simp only [Tracked.settle, Ledger.record, true_and]
      by_cases hq : queue = entry.queue
      · rw [if_pos hq, copies_cons, Broker.Unacked.returned_serial]
        omega
      · -- The entry is of another queue, and so of another message.
        have hentry := h.mem_handed_of_unacked (hperm.mem_iff.2 List.mem_cons_self)
        have hne : entry.message.serial ≠ serial :=
          fun heq => hq (h.queue_of_serial hc hentry heq).symm
        rw [if_neg hne] at hcopies
        rw [if_neg hq]
        omega

theorem settle (h : t.Sound) {generation tag : Nat} {entry : Broker.Unacked}
    (he : t.broker.unacked? generation tag = some entry) (fate : Fate) :
    (t.settle tag entry fate).Sound := by
  have hperm := Broker.perm_dropUnacked he h.unacked_tags
  have hentry : entry ∈ t.ledger.handed :=
    h.mem_handed_of_unacked (hperm.mem_iff.2 (List.mem_cons_self ..))
  have hready : ∀ queue, ∀ m ∈ (t.settle tag entry fate).broker.ready queue,
      m ∈ t.broker.ready queue ∨ queue = entry.queue ∧ m = entry.returned := by
    intro queue m hm
    rw [ready_settle] at hm
    by_cases hq : fate = .returned ∧ queue = entry.queue
    · rw [if_pos hq, List.mem_cons] at hm
      exact hm.symm.imp_right fun hm => ⟨hq.2, hm⟩
    · rw [if_neg hq] at hm
      exact Or.inl hm
  constructor
  case arrived_length => simpa using h.arrived_length
  case one_place =>
    intro serial queue content hc
    rw [settle_arrived] at hc
    exact (h.places_settle he fate hc).trans (h.one_place serial queue content hc)
  case ready_own =>
    intro queue m hm
    rw [settle_arrived]
    rcases hready queue m hm with hm | ⟨rfl, rfl⟩
    · exact h.ready_own queue m hm
    · exact h.handed_own entry hentry
  case ready_marked =>
    intro queue m hm
    rw [settle_handed]
    rcases hready queue m hm with hm | ⟨rfl, rfl⟩
    · exact h.ready_marked queue m hm
    · exact ⟨fun _ => ⟨entry, hentry, rfl⟩, fun _ => rfl⟩
  case handed_own => simpa using h.handed_own
  case taken_own => simpa using h.taken_own
  case fates =>
    rw [settle_handed, settle_unacked]
    refine h.fates.trans ((hperm.append_right _).trans ?_)
    rw [List.cons_append]
    refine List.perm_middle.symm.trans ?_
    exact (settle_ended t tag entry fate).symm.append_left _
  case unacked_sublist =>
    rw [settle_handed, settle_unacked]
    exact List.filter_sublist.trans h.unacked_sublist
  case tags_increase => simpa using h.tags_increase
  case tags_below => simpa using h.tags_below
  case buffered_handed => simpa [Broker.buffered] using h.buffered_handed
  case buffered_tags => simpa [Broker.buffered] using h.buffered_tags

/-- When the connections close, all copies of a message go back into its own queue. -/
theorem places_close (h : t.Sound) {serial : Nat} {queue : String} {content : Content}
    (hc : t.ledger.arrived[serial]? = some (queue, content)) :
    t.close.places queue serial = t.places queue serial := by
  have hall : copies serial ((t.broker.unacked.filter fun u => u.queue = queue).map
      Broker.Unacked.message) = copies serial (t.broker.unacked.map Broker.Unacked.message) := by
    rw [copies, copies, List.countP_map, List.countP_map, List.countP_filter]
    refine List.countP_congr ?_
    intro u hu
    simp only [Function.comp, Bool.and_eq_true, decide_eq_true_eq, and_iff_left_iff_imp]
    exact h.queue_of_serial hc (h.mem_handed_of_unacked hu)
  simp only [places, Tracked.close, Broker.ready_close, Broker.close_unacked, copies_append,
    copies_map_returned, List.map_nil, copies_nil, hall]
  omega

theorem close (h : t.Sound) : t.close.Sound := by
  have hready : ∀ queue, ∀ m ∈ t.close.broker.ready queue, m ∈ t.broker.ready queue ∨
      ∃ u ∈ t.broker.unacked, u.queue = queue ∧ m = u.returned := by
    intro queue m hm
    rw [Tracked.close, Broker.ready_close, List.mem_append] at hm
    refine hm.symm.imp_right ?_
    intro hm
    obtain ⟨u, hu, rfl⟩ := List.mem_map.1 hm
    exact ⟨u, List.mem_of_mem_filter hu, by simpa using List.of_mem_filter hu, rfl⟩
  constructor
  case arrived_length => simpa [Tracked.close] using h.arrived_length
  case one_place =>
    intro serial queue content hc
    exact (h.places_close hc).trans (h.one_place serial queue content hc)
  case ready_own =>
    intro queue m hm
    rcases hready queue m hm with hm | ⟨u, hu, rfl, rfl⟩
    · exact h.ready_own queue m hm
    · exact h.handed_own u (h.mem_handed_of_unacked hu)
  case ready_marked =>
    intro queue m hm
    rcases hready queue m hm with hm | ⟨u, hu, rfl, rfl⟩
    · exact h.ready_marked queue m hm
    · exact ⟨fun _ => ⟨u, h.mem_handed_of_unacked hu, rfl⟩, fun _ => rfl⟩
  case handed_own => exact h.handed_own
  case taken_own => exact h.taken_own
  case fates =>
    refine h.fates.trans ?_
    simp only [Tracked.close, Broker.close_unacked, Ledger.ended, List.nil_append]
    rw [← List.append_assoc _ t.ledger.lost]
    exact List.perm_append_comm
  case unacked_sublist =>
    simp only [Tracked.close, Broker.close_unacked]
    exact List.nil_sublist _
  case tags_increase => exact h.tags_increase
  case tags_below => simpa [Tracked.close] using h.tags_below
  case buffered_handed => simpa [Tracked.close, Broker.buffered] using h.buffered_handed
  case buffered_tags => simpa [Tracked.close, Broker.buffered] using h.buffered_tags

/-- What is taken out of a queue is no longer ready, and no copy of what is ready elsewhere. -/
theorem places_take (h : t.Sound) (name : String) {serial : Nat} {queue : String}
    {content : Content} (hc : t.ledger.arrived[serial]? = some (queue, content)) :
    (t.take name).places queue serial = t.places queue serial := by
  simp only [places, Tracked.take, Broker.ready_take, Broker.take_snd, Broker.take_unacked,
    List.map_append, List.map_map, Function.comp_def, List.map_id', copies_append]
  by_cases hq : queue = name
  · rw [if_pos hq, hq, copies_nil]
    omega
  · have hzero : copies serial (t.broker.ready name) = 0 := by
      refine copies_eq_zero ?_
      intro m hm hserial
      exact hq (h.queue_of_ready hc hm hserial).symm
    rw [if_neg hq, hzero]
    rfl

theorem take (h : t.Sound) (name : String) : (t.take name).Sound := by
  have hready : ∀ queue, ∀ m ∈ (t.take name).broker.ready queue, m ∈ t.broker.ready queue := by
    intro queue m hm
    rw [Tracked.take, Broker.ready_take] at hm
    by_cases hq : queue = name
    · rw [if_pos hq] at hm
      cases hm
    · rwa [if_neg hq] at hm
  constructor
  case arrived_length => simpa [Tracked.take] using h.arrived_length
  case one_place =>
    intro serial queue content hc
    exact (h.places_take name hc).trans (h.one_place serial queue content hc)
  case ready_own => exact fun queue m hm => h.ready_own queue m (hready queue m hm)
  case ready_marked => exact fun queue m hm => h.ready_marked queue m (hready queue m hm)
  case handed_own => exact h.handed_own
  case taken_own =>
    intro p hp
    rcases List.mem_append.1 hp with hp | hp
    · exact h.taken_own p hp
    · obtain ⟨m, hm, rfl⟩ := List.mem_map.1 hp
      rw [Broker.take_snd] at hm
      exact h.ready_own name m hm
  case fates => simpa [Tracked.take, Ledger.ended] using h.fates
  case unacked_sublist => simpa [Tracked.take] using h.unacked_sublist
  case tags_increase => exact h.tags_increase
  case tags_below => simpa [Tracked.take] using h.tags_below
  case buffered_handed => simpa [Tracked.take, Broker.buffered] using h.buffered_handed
  case buffered_tags => simpa [Tracked.take, Broker.buffered] using h.buffered_tags

end Sound

/-- Every move keeps the invariant, so every call does. -/
theorem keeps_sound (p : Broker.Policy) : p.Keeps Sound where
  enqueue _ h := h.enqueue _ _
  handOver hq hl h := h.handOver hq hl
  settle he _ h := h.settle he _
  close h := h.close
  take _ h := h.take _
  quiet hb h := h.quiet hb

theorem Sound.perform {t : Tracked} (h : t.Sound) (c : Broker.Call) : (t.perform c).Sound :=
  (keeps_sound .any).perform (Broker.Policy.any_allows _ c) h

theorem Sound.performAll {t : Tracked} (h : t.Sound) (calls : List Broker.Call) :
    (t.performAll calls).Sound :=
  (keeps_sound .any).performAll (fun c _ b => Broker.Policy.any_allows b c) h

end Tracked

/-! ### Runs -/

/-- A run of a new broker, written down. -/
def trackedRun (calls : List Broker.Call) : Tracked := Tracked.performAll {} calls

theorem trackedRun_broker (calls : List Broker.Call) :
    (trackedRun calls).broker = Broker.performAll {} calls :=
  Tracked.performAll_broker {} calls

theorem sound_trackedRun (calls : List Broker.Call) : (trackedRun calls).Sound :=
  Tracked.sound_empty.performAll calls

/-- **Every message is in one place, unchanged.**  After any calls to a new broker, a message that
arrived is found once: it is ready in its own queue, unacknowledged, taken, acknowledged or
discarded.  Wherever it is found it is of the queue it arrived in and has the content it arrived
with, and as a ready message it is marked as redelivered if and only if it was handed over
before. -/
theorem every_message_in_one_place (calls : List Broker.Call) :
    let b := Broker.performAll {} calls
    let l := (trackedRun calls).ledger
    (∀ serial queue content, l.arrived[serial]? = some (queue, content) →
      copies serial (b.ready queue) +
      copies serial (b.unacked.map Broker.Unacked.message) +
      copies serial (l.taken.map Prod.snd) +
      copies serial (l.acked.map Broker.Unacked.message) +
      copies serial (l.discarded.map Broker.Unacked.message) = 1) ∧
    (∀ queue, ∀ m ∈ b.ready queue,
      l.arrived[m.serial]? = some (queue, m.content) ∧
      (m.redelivered = true ↔ ∃ u ∈ l.handed, u.message.serial = m.serial)) ∧
    (∀ u ∈ b.unacked ++ l.acked ++ l.discarded,
      l.arrived[u.message.serial]? = some (u.queue, u.message.content)) ∧
    (∀ p ∈ l.taken, l.arrived[p.2.serial]? = some (p.1, p.2.content)) := by
  intro b l
  have hb : b = (trackedRun calls).broker := (trackedRun_broker calls).symm
  have h := sound_trackedRun calls
  rw [hb]
  refine ⟨h.one_place, ?_, ?_, h.taken_own⟩
  · intro queue m hm
    exact ⟨h.ready_own queue m hm, h.ready_marked queue m hm⟩
  · intro u hu
    exact h.handed_own u (h.mem_handed_of_held hu)

end HashCalendar
