/-
**Queues keep their order.**

The messages of a queue stand in a line: first those that are unacknowledged, in the order of their
tags, and then those that are ready.  New messages join at the end.  Handing messages over, closing
the connection and changing consumers moves messages from one part of the line to the other and
leaves the line as it is; only settling a delivery takes a message out of it or sets it back, and
only behind the messages that are unacknowledged still.

So the messages of a queue are handed over for the first time in the order in which they arrived,
and a connection that closes puts those that it leaves unsettled back in order.

Main definitions:

* `HashCalendar.Broker.lineup` — the messages of a queue in line, whatever their marks;
* `HashCalendar.Broker.Change`, `HashCalendar.Broker.change` — what a call does to the lines, told
  from its arguments and from whether it succeeds;
* `HashCalendar.Broker.lineupAfter` — the line of a queue after a change;
* `HashCalendar.Tracked.InTurn` — messages that were never handed over stand last, in the order of
  their arrival.

Main results:

* `HashCalendar.Broker.lineup_perform` — every call makes its change;
* `HashCalendar.Tracked.keeps_inTurn` — every move keeps the order of arrival;
* `HashCalendar.queues_keep_their_order` — **a line changes by joining, settling and taking only**.
-/

import HashCalendar.Proofs.Broker.Conservation

set_option relaxedAutoImplicit false
set_option autoImplicit false

namespace HashCalendar

/-- A message without its mark of redelivery. -/
def Message.unmarked (m : Message) : Message := { m with redelivered := false }

namespace Broker

/-! ### Lines -/

/-- The messages of a queue among some deliveries. -/
def inLine (queue : String) (entries : List Unacked) : List Message :=
  (entries.filter fun u => u.queue = queue).map fun u => u.message.unmarked

/-- The messages of a queue in line: the unacknowledged ones before the ready ones. -/
def lineup (b : Broker) (queue : String) : List Message :=
  inLine queue b.unacked ++ (b.ready queue).map Message.unmarked

section Lines

variable (queue : String)

@[simp] theorem inLine_nil : inLine queue [] = [] := rfl

@[simp] theorem inLine_append (us vs : List Unacked) :
    inLine queue (us ++ vs) = inLine queue us ++ inLine queue vs := by
  rw [inLine, List.filter_append, List.map_append]
  rfl

theorem inLine_singleton (u : Unacked) :
    inLine queue [u] = if u.queue = queue then [u.message.unmarked] else [] := by
  by_cases h : u.queue = queue
  · simp [inLine, h]
  · simp [inLine, h]

/-- A message that comes back differs in its mark only. -/
theorem map_unmarked_returned (entries : List Unacked) :
    ((entries.filter fun u => u.queue = queue).map Unacked.returned).map Message.unmarked =
      inLine queue entries := by
  rw [List.map_map]
  rfl

variable {queue}

theorem inLine_eq_nil {entries : List Unacked} (h : ∀ u ∈ entries, u.queue ≠ queue) :
    inLine queue entries = [] := by
  rw [inLine, List.filter_eq_nil_iff.2 (by simpa using h), List.map_nil]

theorem inLine_eq_map {entries : List Unacked} (h : ∀ u ∈ entries, u.queue = queue) :
    inLine queue entries = (entries.map Unacked.message).map Message.unmarked := by
  rw [inLine, List.filter_eq_self.2 (by simpa using h), List.map_map]
  rfl

end Lines

/-! ### The line after a move -/

theorem Quiet.lineup {b b' : Broker} (h : Quiet b b') (queue : String) :
    b'.lineup queue = b.lineup queue := by
  rw [Broker.lineup, h.unacked, h.ready, Broker.lineup]

theorem lineup_enqueue (b : Broker) (name : String) (content : Content) (queue : String) :
    (b.enqueue name content).lineup queue =
      b.lineup queue ++ if queue = name then [⟨content, false, b.nextSerial⟩] else [] := by
  rw [lineup, ready_enqueue, enqueue_unacked, lineup]
  by_cases h : queue = name
  · rw [if_pos h, if_pos h, List.map_append, List.append_assoc]
    rfl
  · rw [if_neg h, if_neg h, List.append_nil]

/-- Handing messages over moves the front of the ready messages behind the unacknowledged ones. -/
theorem lineup_handOver {b : Broker} {name : String} {q : Queue} (h : b.queue? name = some q)
    (c : Consumer) (count : Nat) (queue : String) :
    (b.handOver name q c count).lineup queue = b.lineup queue := by
  rw [lineup, ready_handOver h, handOver_unacked, inLine_append, lineup, List.append_assoc]
  congr 1
  by_cases hqueue : queue = name
  · have hall : ∀ u ∈ b.handed name q c count, u.queue = queue := by
      intro u hu
      rw [hqueue]
      exact (mem_handed hu).1
    rw [inLine_eq_map hall, map_message_handed, if_pos hqueue, hqueue, ready_of_queue? h,
      ← List.map_append, List.take_append_drop]
  · have hnone : ∀ u ∈ b.handed name q c count, u.queue ≠ queue := by
      intro u hu
      rw [(mem_handed hu).1]
      exact Ne.symm hqueue
    rw [inLine_eq_nil hnone, if_neg hqueue, List.nil_append]

@[simp] theorem lineup_dispatch (b : Broker) (name queue : String) :
    (b.dispatch name).lineup queue = b.lineup queue := by
  rcases b.dispatch_cases name with h | ⟨q, c, hq, -, -, -, h⟩ | ⟨q, c, -, -, -, h⟩
  · rw [h]
  · rw [h, lineup_handOver hq]
  · rw [h, (quiet_forget b name).lineup]

/-- A connection that closes moves all unacknowledged messages before the ready ones. -/
@[simp] theorem lineup_close (b : Broker) (queue : String) :
    b.close.lineup queue = b.lineup queue := by
  rw [lineup, close_unacked, ready_close, List.map_append, map_unmarked_returned, lineup]
  rfl

theorem lineup_take (b : Broker) (name queue : String) :
    (b.take name).1.lineup queue =
      inLine queue b.unacked ++
        if queue = name then [] else (b.ready queue).map Message.unmarked := by
  rw [lineup, ready_take, take_unacked]
  by_cases h : queue = name
  · rw [if_pos h, if_pos h, List.map_nil]
  · rw [if_neg h, if_neg h]

/-- A message that is put back stands before the ready ones. -/
theorem lineup_requeue (b : Broker) (entry : Unacked) (queue : String) :
    (b.requeue entry).lineup queue =
      inLine queue b.unacked ++ inLine queue [entry] ++ (b.ready queue).map Message.unmarked := by
  rw [lineup, ready_requeue, inLine_singleton, List.append_assoc]
  by_cases h : queue = entry.queue
  · rw [if_pos h, if_pos h.symm]
    rfl
  · rw [if_neg h, if_neg (Ne.symm h)]
    rfl

@[simp] theorem lineup_countDown (b : Broker) (queue : String) :
    b.countDown.lineup queue = b.lineup queue := by
  rcases b.countDown_cases with ⟨closeAfter, h⟩ | ⟨closeAfter, h⟩
  · rw [h, lineup_close]
    rfl
  · rw [h]
    rfl

/-! ### The line after a call -/

/-- What a call does to the lines. -/
inductive Change where
  /-- A new message joins at the end of the line of its queue. -/
  | joins (queue : String) (content : Content)
  /-- The message of a tag leaves its line. -/
  | leaves (tag : Nat)
  /-- The message of a tag falls back behind those that are unacknowledged still. -/
  | fallsBack (tag : Nat)
  /-- The ready messages of a queue leave. -/
  | readyLeave (queue : String)
  /-- All stay where they are. -/
  | stays
  deriving DecidableEq, Repr

/-- The tag of the delivery whose message changes its place. -/
def Change.tag? : Change → Option Nat
  | .leaves tag => some tag
  | .fallsBack tag => some tag
  | _ => none

/-- What a call does to the lines, told from its arguments and from whether it succeeds. -/
def change (b : Broker) : Call → Change
  | .inject queue content => .joins queue content
  | .publish ch m => if (b.publish ch m).2 = .ok () then .joins m.queue m.content else .stays
  | .ack h => if (b.ack h).2 = .ok () then .leaves h.tag else .stays
  | .nack h back =>
    if (b.nack h back).2 = .ok () then if back then .fallsBack h.tag else .leaves h.tag else .stays
  | .take queue => .readyLeave queue
  | _ => .stays

/-- The line of a queue after a change. -/
def lineupAfter (b : Broker) (queue : String) : Change → List Message
  | .joins name content =>
    b.lineup queue ++ if queue = name then [⟨content, false, b.nextSerial⟩] else []
  | .leaves tag =>
    inLine queue (b.unacked.filter fun u => u.tag ≠ tag) ++ (b.ready queue).map Message.unmarked
  | .fallsBack tag =>
    inLine queue (b.unacked.filter fun u => u.tag ≠ tag) ++
      inLine queue (b.unacked.filter fun u => u.tag = tag) ++ (b.ready queue).map Message.unmarked
  | .readyLeave name =>
    inLine queue b.unacked ++ if queue = name then [] else (b.ready queue).map Message.unmarked
  | .stays => b.lineup queue

theorem lineup_publish (b : Broker) (ch : Channel) (m : Outbound) (queue : String) :
    (b.publish ch m).1.lineup queue = b.lineupAfter queue (b.change (.publish ch m)) := by
  rw [change]
  rcases b.publish_cases ch m with ⟨e, budget, h⟩ | h
  · rw [h]
    rfl
  · rw [h]
    refine (lineup_countDown _ _).trans ((lineup_dispatch _ _ _).trans ?_)
    exact lineup_enqueue _ _ _ _

theorem lineup_consume (b : Broker) (ch : Channel) (name queue : String) :
    (b.consume ch name).1.lineup queue = b.lineup queue := by
  rw [consume]
  by_cases ho : b.isOpen ch.generation = true
  · rw [if_pos ho]
    cases b.queue? name with
    | none => rfl
    | some q => exact (lineup_dispatch _ _ _).trans ((quiet_register b ch name).lineup queue)
  · rw [if_neg ho]

theorem lineup_declareQueue (b : Broker) (ch : Channel) (name queue : String) :
    (b.declareQueue ch name).1.lineup queue = b.lineup queue := by
  rw [declareQueue]
  by_cases ho : b.isOpen ch.generation = true
  · rw [if_pos ho]
    exact (quiet_modify_consumer b name id fun _ => rfl).lineup queue
  · rw [if_neg ho]

theorem lineup_ack (b : Broker) (h : Handle) (queue : String) :
    (b.ack h).1.lineup queue = b.lineupAfter queue (b.change (.ack h)) := by
  rw [change]
  rcases b.ack_cases h with ⟨-, e, heq⟩ | ⟨entry, -, heq⟩
  · rw [heq]
    rfl
  · rw [heq]
    exact lineup_dispatch _ _ _

section Distinct

variable {b : Broker} (distinct : b.unacked.Pairwise fun u v => u.tag < v.tag)

include distinct

/-- One unacknowledged message has the tag of another. -/
theorem filter_tag_eq {generation tag : Nat} {entry : Unacked}
    (h : b.unacked? generation tag = some entry) :
    (b.unacked.filter fun u => u.tag = tag) = [entry] := by
  have hperm := (perm_dropUnacked h distinct).filter fun u => u.tag = tag
  have hentry : entry.tag = tag := by simpa using List.find?_some (unacked?_eq_some h).1
  have hrest : ((b.dropUnacked tag).unacked.filter fun u => u.tag = tag) = [] := by
    refine List.filter_eq_nil_iff.2 ?_
    intro u hu
    simpa using List.of_mem_filter hu
  rw [List.filter_cons_of_pos (by simpa using hentry), hrest] at hperm
  exact List.perm_singleton.1 hperm

theorem lineup_nack (h : Handle) (back : Bool) (queue : String) :
    (b.nack h back).1.lineup queue = b.lineupAfter queue (b.change (.nack h back)) := by
  rw [change]
  rcases b.nack_cases h back with ⟨-, e, heq⟩ | ⟨entry, hc, heq⟩
  · rw [heq]
    rfl
  · rw [heq, if_pos rfl]
    refine (lineup_dispatch _ _ _).trans ?_
    cases back with
    | false => rfl
    | true =>
        rw [if_pos rfl, if_pos rfl, lineup_requeue, lineupAfter,
          filter_tag_eq distinct (unacked?_of_claimed? hc)]
        rfl

/-- Every call makes its change. -/
theorem lineup_perform (c : Call) (queue : String) :
    (b.perform c).lineup queue = b.lineupAfter queue (b.change c) := by
  cases c with
  | inject name content => exact (lineup_dispatch _ _ _).trans (lineup_enqueue b name content queue)
  | publish ch m => exact lineup_publish b ch m queue
  | ack h => exact lineup_ack b h queue
  | nack h back => exact lineup_nack distinct h back queue
  | take name => exact lineup_take b name queue
  | closeNow => exact lineup_close b queue
  | closeAfterPublishes count =>
      rw [perform, closeAfterPublishes]
      by_cases hc : count = 0
      · rw [if_pos hc]
        exact lineup_close b queue
      · rw [if_neg hc]
        rfl
  | consume ch name => exact lineup_consume b ch name queue
  | declareQueue ch name => exact lineup_declareQueue b ch name queue
  | receive stream => exact (quiet_receive b stream).lineup queue
  | dropStream stream => exact (quiet_dropStream b stream).lineup queue
  | setReachable reachable => rfl
  | rejectAfter count => rfl
  | acceptAll => rfl

/-- A call that changes the place of a message settles the only delivery of its tag. -/
theorem exists_filter_tag_eq {c : Call} {tag : Nat} (h : (b.change c).tag? = some tag) :
    ∃ u, (b.unacked.filter fun v => v.tag = tag) = [u] := by
  have hsettled : ∃ generation entry, b.unacked? generation tag = some entry := by
    cases c with
    | ack handle =>
        rw [change] at h
        rcases b.ack_cases handle with ⟨-, e, heq⟩ | ⟨entry, hc, heq⟩
        · rw [heq] at h
          cases h
        · rw [heq, if_pos rfl] at h
          exact ⟨_, entry, Option.some.inj h ▸ unacked?_of_claimed? hc⟩
    | nack handle back =>
        rw [change] at h
        rcases b.nack_cases handle back with ⟨-, e, heq⟩ | ⟨entry, hc, heq⟩
        · rw [heq] at h
          cases h
        · rw [heq, if_pos rfl] at h
          cases back with
          | false => exact ⟨_, entry, Option.some.inj h ▸ unacked?_of_claimed? hc⟩
          | true => exact ⟨_, entry, Option.some.inj h ▸ unacked?_of_claimed? hc⟩
    | publish ch m =>
        rw [change] at h
        rcases b.publish_cases ch m with ⟨e, budget, heq⟩ | heq
        · rw [heq] at h
          cases h
        · rw [heq] at h
          cases h
    | _ => cases h
  obtain ⟨generation, entry, he⟩ := hsettled
  exact ⟨entry, filter_tag_eq distinct he⟩

end Distinct

end Broker

/-! ### First deliveries -/

/-- An item of two lists in a row is one of the second, or one of the first. -/
theorem eq_append_cons_cases {α : Type} {xs ys before after : List α} {a : α}
    (h : xs ++ ys = before ++ a :: after) :
    (∃ more, before = xs ++ more ∧ ys = more ++ a :: after) ∨ ∃ rest, xs = before ++ a :: rest := by
  rcases List.append_eq_append_iff.1 h with ⟨more, hbefore, hys⟩ | ⟨rest, hxs, hafter⟩
  · exact Or.inl ⟨more, hbefore, hys⟩
  · cases rest with
    | nil => exact Or.inl ⟨[], by simpa using hxs.symm, hafter.symm⟩
    | cons b rest =>
        obtain ⟨rfl, -⟩ := List.cons_eq_cons.1 hafter
        exact Or.inr ⟨rest, hxs⟩

namespace Tracked

/-- Messages are handed over for the first time in turn. -/
structure InTurn (t : Tracked) : Prop where
  sound : t.Sound
  /-- The ready messages that were never handed over stand last, in the order of their arrival. -/
  fresh_last : ∀ queue, (t.broker.ready queue).Pairwise fun m n =>
    m.redelivered = false → n.redelivered = false ∧ m.serial < n.serial
  /-- They arrived after all messages of the queue that were handed over. -/
  fresh_later : ∀ queue, ∀ m ∈ t.broker.ready queue, m.redelivered = false →
    ∀ u ∈ t.ledger.handed, u.queue = queue → u.message.serial < m.serial
  /-- A message was handed over before, or it arrived after all that were. -/
  in_turn : ∀ before v after, t.ledger.handed = before ++ v :: after →
    (∃ u ∈ before, u.message.serial = v.message.serial) ∨
      ∀ u ∈ before, u.queue = v.queue → u.message.serial < v.message.serial

namespace InTurn

variable {t : Tracked}

theorem empty : InTurn {} where
  sound := sound_empty
  fresh_last _ := List.Pairwise.nil
  fresh_later _ _ hm := absurd hm List.not_mem_nil
  in_turn before v after h := by
    have hlen := congrArg List.length h
    simp at hlen

/-- A delivery of a ready message is of the queue in which the message is ready. -/
theorem exists_handed (h : t.InTurn) {queue : String} {m : Message}
    (hm : m ∈ t.broker.ready queue) (hmarked : m.redelivered = true) :
    ∃ u ∈ t.ledger.handed, u.queue = queue ∧ u.message.serial = m.serial := by
  obtain ⟨u, hu, hserial⟩ := (h.sound.ready_marked queue m hm).1 hmarked
  exact ⟨u, hu, h.sound.queue_of_serial (h.sound.ready_own queue m hm) hu hserial, hserial⟩

/-- Whatever is ready before a message that was never handed over arrived before it. -/
theorem serial_lt_of_fresh (h : t.InTurn) {queue : String} {ms ns : List Message}
    (hready : t.broker.ready queue = ms ++ ns) {m n : Message} (hm : m ∈ ms) (hn : n ∈ ns)
    (hfresh : n.redelivered = false) : m.serial < n.serial := by
  have hn' : n ∈ t.broker.ready queue := hready ▸ List.mem_append_right ms hn
  cases hmarked : m.redelivered with
  | false =>
      have hlast := h.fresh_last queue
      rw [hready] at hlast
      exact ((List.pairwise_append.1 hlast).2.2 m hm n hn hmarked).2
  | true =>
      obtain ⟨u, hu, hqueue, hserial⟩ :=
        h.exists_handed (hready ▸ List.mem_append_left ns hm) hmarked
      exact hserial ▸ h.fresh_later queue n hn' hfresh u hu hqueue

/-- What only changes the ready messages, and adds none that was never handed over, keeps the
turns. -/
theorem of_ready (h : t.InTurn) {t' : Tracked} (hs : t'.Sound)
    (hhanded : t'.ledger.handed = t.ledger.handed)
    (hlast : ∀ queue, (t'.broker.ready queue).Pairwise fun m n =>
      m.redelivered = false → n.redelivered = false ∧ m.serial < n.serial)
    (hfresh : ∀ queue, ∀ m ∈ t'.broker.ready queue, m.redelivered = false →
      m ∈ t.broker.ready queue) : t'.InTurn where
  sound := hs
  fresh_last := hlast
  fresh_later queue m hm hf u hu :=
    h.fresh_later queue m (hfresh queue m hm hf) hf u (hhanded ▸ hu)
  in_turn before v after heq := h.in_turn before v after (hhanded ▸ heq)

theorem enqueue (h : t.InTurn) (name : String) (content : Content) :
    (t.enqueue name content).InTurn := by
  have hold : ∀ queue, ∀ m ∈ t.broker.ready queue, m.serial < t.broker.nextSerial :=
    fun queue m hm => h.sound.serial_lt (h.sound.ready_own queue m hm)
  constructor
  case sound => exact h.sound.enqueue name content
  case fresh_last =>
    intro queue
    rw [Tracked.enqueue, Broker.ready_enqueue]
    by_cases hqueue : queue = name
    · rw [if_pos hqueue]
      refine List.pairwise_append.2 ⟨h.fresh_last queue, List.pairwise_singleton _ _, ?_⟩
      intro m hm n hn _
      rw [List.mem_singleton.1 hn]
      exact ⟨rfl, hold queue m hm⟩
    · rw [if_neg hqueue]
      exact h.fresh_last queue
  case fresh_later =>
    intro queue m hm hfresh u hu hu'
    rw [Tracked.enqueue, Broker.ready_enqueue] at hm
    by_cases hqueue : queue = name
    · rw [if_pos hqueue, List.mem_append, List.mem_singleton] at hm
      rcases hm with hm | rfl
      · exact h.fresh_later queue m hm hfresh u hu hu'
      · exact h.sound.serial_lt (h.sound.handed_own u hu)
    · rw [if_neg hqueue] at hm
      exact h.fresh_later queue m hm hfresh u hu hu'
  case in_turn => exact h.in_turn

theorem handOver (h : t.InTurn) {name : String} {q : Broker.Queue} {c : Broker.Consumer}
    {count : Nat} (hq : t.broker.queue? name = some q)
    (hl : t.broker.isListening c.stream = true) : (t.handOver name q c count).InTurn := by
  have hready : t.broker.ready name = q.ready.take count ++ q.ready.drop count := by
    rw [List.take_append_drop]
    exact Broker.ready_of_queue? hq
  have hmessages := t.broker.map_message_handed name q c count
  have hleft : ∀ queue, (t.handOver name q c count).broker.ready queue =
      if queue = name then q.ready.drop count else t.broker.ready queue :=
    Broker.ready_handOver hq c count
  constructor
  case sound => exact h.sound.handOver hq hl
  case fresh_last =>
    intro queue
    rw [hleft]
    by_cases hqueue : queue = name
    · have hlast := h.fresh_last name
      rw [hready] at hlast
      rw [if_pos hqueue]
      exact (List.pairwise_append.1 hlast).2.1
    · rw [if_neg hqueue]
      exact h.fresh_last queue
  case fresh_later =>
    intro queue m hm hfresh u hu hu'
    rw [hleft] at hm
    by_cases hqueue : queue = name
    · rw [if_pos hqueue] at hm
      rcases List.mem_append.1 hu with hu | hu
      · refine h.fresh_later queue m ?_ hfresh u hu hu'
        rw [hqueue, hready]
        exact List.mem_append_right _ hm
      · exact h.serial_lt_of_fresh hready (hmessages ▸ List.mem_map_of_mem hu) hm hfresh
    · rw [if_neg hqueue] at hm
      rcases List.mem_append.1 hu with hu | hu
      · exact h.fresh_later queue m hm hfresh u hu hu'
      · exact absurd (hu'.symm.trans (Broker.mem_handed hu).1) hqueue
  case in_turn =>
    intro before v after heq
    rcases eq_append_cons_cases heq with ⟨more, hbefore, hnew⟩ | ⟨rest, hhanded⟩
    · -- The delivery is a new one.
      have hv : v ∈ t.broker.handed name q c count := by simp [hnew]
      obtain ⟨hqueue, hmem, -⟩ := Broker.mem_handed hv
      rw [← Broker.ready_of_queue? hq] at hmem
      cases hmarked : v.message.redelivered with
      | true =>
          obtain ⟨u, hu, -, hserial⟩ := h.exists_handed hmem hmarked
          exact Or.inl ⟨u, hbefore ▸ List.mem_append_left more hu, hserial⟩
      | false =>
          right
          intro u hu hu'
          rw [hbefore, List.mem_append] at hu
          rcases hu with hu | hu
          · exact h.fresh_later name v.message hmem hmarked u hu (hu'.trans hqueue)
          · -- Both are new, and this one was ready before the other.
            have hsplit : t.broker.ready name = more.map Broker.Unacked.message ++
                (v.message :: (after.map Broker.Unacked.message ++ q.ready.drop count)) := by
              rw [hready, ← hmessages, hnew]
              simp
            exact h.serial_lt_of_fresh hsplit (List.mem_map_of_mem hu) List.mem_cons_self hmarked
    · exact h.in_turn before v rest hhanded

theorem settle (h : t.InTurn) {generation tag : Nat} {entry : Broker.Unacked} {fate : Fate}
    (he : t.broker.unacked? generation tag = some entry) :
    (t.settle tag entry fate).InTurn := by
  refine h.of_ready (h.sound.settle he fate) (settle_handed ..) ?_ ?_
  · intro queue
    rw [ready_settle]
    by_cases hreturned : fate = .returned ∧ queue = entry.queue
    · rw [if_pos hreturned]
      exact (h.fresh_last queue).cons fun _ _ hfresh => nomatch hfresh
    · rw [if_neg hreturned]
      exact h.fresh_last queue
  · intro queue m hm hfresh
    rw [ready_settle] at hm
    by_cases hreturned : fate = .returned ∧ queue = entry.queue
    · rw [if_pos hreturned, List.mem_cons] at hm
      rcases hm with rfl | hm
      · cases hfresh
      · exact hm
    · rwa [if_neg hreturned] at hm

theorem close (h : t.InTurn) : t.close.InTurn := by
  have hmarked : ∀ {queue m}, m ∈ (t.broker.unacked.filter fun u => u.queue = queue).map
      Broker.Unacked.returned → m.redelivered = true := by
    intro queue m hm
    obtain ⟨u, -, rfl⟩ := List.mem_map.1 hm
    rfl
  refine h.of_ready h.sound.close rfl ?_ ?_
  · intro queue
    rw [Tracked.close, Broker.ready_close]
    refine List.pairwise_append.2 ⟨List.pairwise_of_forall_mem_list ?_, h.fresh_last queue, ?_⟩
    · intro m hm n _ hfresh
      rw [hmarked hm] at hfresh
      cases hfresh
    · intro m hm n _ hfresh
      rw [hmarked hm] at hfresh
      cases hfresh
  · intro queue m hm hfresh
    rw [Tracked.close, Broker.ready_close, List.mem_append] at hm
    rcases hm with hm | hm
    · rw [hmarked hm] at hfresh
      cases hfresh
    · exact hm

theorem take (h : t.InTurn) (name : String) : (t.take name).InTurn := by
  refine h.of_ready (h.sound.take name) rfl ?_ ?_
  · intro queue
    rw [Tracked.take, Broker.ready_take]
    by_cases hqueue : queue = name
    · rw [if_pos hqueue]
      exact List.Pairwise.nil
    · rw [if_neg hqueue]
      exact h.fresh_last queue
  · intro queue m hm _
    rw [Tracked.take, Broker.ready_take] at hm
    by_cases hqueue : queue = name
    · rw [if_pos hqueue] at hm
      cases hm
    · rwa [if_neg hqueue] at hm

theorem quiet (h : t.InTurn) {b : Broker} (hb : Broker.Quiet t.broker b) :
    (t.setBroker b).InTurn := by
  refine h.of_ready (h.sound.quiet hb) rfl ?_ ?_
  · intro queue
    rw [setBroker_broker, hb.ready]
    exact h.fresh_last queue
  · intro queue m hm _
    rwa [setBroker_broker, hb.ready] at hm

end InTurn

/-- Every move keeps the turns. -/
theorem keeps_inTurn (p : Broker.Policy) : p.Keeps InTurn where
  enqueue _ h := h.enqueue _ _
  handOver hq hl h := h.handOver hq hl
  settle he _ h := h.settle he
  close h := h.close
  take _ h := h.take _
  quiet hb h := h.quiet hb

end Tracked

theorem inTurn_trackedRun (calls : List Broker.Call) : (trackedRun calls).InTurn :=
  (Tracked.keeps_inTurn .any).performAll (fun c _ b => Broker.Policy.any_allows b c) .empty

/-! ### Every run -/

/-- **Queues keep their order.**  After any calls to a new broker, the unacknowledged messages are
in the order of their tags, and every call changes the line of every queue by the change that it
makes and by nothing else; a call that settles a delivery changes the place of one message.
Handing messages over changes no line at all.

Among the messages of a queue that were handed over, one that is handed over for the first time
arrived after all that were handed over before it; and when the connection closes the
unacknowledged messages of a queue stand in their order before those that were ready. -/
theorem queues_keep_their_order (calls : List Broker.Call) :
    let b := Broker.performAll {} calls
    let l := (trackedRun calls).ledger
    (b.unacked.Pairwise fun u v => u.tag < v.tag) ∧
    (∀ c queue, (b.perform c).lineup queue = b.lineupAfter queue (b.change c)) ∧
    (∀ c tag, (b.change c).tag? = some tag →
      ∃ u, (b.unacked.filter fun v => v.tag = tag) = [u]) ∧
    (∀ name queue, (b.dispatch name).lineup queue = b.lineup queue) ∧
    (∀ u ∈ l.handed, l.arrived[u.message.serial]? = some (u.queue, u.message.content)) ∧
    (∀ before v after, l.handed = before ++ v :: after →
      (∀ u ∈ before, u.message.serial ≠ v.message.serial) →
      ∀ u ∈ before, u.queue = v.queue → u.message.serial < v.message.serial) ∧
    (b.close.unacked = [] ∧ ∀ queue, b.close.ready queue =
      (b.unacked.filter fun u => u.queue = queue).map Broker.Unacked.returned ++ b.ready queue) := by
  intro b l
  have h := inTurn_trackedRun calls
  have distinct : b.unacked.Pairwise fun u v => u.tag < v.tag := by
    have htags := h.sound.unacked_tags
    rwa [trackedRun_broker] at htags
  refine ⟨distinct, fun c queue => Broker.lineup_perform distinct c queue, ?_,
    fun name queue => b.lineup_dispatch name queue, h.sound.handed_own, ?_, b.close_unacked,
    b.ready_close⟩
  · intro c tag hc
    exact Broker.exists_filter_tag_eq distinct hc
  · intro before v after heq hfirst
    rcases h.in_turn before v after heq with ⟨u, hu, hserial⟩ | hlater
    · exact absurd hserial (hfirst u hu)
    · exact hlater

/-- Three messages come in, and a consumer that may hold two of them takes the queue. -/
def holdTwoOfThree : List Broker.Call :=
  [.inject "q" ⟨none, [0]⟩, .inject "q" ⟨none, [1]⟩, .inject "q" ⟨none, [2]⟩,
    .consume ⟨0, 2⟩ "q"]

/-- The first message is put back, and stands between the one that is held and the one that is
ready; the two that were handed over came in their order. -/
theorem returned_message_stands_second :
    let b := Broker.performAll {} holdTwoOfThree
    (b.lineup "q").map Message.serial = [0, 1, 2] ∧
    (b.change (.nack ⟨0, 1⟩ true)).tag? = some 1 ∧
    (∃ u, (b.unacked.filter fun v => v.tag = 1) = [u]) ∧
    ((b.perform (.nack ⟨0, 1⟩ true)).lineup "q").map Message.serial = [1, 0, 2] ∧
    ∃ u v, (trackedRun holdTwoOfThree).ledger.handed = [u] ++ v :: [] ∧
      u.message.serial ≠ v.message.serial ∧ u.queue = v.queue ∧
      u.message.serial < v.message.serial := by
  obtain ⟨-, hline, hone, -, -, hfirst, -⟩ := queues_keep_their_order holdTwoOfThree
  refine ⟨by decide, by decide, hone (.nack ⟨0, 1⟩ true) 1 (by decide), ?_,
    ⟨1, "q", 0, ⟨⟨none, [0]⟩, false, 0⟩⟩, ⟨2, "q", 0, ⟨⟨none, [1]⟩, false, 1⟩⟩, by decide,
    by decide, rfl, ?_⟩
  · rw [hline]
    decide
  · exact hfirst [⟨1, "q", 0, ⟨⟨none, [0]⟩, false, 0⟩⟩] ⟨2, "q", 0, ⟨⟨none, [1]⟩, false, 1⟩⟩ []
      (by decide) (by decide) _ List.mem_cons_self rfl

end HashCalendar
