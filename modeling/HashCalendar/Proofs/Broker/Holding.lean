/-
**Where unacknowledged deliveries are.**

A queue may be consumed by one component alone.  As long as the connection of its receiver lasts,
every unacknowledged delivery of the queue waits in the stream of the receiver or is held by the
component.  When the connection closes, no delivery of the queue is unacknowledged any more, and so
it stays until the component consumes again.

Main definitions:

* `HashCalendar.Broker.Rules.alone` — what others may do while one component consumes a queue;
* `HashCalendar.Tracked.Idle` — nobody consumes a queue;
* `HashCalendar.Tracked.Attached` — a receiver is attached to a queue;
* `HashCalendar.Tracked.Covered` — every unacknowledged delivery of a queue is held.

Main results:

* `HashCalendar.Tracked.Move.aloof_or` — **all that others can do to a queue and its receiver**;
* `HashCalendar.Tracked.Idle.moves` — a queue that nobody consumes stays so;
* `HashCalendar.Tracked.Covered.moves` — **others leave no delivery behind**;
* `HashCalendar.Tracked.Covered.settleHandle` — what is settled need not be held any more.
-/

import HashCalendar.Proofs.Broker.Feeding

set_option relaxedAutoImplicit false
set_option autoImplicit false

namespace HashCalendar

namespace Broker

/-! ### What a call leaves alone -/

@[simp] theorem close_generation (b : Broker) : b.close.generation = b.generation + 1 := by
  rw [close, foldr_requeue_eq]

@[simp] theorem close_reachable (b : Broker) : b.close.reachable = b.reachable := by
  rw [close, foldr_requeue_eq]

@[simp] theorem isListening_handOver (b : Broker) (name : String) (q : Queue) (c : Consumer)
    (count stream : Nat) :
    (b.handOver name q c count).isListening stream = b.isListening stream := by
  rw [isListening, isListening, handOver_streams, pushStream, List.getElem?_modify]
  cases b.streams[stream]? with
  | none => rfl
  | some s =>
      by_cases h : c.stream = stream
      · simp [h]
      · simp [h]

@[simp] theorem isListening_receive (b : Broker) (stream n : Nat) :
    (b.receive stream).1.isListening n = b.isListening n := by
  rw [receive]
  cases hs : b.streams[stream]? with
  | none => rfl
  | some s =>
      obtain ⟨buffer, listening⟩ := s
      cases buffer with
      | nil => rfl
      | cons d rest =>
          rw [isListening, isListening, List.getElem?_set]
          by_cases h : stream = n
          · subst h
            rw [if_pos rfl, if_pos (List.getElem?_eq_some_iff.1 hs).1, hs]
          · rw [if_neg h]

theorem isListening_dropStream {b : Broker} {stream n : Nat} (h : n ≠ stream) :
    (b.dropStream stream).isListening n = b.isListening n := by
  rw [isListening, dropStream, isListening, List.getElem?_modify_ne _ _ (Ne.symm h)]

theorem isListening_register {b : Broker} {n : Nat} (h : b.isListening n = true) (ch : Channel)
    (name : String) : (b.register ch name).isListening n = true := by
  rw [isListening] at h
  cases hs : b.streams[n]? with
  | none =>
      rw [hs] at h
      cases h
  | some s =>
      rw [hs] at h
      have hlt := (List.getElem?_eq_some_iff.1 hs).1
      rw [isListening, register, List.getElem?_append_left hlt, hs]
      exact h

/-- Somebody listens to a new stream. -/
theorem isListening_register_self (b : Broker) (ch : Channel) (name : String) :
    (b.register ch name).isListening b.streams.length = true := by
  simp [isListening, register]

/-- Receiving changes nothing but the streams. -/
theorem receive_eq (b : Broker) (stream : Nat) :
    (b.receive stream).1 = { b with streams := (b.receive stream).1.streams } := by
  rw [receive]
  split
  · rfl
  · rfl

/-- The handle by which an unacknowledged delivery is settled. -/
def Unacked.handle (u : Unacked) : Handle := ⟨u.generation, u.tag⟩

/-- An unacknowledged delivery is found by its handle. -/
theorem unacked?_of_mem {b : Broker} (h : b.unacked.Pairwise fun u v => u.tag < v.tag)
    {u : Unacked} (hu : u ∈ b.unacked) : b.unacked? u.generation u.tag = some u := by
  have hnodup : (b.unacked.map Unacked.tag).Nodup :=
    List.pairwise_map.2 (h.imp fun huv => Nat.ne_of_lt huv)
  have hfind : b.unacked.find? (fun v => v.tag = u.tag) = some u := by
    cases hv : b.unacked.find? (fun v => v.tag = u.tag) with
    | none => exact absurd (decide_eq_true rfl) (List.find?_eq_none.1 hv u hu)
    | some v =>
        have htag : v.tag = u.tag := by simpa using List.find?_some hv
        rw [List.inj_on_of_nodup_map hnodup (List.mem_of_find?_eq_some hv) hu htag]
  rw [unacked?, hfind]
  simp

/-! ### One component alone -/

/-- What others may do while one component alone consumes a queue: they do not consume it, they let
the stream of its receiver be, and they make the broker unreachable only while nobody consumes the
queue. -/
def Rules.alone (queue : String) (receiver : Option Receiver) : Rules where
  arrive _ _ := True
  settle _ _ := True
  take _ := True
  consume name := name ≠ queue
  listen stream := ∀ r, receiver = some r → stream ≠ r.stream
  vanish b := b.consumer? queue = none

/-- A change that lets the consumer of a queue and its receiver be; deliveries may be settled, and
a consumer that nobody listens to may go. -/
structure Aloof (queue : String) (receiver : Option Receiver) (b b' : Broker) : Prop where
  generation : b'.generation = b.generation
  reachable : b.reachable = true → b'.reachable = true ∨ b.consumer? queue = none
  consumer? : b'.consumer? queue = b.consumer? queue ∨
    ∃ c, b.consumer? queue = some c ∧ b.isListening c.stream = false
  unacked : b'.unacked ⊆ b.unacked
  waiting : ∀ r, receiver = some r → b'.waiting r.stream = b.waiting r.stream
  listening : ∀ r, receiver = some r → b.isListening r.stream = true →
    b'.isListening r.stream = true

/-- What changes neither the connection nor consumers nor streams lets all of them be. -/
theorem Aloof.of_eq {queue : String} {receiver : Option Receiver} {b b' : Broker}
    (hg : b'.generation = b.generation) (hr : b'.reachable = b.reachable)
    (hc : b'.consumer? queue = b.consumer? queue) (hu : b'.unacked ⊆ b.unacked)
    (hs : b'.streams = b.streams) : Aloof queue receiver b b' where
  generation := hg
  reachable h := Or.inl (hr.trans h)
  consumer? := Or.inl hc
  unacked := hu
  waiting r _ := waiting_of_streams hs r.stream
  listening r _ h := by
    rw [isListening, hs]
    exact h

end Broker

namespace Tracked

section Settling

variable (t : Tracked) (tag : Nat) (entry : Broker.Unacked) (fate : Fate)

theorem mem_settle_unacked {u : Broker.Unacked} :
    u ∈ (t.settle tag entry fate).broker.unacked ↔ u ∈ t.broker.unacked ∧ u.tag ≠ tag := by
  rw [settle_unacked, Broker.dropUnacked, List.mem_filter]
  simp

theorem aloof_settle (queue : String) (receiver : Option Receiver) :
    Broker.Aloof queue receiver t.broker (t.settle tag entry fate).broker :=
  .of_eq (settle_generation ..) (settle_reachable ..) (consumer?_settle ..)
    (fun _ hu => ((mem_settle_unacked ..).1 hu).1) (settle_streams ..)

end Settling

variable {queue : String} {receiver : Option Receiver} {t t' : Tracked}

/-- A move of others lets a queue and its receiver be, or it closes the connection, or it hands
messages over. -/
theorem Move.aloof_or (h : Move (.alone queue receiver) t t') :
    Broker.Aloof queue receiver t.broker t'.broker ∨ t' = t.close ∨
      ∃ name q c count, t.broker.queue? name = some q ∧ q.consumer = some c ∧
        t.broker.isListening c.stream = true ∧ t' = t.handOver name q c count := by
  cases h with
  | enqueue ha =>
      exact Or.inl (.of_eq rfl rfl (Broker.consumer?_enqueue _ _ _ _) (List.Subset.refl _) rfl)
  | handOver count hq hc hl => exact Or.inr (Or.inr ⟨_, _, _, count, hq, hc, hl, rfl⟩)
  | @forget name q c hq hc hl =>
      refine Or.inl ⟨rfl, Or.inl, ?_, List.Subset.refl _, fun _ _ => rfl, fun _ _ => id⟩
      rw [setBroker_broker, Broker.consumer?_forget]
      by_cases hname : queue = name
      · rw [hname]
        exact Or.inr ⟨c, (Broker.consumer?_of_queue? hq).trans hc, hl⟩
      · rw [if_neg hname]
        exact Or.inl rfl
  | settle he hs => exact Or.inl (aloof_settle ..)
  | close => exact Or.inr (Or.inl rfl)
  | @take name ht =>
      refine Or.inl (.of_eq ?_ ?_ (Broker.consumer?_take _ _ _) ?_ (Broker.take_streams ..))
      · rw [Tracked.take, Broker.take_eq]
      · rw [Tracked.take, Broker.take_eq]
      · exact (Broker.take_unacked t.broker name) ▸ List.Subset.refl _
  | limit budget closeAfter => exact Or.inl (.of_eq rfl rfl rfl (List.Subset.refl _) rfl)
  | @reach reachable hr =>
      refine Or.inl ⟨rfl, ?_, Or.inl rfl, List.Subset.refl _, fun _ _ => rfl, fun _ _ => id⟩
      exact fun _ => hr
  | declare name =>
      exact Or.inl (.of_eq rfl rfl (Broker.consumer?_modify_ready _ name id (fun _ => rfl) _)
        (List.Subset.refl _) rfl)
  | @register ch name hc ho =>
      refine Or.inl ⟨rfl, Or.inl, ?_, List.Subset.refl _, ?_, ?_⟩
      · rw [setBroker_broker, Broker.consumer?_register, if_neg (Ne.symm hc)]
        exact Or.inl rfl
      · exact fun r _ => Broker.waiting_register _ _ _ _
      · exact fun r _ hl => Broker.isListening_register hl _ _
  | @receive stream hl =>
      have heq := t.broker.receive_eq stream
      refine Or.inl ⟨?_, ?_, ?_, ?_, ?_, ?_⟩
      · rw [setBroker_broker, heq]
      · rw [setBroker_broker, heq]
        exact Or.inl
      · exact Or.inl (Broker.consumer?_of_queues (Broker.receive_queues _ _) _)
      · rw [setBroker_broker, heq]
        exact List.Subset.refl _
      · intro r hr
        rcases t.broker.receive_waiting stream with ⟨d, rest, -, -, hw⟩ | ⟨hsame, -, -⟩
        · rw [setBroker_broker, hw, if_neg (Ne.symm (hl r hr))]
        · rw [setBroker_broker, hsame]
      · exact fun r _ h => (Broker.isListening_receive _ _ _).trans h
  | @dropStream stream hl =>
      refine Or.inl ⟨rfl, Or.inl, Or.inl rfl, List.Subset.refl _, ?_, ?_⟩
      · intro r hr
        rw [setBroker_broker, Broker.waiting_dropStream, if_neg (Ne.symm (hl r hr))]
      · intro r hr h
        exact (Broker.isListening_dropStream (Ne.symm (hl r hr))).trans h

/-! ### Queues that nobody consumes -/

/-- Nobody consumes a queue, and no delivery of it is unacknowledged. -/
structure Idle (queue : String) (t : Tracked) : Prop where
  consumer : t.broker.consumer? queue = none
  unacked : ∀ u ∈ t.broker.unacked, u.queue ≠ queue

theorem idle_empty (queue : String) : Idle queue {} where
  consumer := rfl
  unacked u hu := by cases hu

theorem idle_close (t : Tracked) (queue : String) : t.close.Idle queue where
  consumer := Broker.consumer?_close _ _
  unacked u hu := by
    rw [Tracked.close, Broker.close_unacked] at hu
    cases hu

namespace Idle

/-- A queue that nobody consumes stays so, and no connection comes back. -/
theorem move (hm : Move (.alone queue receiver) t t') (h : t.Idle queue) :
    t'.Idle queue ∧ t.broker.generation ≤ t'.broker.generation := by
  rcases hm.aloof_or with ha | rfl | ⟨name, q, c, count, hq, hc, hl, rfl⟩
  · refine ⟨⟨?_, fun u hu => h.unacked u (ha.unacked hu)⟩, Nat.le_of_eq ha.generation.symm⟩
    rcases ha.consumer? with hsame | ⟨c, hc, -⟩
    · exact hsame.trans h.consumer
    · rw [h.consumer] at hc
      cases hc
  · exact ⟨idle_close t queue, by simp [Tracked.close]⟩
  · refine ⟨⟨(Broker.consumer?_handOver ..).trans h.consumer, ?_⟩, Nat.le_refl _⟩
    intro u hu
    rcases List.mem_append.1 hu with hu | hu
    · exact h.unacked u hu
    · rw [(Broker.mem_handed hu).1]
      rintro rfl
      have hnone := h.consumer
      rw [Broker.consumer?_of_queue? hq, hc] at hnone
      cases hnone

theorem moves (hm : Moves (.alone queue receiver) t t') (h : t.Idle queue) :
    t'.Idle queue ∧ t.broker.generation ≤ t'.broker.generation := by
  induction hm with
  | refl => exact ⟨h, Nat.le_refl _⟩
  | tail _ hmove ih =>
      obtain ⟨hidle, hle⟩ := ih.1.move hmove
      exact ⟨hidle, Nat.le_trans ih.2 hle⟩

end Idle

/-! ### Receivers that are attached -/

/-- A receiver is attached to a queue: its connection lasts, the queue is consumed into its stream,
and every unacknowledged delivery of the queue waits in the stream or is one of those that are
held. -/
structure Attached (queue : String) (r : Receiver) (held : List Handle) (t : Tracked) : Prop where
  reachable : t.broker.reachable = true
  generation : t.broker.generation = r.generation
  listening : t.broker.isListening r.stream = true
  consumer : ∃ c, t.broker.consumer? queue = some c ∧ c.stream = r.stream
  unacked : ∀ u ∈ t.broker.unacked, u.queue = queue →
    u.generation = r.generation ∧ u.handle ∈ (t.broker.waiting r.stream).map r.handle ++ held

/-- Every unacknowledged delivery of a queue waits in the stream of a receiver or is one of those
that are held: the receiver is attached, or its connection is closed and there are none. -/
def Covered (queue : String) (r : Receiver) (held : List Handle) (t : Tracked) : Prop :=
  t.Attached queue r held ∨ (t.Idle queue ∧ r.generation < t.broker.generation)

variable {r : Receiver} {held held' : List Handle} {own : List Nat}

namespace Attached

/-- A new consumer of a queue that nobody consumed is attached. -/
theorem register (h : t.Idle queue) {ch : Channel} (ho : t.broker.isOpen ch.generation = true) :
    (t.setBroker (t.broker.register ch queue)).Attached queue
      ⟨ch.generation, t.broker.streams.length⟩ held := by
  rw [Broker.isOpen, Bool.and_eq_true, decide_eq_true_eq] at ho
  constructor
  case reachable => exact ho.1
  case generation => exact ho.2.symm
  case listening => exact Broker.isListening_register_self _ _ _
  case consumer =>
    exact ⟨_, (Broker.consumer?_register ..).trans (if_pos rfl), rfl⟩
  case unacked => exact fun u hu hqueue => absurd hqueue (h.unacked u hu)

/-- What lets a queue and its receiver be lets it be attached. -/
theorem aloof (h : t.Attached queue r held)
    (ha : Broker.Aloof queue (some r) t.broker t'.broker) : t'.Attached queue r held := by
  obtain ⟨c, hc, hstream⟩ := h.consumer
  constructor
  case reachable =>
    rcases ha.reachable h.reachable with hr | hnone
    · exact hr
    · rw [hc] at hnone
      cases hnone
  case generation => exact ha.generation.trans h.generation
  case listening => exact ha.listening r rfl h.listening
  case consumer =>
    rcases ha.consumer? with hsame | ⟨d, hd, hdeaf⟩
    · exact ⟨c, hsame.trans hc, hstream⟩
    · obtain rfl : c = d := Option.some.inj (hc.symm.trans hd)
      rw [hstream, h.listening] at hdeaf
      cases hdeaf
  case unacked =>
    intro u hu hqueue
    rw [ha.waiting r rfl]
    exact h.unacked u (ha.unacked hu) hqueue

/-- What is handed over from the queue goes to the stream of the receiver. -/
theorem handOver (h : t.Attached queue r held) (hf : t.Feeding queue (some r) own) {name : String}
    {q : Broker.Queue} {c : Broker.Consumer} (hq : t.broker.queue? name = some q)
    (hc : q.consumer = some c) (hl : t.broker.isListening c.stream = true) (count : Nat) :
    (t.handOver name q c count).Attached queue r held := by
  have hserves := hf.serves r rfl
  have hconsumer := (Broker.consumer?_of_queue? hq).trans hc
  obtain ⟨d, hd, hstream⟩ := h.consumer
  constructor
  case reachable => exact h.reachable
  case generation => exact h.generation
  case listening => exact (Broker.isListening_handOver ..).trans h.listening
  case consumer => exact ⟨d, (Broker.consumer?_handOver ..).trans hd, hstream⟩
  case unacked =>
    intro u hu hqueue
    simp only [Tracked.handOver, Broker.waiting_handOver hl]
    rcases List.mem_append.1 hu with hu | hu
    · obtain ⟨hgeneration, hmem⟩ := h.unacked u hu hqueue
      refine ⟨hgeneration, ?_⟩
      by_cases hs : r.stream = c.stream
      · rw [if_pos hs, List.map_append, List.append_assoc]
        rcases List.mem_append.1 hmem with hmem | hmem
        · exact List.mem_append_left _ hmem
        · exact List.mem_append_right _ (List.mem_append_right _ hmem)
      · rw [if_neg hs]
        exact hmem
    · -- The queue has one consumer, and that is the receiver's.
      obtain rfl : name = queue := (Broker.mem_handed hu).1.symm.trans hqueue
      obtain rfl : c = d := Option.some.inj (hconsumer.symm.trans hd)
      have hgeneration := (hserves.fed name c hconsumer hstream).2
      obtain ⟨e, he, rfl⟩ := List.mem_map.1 hu
      refine ⟨hgeneration, ?_⟩
      rw [if_pos hstream.symm, List.map_append]
      refine List.mem_append_left _ (List.mem_append_right _ (List.mem_map.2 ⟨e, he, ?_⟩))
      rw [Receiver.handle, Broker.Unacked.handle, hgeneration]

/-- What is not unacknowledged need not be held. -/
theorem drop {handle : Handle} (h : t.Attached queue r (handle :: held))
    (hne : ∀ u ∈ t.broker.unacked, u.queue = queue → u.handle ≠ handle) :
    t.Attached queue r held := by
  refine { h with unacked := fun u hu hqueue => ?_ }
  obtain ⟨hgeneration, hmem⟩ := h.unacked u hu hqueue
  refine ⟨hgeneration, ?_⟩
  rcases List.mem_append.1 hmem with hmem | hmem
  · exact List.mem_append_left _ hmem
  · exact List.mem_append_right _ (List.mem_of_ne_of_mem (hne u hu hqueue) hmem)

end Attached

namespace Covered

/-- More may be held than there needs to be. -/
theorem subset (h : t.Covered queue r held) (hs : held ⊆ held') : t.Covered queue r held' := by
  rcases h with h | h
  · refine Or.inl { h with unacked := fun u hu hqueue => ?_ }
    obtain ⟨hgeneration, hmem⟩ := h.unacked u hu hqueue
    refine ⟨hgeneration, ?_⟩
    rcases List.mem_append.1 hmem with hmem | hmem
    · exact List.mem_append_left _ hmem
    · exact List.mem_append_right _ (hs hmem)
  · exact Or.inr h

theorem move (hm : Move (.alone queue (some r)) t t') (hf : t.Feeding queue (some r) own)
    (h : t.Covered queue r held) : t'.Covered queue r held := by
  rcases h with h | ⟨hidle, hlt⟩
  · rcases hm.aloof_or with ha | rfl | ⟨name, q, c, count, hq, hc, hl, rfl⟩
    · exact Or.inl (h.aloof ha)
    · refine Or.inr ⟨idle_close t queue, ?_⟩
      rw [Tracked.close, Broker.close_generation, h.generation]
      exact Nat.lt_succ_self _
    · exact Or.inl (h.handOver hf hq hc hl count)
  · obtain ⟨hidle', hle⟩ := hidle.move hm
    exact Or.inr ⟨hidle', Nat.lt_of_lt_of_le hlt hle⟩

/-- Others leave no delivery behind. -/
theorem moves (hm : Moves (.alone queue (some r)) t t') (hf : t.Feeding queue (some r) own)
    (h : t.Covered queue r held) : t'.Covered queue r held := by
  have hboth : t'.Feeding queue (some r) own ∧ t'.Covered queue r held := by
    induction hm with
    | refl => exact ⟨hf, h⟩
    | tail _ hmove ih => exact ⟨Feeding.move hmove ih.1, ih.2.move hmove ih.1⟩
  exact hboth.2

/-- What is settled need not be held any more. -/
theorem settleHandle {handle : Handle} (hf : t.Feeding queue (some r) own)
    (h : t.Covered queue r (handle :: held)) (fate : Fate) :
    (t.settleHandle handle fate).Covered queue r held := by
  rcases h with h | ⟨hidle, hlt⟩
  · rw [Tracked.settleHandle]
    by_cases ho : t.broker.isOpen handle.generation = true
    · rw [if_pos ho]
      cases hentry : t.broker.unacked? handle.generation handle.tag with
      | none =>
          refine Or.inl (h.drop ?_)
          rintro u hu - rfl
          have hfound := Broker.unacked?_of_mem hf.sound.unacked_tags hu
          exact absurd (hentry.symm.trans hfound) (by simp)
      | some entry =>
          have hmove : Move (.alone queue (some r)) t (t.settle handle.tag entry fate) :=
            .settle hentry trivial
          have hsettled := (h.aloof (aloof_settle t handle.tag entry fate queue (some r))).drop (by
            rintro u hu - rfl
            exact ((mem_settle_unacked ..).1 hu).2 rfl)
          exact Covered.moves (moves_dispatch _ _) (hf.move hmove) (Or.inl hsettled)
    · rw [if_neg ho]
      refine Or.inl (h.drop ?_)
      rintro u hu hqueue rfl
      have hgeneration := (h.unacked u hu hqueue).1
      refine ho ?_
      simp [Broker.isOpen, Broker.Unacked.handle, h.reachable, h.generation, hgeneration]
  · have hmoves : Moves (.alone queue (some r)) t (t.settleHandle handle fate) :=
      moves_settleHandle fun _ _ => trivial
    obtain ⟨hidle', hle⟩ := hidle.moves hmoves
    exact Or.inr ⟨hidle', Nat.lt_of_lt_of_le hlt hle⟩

/-- What is received is held. -/
theorem receive (h : t.Covered queue r held) {d : Delivery}
    (hd : (t.broker.receive r.stream).2 = .delivery d) :
    (t.perform (.receive r.stream)).Covered queue r (r.handle d :: held) := by
  have heq := t.broker.receive_eq r.stream
  rcases h with h | ⟨hidle, hlt⟩
  · left
    constructor
    case reachable =>
      rw [Tracked.perform, setBroker_broker, heq]
      exact h.reachable
    case generation =>
      rw [Tracked.perform, setBroker_broker, heq]
      exact h.generation
    case listening => exact (Broker.isListening_receive _ _ _).trans h.listening
    case consumer =>
      obtain ⟨c, hc, hstream⟩ := h.consumer
      exact ⟨c, (Broker.consumer?_of_queues (Broker.receive_queues _ _) _).trans hc, hstream⟩
    case unacked =>
      intro u hu hqueue
      rw [Tracked.perform, setBroker_broker, heq] at hu
      obtain ⟨hgeneration, hmem⟩ := h.unacked u hu hqueue
      refine ⟨hgeneration, ?_⟩
      obtain ⟨rest, hw, hrest⟩ := Broker.waiting_of_receive hd
      rw [hw, List.map_cons, List.cons_append] at hmem
      rw [Tracked.perform, setBroker_broker, hrest, if_pos rfl]
      exact (List.perm_middle.mem_iff).2 hmem
  · have hmoves : Moves (.alone queue none) t (t.perform (.receive r.stream)) := by
      refine moves_perform fun _ hn => ?_
      cases hn
    obtain ⟨hidle', hle⟩ := hidle.moves hmoves
    exact Or.inr ⟨hidle', Nat.lt_of_lt_of_le hlt hle⟩

/-- When nothing is received any more, the connection is closed, and nothing is unacknowledged. -/
theorem idle_of_closed (h : t.Covered queue r held)
    (hd : (t.broker.receive r.stream).2 = .closed) :
    t.Idle queue ∧ r.generation < t.broker.generation := by
  rcases h with h | h
  · obtain ⟨c, hc, hstream⟩ := h.consumer
    exact absurd (hstream ▸ hd) (Broker.receive_ne_closed hc)
  · exact h

end Covered

end Tracked

end HashCalendar
