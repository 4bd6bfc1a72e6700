/-
**Components that keep apart.**

A component that consumes a queue is told that its connection is closed by the end of its stream.
This is so as long as nobody else consumes the queue or touches the stream, whatever else is called:
the consumer of the queue delivers into the stream until the connection closes.  A queue that nobody
consumes has no consumer, and nothing is ever handed over from it.

Main definitions:

* `HashCalendar.Broker.Rules.apart` — what others may do who keep apart from a component;
* `HashCalendar.Tracked.Lasts` — a receiver that lasts as long as its connection;
* `HashCalendar.Tracked.Untouched` — nothing was ever handed over from a queue.

Main results:

* `HashCalendar.Broker.isFed_iff` — a stream is fed if it is that of the consumer of a queue;
* `HashCalendar.Tracked.Lasts.moves` — **others who keep apart let a receiver last**;
* `HashCalendar.Tracked.Lasts.of_closed` — **a stream that has ended is one of an earlier
  connection**;
* `HashCalendar.Tracked.Untouched.moves` — **what nobody consumes is not handed over**.
-/

import HashCalendar.Proofs.Broker.Linking
import HashCalendar.Proofs.Broker.Settlement

set_option relaxedAutoImplicit false
set_option autoImplicit false

namespace HashCalendar

namespace Broker

/-! ### Calls -/

/-- A call that is not bound to a channel and does not receive: it comes from outside. -/
def Call.IsOutside : Call → Prop
  | .inject _ _ => True
  | .take _ => True
  | .closeNow => True
  | .closeAfterPublishes _ => True
  | .setReachable _ => True
  | .rejectAfter _ => True
  | .acceptAll => True
  | _ => False

/-- A call by which nobody starts to consume, receives, or stops to listen. -/
def Call.IsAside : Call → Prop
  | .consume _ _ => False
  | .receive _ => False
  | .dropStream _ => False
  | _ => True

theorem Call.IsOutside.isAside {c : Call} (h : c.IsOutside) : c.IsAside := by
  cases c with
  | consume ch queue => exact h.elim
  | receive stream => exact h.elim
  | dropStream stream => exact h.elim
  | _ => exact trivial

theorem Call.Prepares.isAside {c : Call} (h : c.Prepares) : c.IsAside := by
  cases c with
  | consume ch queue => exact h.elim
  | receive stream => exact h.elim
  | dropStream stream => exact h.elim
  | _ => exact trivial

/-- What others may do who keep apart from a component: they do not consume its queue, and they let
the stream of its receiver be. -/
def Rules.apart (queue : String) (receiver : Option Receiver) : Rules :=
  { alone queue receiver with vanish := fun _ => True }

/-- Calls aside are made apart from everybody. -/
theorem Call.IsAside.apart {c : Call} (h : c.IsAside) (queue : String)
    (receiver : Option Receiver) (b : Broker) : (Rules.apart queue receiver).Allows b c := by
  cases c with
  | consume ch queue => exact h.elim
  | receive stream => exact h.elim
  | dropStream stream => exact h.elim
  | setReachable reachable => exact Or.inr trivial
  | ack handle => exact fun _ _ => trivial
  | nack handle back => exact fun _ _ => trivial
  | _ => exact trivial

/-! ### Names -/

/-- No two queues have the same name. -/
def NamesDiffer (b : Broker) : Prop := (b.queues.map Prod.fst).Nodup

theorem map_fst_updateQueue (name : String) (change : Queue → Queue)
    (queues : List (String × Queue)) :
    (updateQueue name change queues).map Prod.fst =
      if name ∈ queues.map Prod.fst then queues.map Prod.fst
      else queues.map Prod.fst ++ [name] := by
  induction queues with
  | nil => rfl
  | cons p rest ih =>
      obtain ⟨n, q⟩ := p
      rw [updateQueue]
      by_cases hn : n = name
      · simp [hn]
      · have hn' : name ≠ n := Ne.symm hn
        rw [if_neg hn, List.map_cons, ih]
        by_cases hmem : name ∈ rest.map Prod.fst
        · have hmem' : name ∈ ((n, q) :: rest).map Prod.fst := List.mem_cons_of_mem _ hmem
          rw [if_pos hmem, if_pos hmem']
          rfl
        · have hmem' : name ∉ ((n, q) :: rest).map Prod.fst := by simpa [hn'] using hmem
          rw [if_neg hmem, if_neg hmem']
          rfl

theorem NamesDiffer.modify {b : Broker} (h : b.NamesDiffer) (name : String)
    (change : Queue → Queue) : (b.modify name change).NamesDiffer := by
  rw [NamesDiffer, Broker.modify, map_fst_updateQueue]
  by_cases hmem : name ∈ b.queues.map Prod.fst
  · rwa [if_pos hmem]
  · rw [if_neg hmem]
    exact List.nodup_append.2 ⟨h, List.nodup_singleton _, by
      rintro n hn m hm rfl
      exact hmem (List.mem_singleton.1 hm ▸ hn)⟩

/-- A stream is fed if it is that of the consumer of a queue. -/
theorem isFed_iff {b : Broker} (h : b.NamesDiffer) (stream : Nat) :
    b.isFed stream = true ↔ ∃ name c, b.consumer? name = some c ∧ c.stream = stream := by
  constructor
  · intro hfed
    obtain ⟨⟨name, q⟩, hmem, hq⟩ := List.any_eq_true.1 hfed
    have hlookup : b.queue? name = some q := List.lookup_eq_some_iff.2 <| by
      obtain ⟨before, after, heq⟩ := List.append_of_mem hmem
      refine ⟨before, after, heq, ?_⟩
      intro p hp
      rw [NamesDiffer, heq, List.map_append, List.map_cons] at h
      have hne := (List.nodup_append.1 h).2.2 p.1 (List.mem_map_of_mem hp) name
        List.mem_cons_self
      simpa using Ne.symm hne
    cases hc : q.consumer with
    | none =>
        rw [hc] at hq
        cases hq
    | some c =>
        rw [hc] at hq
        exact ⟨name, c, (consumer?_of_queue? hlookup).trans hc, by simpa using hq⟩
  · rintro ⟨name, c, hc, rfl⟩
    exact isFed_of_consumer? hc

end Broker

namespace Tracked

variable {queue : String} {receiver : Option Receiver} {t t' : Tracked}

/-- No move gives two queues the same name. -/
theorem Move.namesDiffer {r : Broker.Rules} (hm : Move r t t') (h : t.broker.NamesDiffer) :
    t'.broker.NamesDiffer := by
  cases hm with
  | enqueue ha => exact h.modify _ _
  | handOver count hq hc hl => exact h.modify _ _
  | forget hq hc hl => exact h.modify _ _
  | @settle generation tag entry fate he hs =>
      cases fate with
      | acked => exact h
      | discarded => exact h
      | returned => exact Broker.NamesDiffer.modify (b := t.broker.dropUnacked tag) h _ _
  | close =>
      -- Entries are put back into queues that keep their names.
      have hfold : ∀ (entries : List Broker.Unacked) (b : Broker), b.NamesDiffer →
          (entries.foldr (fun entry b => b.requeue entry) b).NamesDiffer := by
        intro entries b hb
        induction entries with
        | nil => exact hb
        | cons entry rest ih => exact ih.modify _ _
      refine hfold _ _ ?_
      rw [Broker.NamesDiffer, List.map_map]
      exact h
  | @take name ht =>
      rw [Tracked.take, Broker.take]
      cases t.broker.queue? name with
      | none => exact h
      | some q => exact h.modify _ _
  | limit budget closeAfter => exact h
  | reach hr => exact h
  | declare name => exact h.modify _ _
  | register hc ho => exact h.modify _ _
  | receive hl =>
      rw [setBroker_broker, Broker.NamesDiffer, Broker.receive_queues]
      exact h
  | dropStream hl => exact h

theorem namesDiffer_performAll {t : Tracked} (h : t.broker.NamesDiffer)
    (calls : List Broker.Call) : (t.performAll calls).broker.NamesDiffer := by
  refine Moves.keep (r := Broker.Policy.any.free) Move.namesDiffer (moves_performAll ?_) h
  exact fun c _ b => Broker.Policy.free_allows (Broker.Policy.any_allows b c)

/-- A move of others who keep apart is one of others who leave a component its queue alone, or it
makes the broker reachable or unreachable. -/
theorem Move.alone_or_reach (hm : Move (.apart queue receiver) t t') :
    Move (.alone queue receiver) t t' ∨
      ∃ reachable, t' = t.setBroker (t.broker.setReachable reachable) := by
  cases hm with
  | enqueue ha => exact Or.inl (.enqueue ha)
  | handOver count hq hc hl => exact Or.inl (.handOver count hq hc hl)
  | forget hq hc hl => exact Or.inl (.forget hq hc hl)
  | settle he hs => exact Or.inl (.settle he hs)
  | close => exact Or.inl .close
  | take ht => exact Or.inl (.take ht)
  | limit budget closeAfter => exact Or.inl (.limit budget closeAfter)
  | reach hr => exact Or.inr ⟨_, rfl⟩
  | declare name => exact Or.inl (.declare name)
  | register hc ho => exact Or.inl (.register hc ho)
  | receive hl => exact Or.inl (.receive hl)
  | dropStream hl => exact Or.inl (.dropStream hl)

/-! ### Receivers that last -/

/-- The connection of a receiver lasts, and the consumer of a queue delivers into its stream. -/
structure Connected (queue : String) (r : Receiver) (t : Tracked) : Prop where
  generation : t.broker.generation = r.generation
  listening : t.broker.isListening r.stream = true
  consumer : ∃ c, t.broker.consumer? queue = some c ∧ c.stream = r.stream

/-- A receiver lasts as long as its connection: it is connected, or its connection is closed. -/
structure Lasts (queue : String) (r : Receiver) (t : Tracked) : Prop where
  known : r.stream < t.broker.streams.length
  place : t.Connected queue r ∨ r.generation < t.broker.generation

variable {r : Receiver}

theorem length_streams_le {rules : Broker.Rules} (hm : Move rules t t') :
    t.broker.streams.length ≤ t'.broker.streams.length := by
  rcases hm.calm_or with ⟨hc, -⟩ | ⟨name, q, c, count, -, -, -, rfl⟩
  · exact hc.streams
  · simp [Tracked.handOver, Broker.pushStream]

/-- Others who keep apart leave a receiver connected or close its connection. -/
theorem Connected.move (hm : Move (.apart queue (some r)) t t') (h : t.Connected queue r) :
    t'.Connected queue r ∨ r.generation < t'.broker.generation := by
  obtain ⟨c, hc, hstream⟩ := h.consumer
  rcases hm.alone_or_reach with hm | ⟨reachable, rfl⟩
  · rcases hm.aloof_or with ha | rfl | ⟨name, q, d, count, hq, hd, hl, rfl⟩
    · refine Or.inl ⟨ha.generation.trans h.generation, ha.listening r rfl h.listening, ?_⟩
      rcases ha.consumer? with hsame | ⟨d, hd, hdeaf⟩
      · exact ⟨c, hsame.trans hc, hstream⟩
      · obtain rfl : c = d := Option.some.inj (hc.symm.trans hd)
        rw [hstream, h.listening] at hdeaf
        cases hdeaf
    · refine Or.inr ?_
      rw [Tracked.close, Broker.close_generation, h.generation]
      exact Nat.lt_succ_self _
    · exact Or.inl ⟨h.generation, (Broker.isListening_handOver ..).trans h.listening,
        c, (Broker.consumer?_handOver ..).trans hc, hstream⟩
  · exact Or.inl ⟨h.generation, h.listening, c, hc, hstream⟩

namespace Lasts

theorem move (hm : Move (.apart queue (some r)) t t') (h : t.Lasts queue r) :
    t'.Lasts queue r where
  known := Nat.lt_of_lt_of_le h.known (length_streams_le hm)
  place := by
    rcases h.place with hconnected | hlt
    · exact hconnected.move hm
    · exact Or.inr (Nat.lt_of_lt_of_le hlt hm.generation_le)

/-- Others who keep apart let a receiver last. -/
theorem moves (hm : Moves (.apart queue (some r)) t t') (h : t.Lasts queue r) :
    t'.Lasts queue r := hm.keep move h

/-- A receiver lasts whatever is received. -/
theorem receive (h : t.Lasts queue r) (stream : Nat) :
    (t.perform (.receive stream)).Lasts queue r := by
  have heq := t.broker.receive_eq stream
  refine ⟨?_, ?_⟩
  · rw [Tracked.perform, setBroker_broker, Broker.length_receive_streams]
    exact h.known
  · rw [Tracked.perform, setBroker_broker]
    rcases h.place with hconnected | hlt
    · obtain ⟨c, hc, hstream⟩ := hconnected.consumer
      refine Or.inl ⟨?_, (Broker.isListening_receive ..).trans hconnected.listening, c,
        (Broker.consumer?_of_queues (Broker.receive_queues _ _) _).trans hc, hstream⟩
      rw [setBroker_broker, heq]
      exact hconnected.generation
    · rw [heq]
      exact Or.inr hlt

/-- A new consumer of the queue is a receiver that lasts. -/
theorem register {ch : Channel} (ho : t.broker.isOpen ch.generation = true) :
    (t.setBroker (t.broker.register ch queue)).Lasts queue
      ⟨ch.generation, t.broker.streams.length⟩ := by
  rw [Broker.isOpen, Bool.and_eq_true, decide_eq_true_eq] at ho
  refine ⟨by simp [Broker.register], Or.inl ⟨ho.2.symm, ?_, ?_⟩⟩
  · exact Broker.isListening_register_self _ _ _
  · exact ⟨_, (Broker.consumer?_register ..).trans (if_pos rfl), rfl⟩

/-- A stream that has ended is one of an earlier connection. -/
theorem of_closed (h : t.Lasts queue r) (hd : (t.broker.receive r.stream).2 = .closed) :
    r.generation < t.broker.generation := by
  rcases h.place with hconnected | hlt
  · obtain ⟨c, hc, hstream⟩ := hconnected.consumer
    exact absurd (hstream ▸ hd) (Broker.receive_ne_closed hc)
  · exact hlt

end Lasts

/-! ### Queues that nobody consumes -/

/-- Nobody consumes a queue, and nothing was ever handed over from it. -/
structure Untouched (queue : String) (t : Tracked) : Prop where
  consumer : t.broker.consumer? queue = none
  handed : ∀ u ∈ t.ledger.handed, u.queue ≠ queue

namespace Untouched

theorem empty (queue : String) : Untouched queue {} where
  consumer := rfl
  handed u hu := by cases hu

theorem move (hm : Move (.apart queue none) t t') (h : t.Untouched queue) :
    t'.Untouched queue := by
  have hconsumer : t'.broker.consumer? queue = none := by
    rcases hm.alone_or_reach with hm | ⟨reachable, rfl⟩
    · rcases hm.aloof_or with ha | rfl | ⟨name, q, c, count, -, -, -, rfl⟩
      · rcases ha.consumer? with hsame | ⟨c, hc, -⟩
        · exact hsame.trans h.consumer
        · rw [h.consumer] at hc
          cases hc
      · exact Broker.consumer?_close _ _
      · exact (Broker.consumer?_handOver ..).trans h.consumer
    · exact h.consumer
  refine ⟨hconsumer, ?_⟩
  rcases hm.calm_or with ⟨-, hsame⟩ | ⟨name, q, c, count, hq, hc, -, rfl⟩
  · rw [hsame]
    exact h.handed
  · intro u hu
    rcases List.mem_append.1 hu with hu | hu
    · exact h.handed u hu
    · rw [(Broker.mem_handed hu).1]
      rintro rfl
      have hnone := h.consumer
      rw [Broker.consumer?_of_queue? hq, hc] at hnone
      cases hnone

/-- What nobody consumes is not handed over. -/
theorem moves (hm : Moves (.apart queue none) t t') (h : t.Untouched queue) :
    t'.Untouched queue := hm.keep move h

end Untouched

end Tracked

end HashCalendar
