/-
**What a receiver is fed with.**

The ready messages of a queue go to the stream of its consumer, and no stream belongs to consumers
of two queues.  So a receiver gets the deliveries of one queue only, all of its own connection, and
it gets them in the order of their tags: whatever waits in its stream was handed over after all that
it has received before.  None of this depends on what others call.

Main definitions:

* `HashCalendar.Broker.consumer?`, `HashCalendar.Broker.waiting` — the consumer of a queue, and what
  waits in a stream;
* `HashCalendar.Tracked.Serves` — a stream serves a receiver;
* `HashCalendar.Tracked.Feeding` — a broker that feeds a component which may have a receiver.

Main results:

* `HashCalendar.Tracked.Feeding.perform` — **no call keeps a broker from feeding a receiver**;
* `HashCalendar.Tracked.Feeding.receive` — what is received was handed over from the queue;
* `HashCalendar.Tracked.Feeding.register` — a new receiver is fed.
-/

import HashCalendar.Broker.Link
import HashCalendar.Proofs.Broker.Conservation

set_option relaxedAutoImplicit false
set_option autoImplicit false

namespace HashCalendar

namespace Broker

/-! ### Consumers -/

/-- The consumer of the queue of a name. -/
def consumer? (b : Broker) (name : String) : Option Consumer := ((b.queue? name).getD {}).consumer

theorem consumer?_of_queue? {b : Broker} {name : String} {q : Queue}
    (h : b.queue? name = some q) : b.consumer? name = q.consumer := by
  rw [consumer?, h]
  rfl

/-- A queue with a consumer is there. -/
theorem queue?_of_consumer? {b : Broker} {name : String} {c : Consumer}
    (h : b.consumer? name = some c) : ∃ q, b.queue? name = some q ∧ q.consumer = some c := by
  rw [consumer?] at h
  cases hq : b.queue? name with
  | none =>
      rw [hq] at h
      cases h
  | some q =>
      rw [hq] at h
      exact ⟨q, rfl, h⟩

theorem consumer?_modify (b : Broker) (name : String) (change : Queue → Queue) (n : String) :
    (b.modify name change).consumer? n =
      if n = name then (change ((b.queue? name).getD {})).consumer else b.consumer? n := by
  rw [consumer?, queue?_modify]
  by_cases h : n = name
  · rw [if_pos h, if_pos h]
    rfl
  · rw [if_neg h, if_neg h, consumer?]

/-- A change that lets the consumer be lets the consumers of all queues be. -/
theorem consumer?_modify_ready (b : Broker) (name : String) (change : Queue → Queue)
    (h : ∀ q, (change q).consumer = q.consumer) (n : String) :
    (b.modify name change).consumer? n = b.consumer? n := by
  rw [consumer?_modify, h]
  by_cases hn : n = name
  · rw [if_pos hn, hn, consumer?]
  · rw [if_neg hn]

@[simp] theorem consumer?_enqueue (b : Broker) (name : String) (content : Content) (n : String) :
    (b.enqueue name content).consumer? n = b.consumer? n :=
  consumer?_modify_ready b name
    (fun q => { q with ready := q.ready ++ [⟨content, false, b.nextSerial⟩] }) (fun _ => rfl) n

@[simp] theorem consumer?_requeue (b : Broker) (entry : Unacked) (n : String) :
    (b.requeue entry).consumer? n = b.consumer? n :=
  consumer?_modify_ready b entry.queue
    (fun q => { q with ready := { entry.message with redelivered := true } :: q.ready })
    (fun _ => rfl) n

@[simp] theorem consumer?_take (b : Broker) (name n : String) :
    (b.take name).1.consumer? n = b.consumer? n := by
  rw [take]
  cases b.queue? name with
  | none => rfl
  | some q =>
      exact consumer?_modify_ready b name (fun q => { q with ready := [] }) (fun _ => rfl) n

@[simp] theorem consumer?_handOver (b : Broker) (name : String) (q : Queue) (c : Consumer)
    (count : Nat) (n : String) : (b.handOver name q c count).consumer? n = b.consumer? n :=
  consumer?_modify_ready b name (fun q => { q with ready := q.ready.drop count }) (fun _ => rfl) n

theorem consumer?_forget (b : Broker) (name n : String) :
    (b.forget name).consumer? n = if n = name then none else b.consumer? n :=
  consumer?_modify b name (fun q => { q with consumer := none }) n

theorem consumer?_register (b : Broker) (ch : Channel) (name n : String) :
    (b.register ch name).consumer? n =
      if n = name then some ⟨ch.generation, ch.prefetch, b.streams.length⟩ else b.consumer? n :=
  consumer?_modify b name
    (fun q => { q with consumer := some ⟨ch.generation, ch.prefetch, b.streams.length⟩ }) n

/-- A closed connection has no consumers. -/
@[simp] theorem consumer?_close (b : Broker) (n : String) : b.close.consumer? n = none := by
  have hfold : ∀ (entries : List Unacked) (b : Broker),
      (entries.foldr (fun entry b => b.requeue entry) b).consumer? n = b.consumer? n := by
    intro entries b
    induction entries with
    | nil => rfl
    | cons entry rest ih => rw [List.foldr_cons, consumer?_requeue, ih]
  rw [close, hfold]
  have h := lookup_map_snd (fun q => { q with consumer := none }) b.queues n
  refine (congrArg (fun q => (Option.getD q {}).consumer) h).trans ?_
  cases b.queues.lookup n with
  | none => rfl
  | some q => rfl

/-- Nothing happens to a queue that nobody consumes. -/
theorem dispatch_of_consumer?_none {b : Broker} {name : String} (h : b.consumer? name = none) :
    b.dispatch name = b := by
  rcases b.dispatch_cases name with hd | ⟨q, c, hq, hc, -⟩ | ⟨q, c, hq, hc, -⟩
  · exact hd
  · rw [consumer?_of_queue? hq, hc] at h
    cases h
  · rw [consumer?_of_queue? hq, hc] at h
    cases h

/-- A consumer that has room and that somebody listens to gets messages. -/
theorem dispatch_of_queue? {b : Broker} {name : String} {q : Queue} {c : Consumer}
    (hq : b.queue? name = some q) (hc : q.consumer = some c) (hroom : b.room name q c ≠ 0)
    (hl : b.isListening c.stream = true) :
    b.dispatch name = b.handOver name q c (b.room name q c) := by
  rw [dispatch, hq]
  dsimp only
  rw [hc]
  dsimp only
  rw [if_neg hroom, if_pos hl]

/-- The stream of a consumer is fed. -/
theorem isFed_of_consumer? {b : Broker} {name : String} {c : Consumer}
    (h : b.consumer? name = some c) : b.isFed c.stream = true := by
  obtain ⟨q, hq, hc⟩ := queue?_of_consumer? h
  have hmem : (name, q) ∈ b.queues := by
    rw [queue?, List.lookup_eq_some_iff] at hq
    obtain ⟨before, after, heq, -⟩ := hq
    rw [heq]
    exact List.mem_append_right _ List.mem_cons_self
  refine List.any_eq_true.2 ⟨_, hmem, ?_⟩
  simp [hc]

/-! ### Streams -/

/-- The deliveries that wait in the stream of a number. -/
def waiting (b : Broker) (stream : Nat) : List Delivery :=
  ((b.streams[stream]?).map Stream.buffer).getD []

theorem waiting_of_streams {b b' : Broker} (h : b'.streams = b.streams) (stream : Nat) :
    b'.waiting stream = b.waiting stream := by
  rw [waiting, waiting, h]

/-- A new stream is empty. -/
theorem waiting_register (b : Broker) (ch : Channel) (name : String) (stream : Nat) :
    (b.register ch name).waiting stream = b.waiting stream := by
  rw [waiting, waiting, register]
  by_cases h : stream < b.streams.length
  · rw [List.getElem?_append_left h]
  · rw [List.getElem?_append_right (Nat.le_of_not_lt h),
      List.getElem?_eq_none (Nat.le_of_not_lt h)]
    cases stream - b.streams.length with
    | zero => rfl
    | succ n => rfl

/-- Deliveries are handed over to the end of a listened-to stream. -/
theorem waiting_handOver {b : Broker} {c : Consumer} (h : b.isListening c.stream = true)
    (name : String) (q : Queue) (count stream : Nat) :
    (b.handOver name q c count).waiting stream =
      if stream = c.stream then b.waiting stream ++ deliveries b.nextTag (q.ready.take count)
      else b.waiting stream := by
  rw [waiting, handOver_streams, pushStream, waiting]
  by_cases hs : stream = c.stream
  · rw [if_pos hs, hs, List.getElem?_modify_eq]
    rw [isListening] at h
    cases hget : b.streams[c.stream]? with
    | none =>
        rw [hget] at h
        cases h
    | some s => rfl
  · rw [if_neg hs, List.getElem?_modify_ne _ _ (Ne.symm hs)]

theorem waiting_dropStream (b : Broker) (stream n : Nat) :
    (b.dropStream stream).waiting n = if n = stream then [] else b.waiting n := by
  rw [waiting, dropStream, waiting]
  by_cases h : n = stream
  · rw [if_pos h, h, List.getElem?_modify_eq]
    cases b.streams[stream]? with
    | none => rfl
    | some s => rfl
  · rw [if_neg h, List.getElem?_modify_ne _ _ (Ne.symm h)]

/-- What is received is the first delivery that waits in the stream; nothing is received if none
waits. -/
theorem receive_waiting (b : Broker) (stream : Nat) :
    (∃ d rest, (b.receive stream).2 = .delivery d ∧ b.waiting stream = d :: rest ∧
        ∀ n, (b.receive stream).1.waiting n = if n = stream then rest else b.waiting n) ∨
      ((b.receive stream).1 = b ∧ b.waiting stream = [] ∧
        (b.receive stream).2 = if b.isFed stream then .empty else .closed) := by
  rw [receive, waiting]
  cases hs : b.streams[stream]? with
  | none => exact Or.inr ⟨rfl, rfl, rfl⟩
  | some s =>
      obtain ⟨buffer, listening⟩ := s
      cases buffer with
      | nil => exact Or.inr ⟨rfl, rfl, rfl⟩
      | cons d rest =>
          refine Or.inl ⟨d, rest, rfl, rfl, ?_⟩
          intro n
          have hlt := (List.getElem?_eq_some_iff.1 hs).1
          rw [waiting, List.getElem?_set]
          by_cases h : n = stream
          · rw [if_pos h, if_pos h.symm, if_pos hlt]
            rfl
          · rw [if_neg h, if_neg (Ne.symm h), waiting]

/-- The stream of a consumer has not ended. -/
theorem receive_ne_closed {b : Broker} {name : String} {c : Consumer}
    (h : b.consumer? name = some c) : (b.receive c.stream).2 ≠ .closed := by
  rcases b.receive_waiting c.stream with ⟨d, rest, hd, -, -⟩ | ⟨-, -, hnone⟩
  · rw [hd]
    exact Received.noConfusion
  · rw [hnone, isFed_of_consumer? h, if_pos rfl]
    exact Received.noConfusion

/-- A delivery that is received is the first that waited. -/
theorem waiting_of_receive {b : Broker} {stream : Nat} {d : Delivery}
    (h : (b.receive stream).2 = .delivery d) :
    ∃ rest, b.waiting stream = d :: rest ∧
      ∀ n, (b.receive stream).1.waiting n = if n = stream then rest else b.waiting n := by
  rcases b.receive_waiting stream with ⟨e, rest, he, hw, hrest⟩ | ⟨-, -, hnone⟩
  · cases h.symm.trans he
    exact ⟨rest, hw, hrest⟩
  · rw [hnone] at h
    cases hfed : b.isFed stream with
    | true =>
        rw [hfed] at h
        cases h
    | false =>
        rw [hfed] at h
        cases h

@[simp] theorem receive_queues (b : Broker) (stream : Nat) :
    (b.receive stream).1.queues = b.queues := by
  rw [receive]
  split
  · rfl
  · rfl

@[simp] theorem length_receive_streams (b : Broker) (stream : Nat) :
    (b.receive stream).1.streams.length = b.streams.length := by
  rw [receive]
  split
  · exact List.length_set
  · rfl

theorem consumer?_of_queues {b b' : Broker} (h : b'.queues = b.queues) (name : String) :
    b'.consumer? name = b.consumer? name := by
  rw [consumer?, consumer?, queue?, queue?, h]

/-- A change of the broker by which nobody is fed; consumers may go, and a new one has a new
stream. -/
structure Calm (b b' : Broker) : Prop where
  consumer? : ∀ name c, b'.consumer? name = some c →
    b.consumer? name = some c ∨ (b.streams.length ≤ c.stream ∧ c.stream < b'.streams.length)
  waiting : ∀ stream, (b'.waiting stream).Sublist (b.waiting stream)
  streams : b.streams.length ≤ b'.streams.length
  nextTag : b.nextTag ≤ b'.nextTag

/-- What changes neither consumers nor streams is calm. -/
theorem Calm.of_eq {b b' : Broker} (hc : ∀ name, b'.consumer? name = b.consumer? name)
    (hs : b'.streams = b.streams) (ht : b'.nextTag = b.nextTag) : Calm b b' where
  consumer? name c h := Or.inl (hc name ▸ h)
  waiting stream := by rw [waiting_of_streams hs]
  streams := Nat.le_of_eq (congrArg List.length hs.symm)
  nextTag := Nat.le_of_eq ht.symm

end Broker

namespace Tracked

@[simp] theorem consumer?_settle (t : Tracked) (tag : Nat) (entry : Broker.Unacked) (fate : Fate)
    (name : String) :
    (t.settle tag entry fate).broker.consumer? name = t.broker.consumer? name := by
  cases fate with
  | acked => rfl
  | discarded => rfl
  | returned => exact Broker.consumer?_requeue _ _ _

/-- A move feeds nobody, or it hands messages over. -/
theorem Move.calm_or {r : Broker.Rules} {t t' : Tracked} (h : Move r t t') :
    (Broker.Calm t.broker t'.broker ∧ t'.ledger.handed = t.ledger.handed) ∨
      ∃ name q c count, t.broker.queue? name = some q ∧ q.consumer = some c ∧
        t.broker.isListening c.stream = true ∧ t' = t.handOver name q c count := by
  cases h with
  | enqueue ha => exact Or.inl ⟨.of_eq (Broker.consumer?_enqueue _ _ _) rfl rfl, rfl⟩
  | handOver count hq hc hl => exact Or.inr ⟨_, _, _, count, hq, hc, hl, rfl⟩
  | @forget name q c hq hc hl =>
      refine Or.inl ⟨⟨?_, fun _ => List.Sublist.refl _, Nat.le_refl _, Nat.le_succ _⟩, rfl⟩
      intro n c hn
      rw [setBroker_broker, Broker.consumer?_forget] at hn
      by_cases h : n = name
      · rw [if_pos h] at hn
        cases hn
      · rw [if_neg h] at hn
        exact Or.inl hn
  | settle he hs =>
      exact Or.inl ⟨.of_eq (consumer?_settle _ _ _ _) (settle_streams ..) (settle_nextTag ..),
        settle_handed ..⟩
  | close =>
      refine Or.inl ⟨⟨?_, ?_, ?_, ?_⟩, rfl⟩
      · intro name c hc
        rw [Tracked.close, Broker.consumer?_close] at hc
        cases hc
      · intro stream
        rw [Tracked.close, Broker.waiting_of_streams (Broker.close_streams _)]
      · exact Nat.le_of_eq (congrArg List.length (Broker.close_streams _).symm)
      · exact Nat.le_of_eq (Broker.close_nextTag _).symm
  | take ht =>
      exact Or.inl ⟨.of_eq (Broker.consumer?_take _ _) (Broker.take_streams ..)
        (Broker.take_nextTag ..), rfl⟩
  | limit budget closeAfter => exact Or.inl ⟨.of_eq (fun _ => rfl) rfl rfl, rfl⟩
  | reach hr => exact Or.inl ⟨.of_eq (fun _ => rfl) rfl rfl, rfl⟩
  | declare name =>
      exact Or.inl ⟨.of_eq (Broker.consumer?_modify_ready _ name id fun _ => rfl) rfl rfl, rfl⟩
  | @register ch name hc ho =>
      refine Or.inl ⟨⟨?_, ?_, ?_, Nat.le_refl _⟩, rfl⟩
      · intro n c hn
        rw [setBroker_broker, Broker.consumer?_register] at hn
        by_cases h : n = name
        · rw [if_pos h] at hn
          cases hn
          exact Or.inr ⟨Nat.le_refl _, by simp [Broker.register]⟩
        · rw [if_neg h] at hn
          exact Or.inl hn
      · intro stream
        rw [setBroker_broker, Broker.waiting_register]
      · simp [Broker.register]
  | @receive stream hl =>
      refine Or.inl ⟨⟨?_, ?_, ?_, ?_⟩, rfl⟩
      · intro name c hc
        exact Or.inl ((Broker.consumer?_of_queues (Broker.receive_queues _ _) name) ▸ hc)
      · intro n
        rcases t.broker.receive_waiting stream with ⟨d, rest, -, hw, hn⟩ | ⟨heq, -, -⟩
        · rw [setBroker_broker, hn]
          by_cases h : n = stream
          · rw [if_pos h, h, hw]
            exact List.sublist_cons_self d rest
          · rw [if_neg h]
        · rw [setBroker_broker, heq]
      · exact Nat.le_of_eq (Broker.length_receive_streams _ _).symm
      · exact (Broker.quiet_receive t.broker stream).nextTag
  | @dropStream stream hl =>
      refine Or.inl ⟨⟨fun _ _ hc => Or.inl hc, ?_, ?_, Nat.le_refl _⟩, rfl⟩
      · intro n
        rw [setBroker_broker, Broker.waiting_dropStream]
        by_cases h : n = stream
        · rw [if_pos h]
          exact List.nil_sublist _
        · rw [if_neg h]
      · simp [Broker.dropStream]

/-! ### Receivers -/

/-- A stream serves a receiver: it is fed from one queue and under one connection, and what waits in
it was handed over after all that has come out of it.  The tags of what has come out are given. -/
structure Serves (queue : String) (r : Receiver) (own : List Nat) (t : Tracked) : Prop where
  known : r.stream < t.broker.streams.length
  fed : ∀ name c, t.broker.consumer? name = some c → c.stream = r.stream →
    name = queue ∧ c.generation = r.generation
  handed : ∀ d ∈ t.broker.waiting r.stream, ∃ u ∈ t.ledger.handed, u.tag = d.tag ∧
    u.message = d.message ∧ u.queue = queue ∧ u.generation = r.generation
  sorted : (t.broker.waiting r.stream).Pairwise fun d e => d.tag < e.tag
  after : ∀ tag ∈ own, ∀ d ∈ t.broker.waiting r.stream, tag < d.tag

/-- A broker that feeds a component which may have a receiver.  The tags of what the component has
received are given. -/
structure Feeding (queue : String) (receiver : Option Receiver) (own : List Nat) (t : Tracked) :
    Prop where
  sound : t.Sound
  wired : ∀ name c, t.broker.consumer? name = some c → c.stream < t.broker.streams.length
  below : ∀ tag ∈ own, tag < t.broker.nextTag
  serves : ∀ r, receiver = some r → t.Serves queue r own

namespace Feeding

variable {queue : String} {receiver : Option Receiver} {own own' : List Nat} {t t' : Tracked}

theorem empty (queue : String) : Feeding queue none [] {} where
  sound := sound_empty
  wired name c h := by cases h
  below := by simp
  serves r h := by cases h

theorem subset (h : t.Feeding queue receiver own) (hs : own' ⊆ own) :
    t.Feeding queue receiver own' where
  sound := h.sound
  wired := h.wired
  below tag htag := h.below tag (hs htag)
  serves r hr :=
    { h.serves r hr with after := fun tag htag => (h.serves r hr).after tag (hs htag) }

/-- A component may give its receiver up. -/
theorem forget (h : t.Feeding queue receiver own) : t.Feeding queue none own :=
  { h with serves := fun _ hr => nomatch hr }

/-- A tag that waits in the stream of the receiver was used before. -/
theorem waiting_below (h : t.Feeding queue receiver own) {r : Receiver} (hr : receiver = some r)
    {d : Delivery} (hd : d ∈ t.broker.waiting r.stream) : d.tag < t.broker.nextTag := by
  obtain ⟨u, hu, htag, -⟩ := (h.serves r hr).handed d hd
  exact htag ▸ h.sound.tags_below u hu

/-- A move by which nobody is fed. -/
theorem calm (h : t.Feeding queue receiver own) (hsound : t'.Sound)
    (hc : Broker.Calm t.broker t'.broker) (hh : t'.ledger.handed = t.ledger.handed) :
    t'.Feeding queue receiver own where
  sound := hsound
  wired name c hn := by
    rcases hc.consumer? name c hn with hold | ⟨-, hnew⟩
    · exact Nat.lt_of_lt_of_le (h.wired name c hold) hc.streams
    · exact hnew
  below tag htag := Nat.lt_of_lt_of_le (h.below tag htag) hc.nextTag
  serves r hr := by
    have hserves := h.serves r hr
    refine ⟨Nat.lt_of_lt_of_le hserves.known hc.streams, ?_, ?_, ?_, ?_⟩
    · intro name c hn hstream
      rcases hc.consumer? name c hn with hold | ⟨hnew, -⟩
      · exact hserves.fed name c hold hstream
      · -- The stream of a new consumer is not that of the receiver.
        have := hserves.known
        omega
    · intro d hd
      rw [hh]
      exact hserves.handed d ((hc.waiting r.stream).subset hd)
    · exact hserves.sorted.sublist (hc.waiting r.stream)
    · intro tag htag d hd
      exact hserves.after tag htag d ((hc.waiting r.stream).subset hd)

/-- Messages that are handed over to the receiver are of its queue, and have new tags. -/
theorem handOver (h : t.Feeding queue receiver own) {name : String} {q : Broker.Queue}
    {c : Broker.Consumer} {count : Nat} (hq : t.broker.queue? name = some q)
    (hc : q.consumer = some c) (hl : t.broker.isListening c.stream = true) :
    (t.handOver name q c count).Feeding queue receiver own where
  sound := h.sound.handOver hq hl
  wired n c' hn := by
    simp only [Tracked.handOver, Broker.consumer?_handOver] at hn
    simpa [Tracked.handOver, Broker.pushStream] using h.wired n c' hn
  below tag htag := Nat.lt_of_lt_of_le (h.below tag htag) (Nat.le_add_right _ _)
  serves r hr := by
    have hserves := h.serves r hr
    have hwaiting := Broker.waiting_handOver hl name q count r.stream
    have hnew : ∀ d ∈ Broker.deliveries t.broker.nextTag (q.ready.take count),
        t.broker.nextTag ≤ d.tag := fun d hd => (Broker.tag_mem_deliveries hd).1
    constructor
    case known => simpa [Tracked.handOver, Broker.pushStream] using hserves.known
    case fed =>
      intro n c' hn hstream
      simp only [Tracked.handOver, Broker.consumer?_handOver] at hn
      exact hserves.fed n c' hn hstream
    case handed =>
      intro d hd
      simp only [Tracked.handOver, hwaiting] at hd
      by_cases hstream : r.stream = c.stream
      · rw [if_pos hstream] at hd
        rcases List.mem_append.1 hd with hd | hd
        · obtain ⟨u, hu, hprops⟩ := hserves.handed d hd
          exact ⟨u, List.mem_append_left _ hu, hprops⟩
        · obtain ⟨rfl, hgeneration⟩ :=
            hserves.fed name c ((Broker.consumer?_of_queue? hq).trans hc) hstream.symm
          exact ⟨_, List.mem_append_right _ (List.mem_map_of_mem hd), rfl, rfl, rfl, hgeneration⟩
      · rw [if_neg hstream] at hd
        obtain ⟨u, hu, hprops⟩ := hserves.handed d hd
        exact ⟨u, List.mem_append_left _ hu, hprops⟩
    case sorted =>
      simp only [Tracked.handOver, hwaiting]
      by_cases hstream : r.stream = c.stream
      · rw [if_pos hstream]
        refine List.pairwise_append.2 ⟨hserves.sorted, Broker.pairwise_tag_deliveries _ _, ?_⟩
        intro d hd e he
        exact Nat.lt_of_lt_of_le (h.waiting_below hr hd) (hnew e he)
      · rw [if_neg hstream]
        exact hserves.sorted
    case after =>
      intro tag htag d hd
      simp only [Tracked.handOver, hwaiting] at hd
      by_cases hstream : r.stream = c.stream
      · rw [if_pos hstream] at hd
        rcases List.mem_append.1 hd with hd | hd
        · exact hserves.after tag htag d hd
        · exact Nat.lt_of_lt_of_le (h.below tag htag) (hnew d hd)
      · rw [if_neg hstream] at hd
        exact hserves.after tag htag d hd

/-- No move keeps a broker from feeding a receiver. -/
theorem move {r : Broker.Rules} (hm : Move r t t') (h : t.Feeding queue receiver own) :
    t'.Feeding queue receiver own := by
  rcases hm.calm_or with ⟨hc, hh⟩ | ⟨name, q, c, count, hq, hc, hl, rfl⟩
  · exact h.calm ((keeps_sound _).move hm.free h.sound) hc hh
  · exact h.handOver hq hc hl

theorem dispatch (h : t.Feeding queue receiver own) (name : String) :
    (t.dispatch name).Feeding queue receiver own :=
  (moves_dispatch (r := Broker.Policy.any.free) t name).keep move h

/-- No call keeps a broker from feeding a receiver. -/
theorem perform (h : t.Feeding queue receiver own) (c : Broker.Call) :
    (t.perform c).Feeding queue receiver own :=
  (moves_perform (Broker.Policy.free_allows (Broker.Policy.any_allows t.broker c))).keep move h

theorem performAll (h : t.Feeding queue receiver own) (calls : List Broker.Call) :
    (t.performAll calls).Feeding queue receiver own := by
  induction calls generalizing t with
  | nil => exact h
  | cons c cs ih => exact ih (h.perform c)

/-- What is received was handed over from the queue, and after all that was received before. -/
theorem receive {r : Receiver} (h : t.Feeding queue (some r) own) {d : Delivery}
    (hd : (t.broker.receive r.stream).2 = .delivery d) :
    (t.perform (.receive r.stream)).Feeding queue (some r) (d.tag :: own) ∧
      ∃ u ∈ t.ledger.handed, u.tag = d.tag ∧ u.message = d.message ∧ u.queue = queue ∧
        u.generation = r.generation := by
  have hserves := h.serves r rfl
  have hperformed := h.perform (.receive r.stream)
  obtain ⟨rest, hw, hrest⟩ := Broker.waiting_of_receive hd
  have hmem : d ∈ t.broker.waiting r.stream := by
    rw [hw]
    exact List.mem_cons_self
  have hsorted := hserves.sorted
  rw [hw] at hsorted
  have hrest' : (t.perform (.receive r.stream)).broker.waiting r.stream = rest := by
    rw [Tracked.perform, setBroker_broker, hrest, if_pos rfl]
  refine ⟨{ hperformed with below := ?_, serves := ?_ }, hserves.handed d hmem⟩
  · intro tag htag
    rcases List.mem_cons.1 htag with rfl | htag
    · exact Nat.lt_of_lt_of_le (h.waiting_below rfl hmem)
        (Broker.quiet_receive t.broker r.stream).nextTag
    · exact hperformed.below tag htag
  · rintro r' hr'
    cases hr'
    refine { hperformed.serves r rfl with after := ?_ }
    intro tag htag e he
    rcases List.mem_cons.1 htag with rfl | htag
    · rw [hrest'] at he
      exact List.rel_of_pairwise_cons hsorted he
    · exact (hperformed.serves r rfl).after tag htag e he

/-- A new consumer has a stream of its own, in which nothing waits yet. -/
theorem register (h : t.Feeding queue receiver own) (ch : Channel) :
    (t.setBroker (t.broker.register ch queue)).Feeding queue
      (some ⟨ch.generation, t.broker.streams.length⟩) own := by
  have hempty : (t.broker.register ch queue).waiting t.broker.streams.length = [] := by
    rw [Broker.waiting_register, Broker.waiting, List.getElem?_eq_none (Nat.le_refl _)]
    rfl
  constructor
  case sound => exact h.sound.quiet (Broker.quiet_register _ _ _)
  case wired =>
    intro n c hn
    rw [setBroker_broker, Broker.consumer?_register] at hn
    rw [setBroker_broker, Broker.register, List.length_append, List.length_singleton]
    by_cases hname : n = queue
    · rw [if_pos hname] at hn
      cases hn
      exact Nat.lt_succ_self _
    · rw [if_neg hname] at hn
      exact Nat.lt_succ_of_lt (h.wired n c hn)
  case below => exact h.below
  case serves =>
    intro r hr
    cases hr
    constructor
    case known => simp [Broker.register]
    case fed =>
      intro n c hn hstream
      rw [setBroker_broker, Broker.consumer?_register] at hn
      by_cases hname : n = queue
      · rw [if_pos hname] at hn
        cases hn
        exact ⟨hname, rfl⟩
      · -- The other consumers have the streams that were there before.
        rw [if_neg hname] at hn
        exact absurd hstream (Nat.ne_of_lt (h.wired n c hn))
    case handed => simp [hempty]
    case sorted => simp [hempty]
    case after => simp [hempty]

end Feeding

end Tracked

end HashCalendar
