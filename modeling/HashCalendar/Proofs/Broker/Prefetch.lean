/-
**What a consumer has to do at a time.**

A consumer has a prefetch: that many messages of its queue may be unacknowledged at a time.  Every
call that may bring a message to the head of a queue, or make room for one, dispatches the queue
afterwards.  So a consumer never gets more than it has room for, and no message that it has room
for is left waiting.

Main definitions:

* `HashCalendar.Broker.outstanding` — the number of unacknowledged messages of a queue;
* `HashCalendar.Broker.IsServed` — no message that the consumer of a queue has room for waits;
* `HashCalendar.Broker.Effect` — what a call does to the queues;
* `HashCalendar.Broker.consumed` — when a queue was consumed.

Main results:

* `HashCalendar.Broker.isServed_dispatch` — dispatching a queue serves it;
* `HashCalendar.Broker.effect_perform` — **all that a call can do to the queues**;
* `HashCalendar.Broker.isServed_performAll` — all queues are served after every call;
* `HashCalendar.prefetch_is_kept_and_used` — **both directions of the bound**.
-/

import HashCalendar.Proofs.Broker.Settlement
import Mathlib.Data.List.Induction

set_option relaxedAutoImplicit false
set_option autoImplicit false

namespace HashCalendar

namespace Broker

/-! ### Counting what is unacknowledged -/

/-- The number of unacknowledged messages of a queue. -/
def outstanding (b : Broker) (name : String) : Nat := b.unacked.countP fun u => u.queue = name

theorem inFlight_le_outstanding (b : Broker) (name : String) (generation : Nat) :
    b.inFlight name generation ≤ b.outstanding name := by
  refine List.countP_mono_left ?_
  intro u _ h
  rw [Bool.and_eq_true] at h
  exact h.1

/-- On one connection all unacknowledged messages of a queue are in flight. -/
theorem outstanding_eq_inFlight {b : Broker} {generation : Nat}
    (h : ∀ u ∈ b.unacked, u.generation = generation) (name : String) :
    b.outstanding name = b.inFlight name generation := by
  refine List.countP_congr ?_
  intro u hu
  simp [h u hu]

theorem length_handed (b : Broker) (name : String) (q : Queue) (c : Consumer) (count : Nat) :
    (b.handed name q c count).length = min count q.ready.length := by
  rw [← List.length_map (f := Unacked.message), map_message_handed, List.length_take]

/-- What is handed over is in flight. -/
theorem inFlight_handOver (b : Broker) (name : String) (q : Queue) (c : Consumer) (count : Nat) :
    (b.handOver name q c count).inFlight name c.generation =
      b.inFlight name c.generation + min count q.ready.length := by
  rw [inFlight, handOver_unacked, List.countP_append, inFlight, ← length_handed b name q c count]
  congr 1
  refine List.countP_eq_length.2 ?_
  intro u hu
  obtain ⟨d, -, rfl⟩ := List.mem_map.1 hu
  simp

/-! ### Queues that look the same -/

/-- A queue looks the same in two brokers. -/
structure SameQueue (b b' : Broker) (name : String) : Prop where
  consumer? : b'.consumer? name = b.consumer? name
  ready : b'.ready name = b.ready name
  inFlight : ∀ generation, b'.inFlight name generation = b.inFlight name generation

/-- No queue notices what happens to the rest of the broker. -/
theorem SameQueue.of_eq {b b' : Broker} (hq : b'.queues = b.queues) (hu : b'.unacked = b.unacked)
    (name : String) : SameQueue b b' name where
  consumer? := consumer?_of_queues hq name
  ready := by rw [ready_eq, ready_eq, queue?, queue?, hq]
  inFlight generation := by rw [Broker.inFlight, Broker.inFlight, hu]

/-- A queue without a message that its consumer has room for. -/
def IsServed (b : Broker) (name : String) : Prop :=
  ∀ c, b.consumer? name = some c → b.ready name ≠ [] →
    0 < c.prefetch ∧ c.prefetch ≤ b.inFlight name c.generation

theorem SameQueue.isServed {b b' : Broker} {name : String} (h : SameQueue b b' name)
    (hs : b.IsServed name) : b'.IsServed name := by
  intro c hc hready
  rw [h.consumer?] at hc
  rw [h.ready] at hready
  rw [h.inFlight]
  exact hs c hc hready

/-! ### Dispatching -/

section Dispatching

variable (b : Broker) (name : String)

/-- Dispatching a queue leaves the other queues as they are. -/
theorem sameQueue_dispatch {n : String} (h : n ≠ name) : SameQueue b (b.dispatch name) n := by
  rcases b.dispatch_cases name with hd | ⟨q, c, hq, -, -, -, hd⟩ | ⟨q, c, -, -, -, hd⟩
  · rw [hd]
    exact .of_eq rfl rfl n
  · rw [hd]
    refine ⟨consumer?_handOver b name q c _ n, ?_, ?_⟩
    · rw [ready_handOver hq, if_neg h]
    · intro generation
      rw [inFlight, handOver_unacked, List.countP_append, inFlight, Nat.add_eq_left,
        List.countP_eq_zero]
      intro u hu
      simp [(mem_handed hu).1, Ne.symm h]
  · rw [hd]
    refine ⟨?_, ready_forget b name n, fun _ => rfl⟩
    rw [consumer?_forget, if_neg h]

/-- Dispatching registers no consumer. -/
theorem consumer?_of_dispatch {n : String} {c : Consumer}
    (h : (b.dispatch name).consumer? n = some c) : b.consumer? n = some c := by
  by_cases hn : n = name
  · subst hn
    rcases b.dispatch_cases n with hd | ⟨q, d, -, -, -, -, hd⟩ | ⟨q, d, -, -, -, hd⟩
    · rwa [hd] at h
    · rwa [hd, consumer?_handOver] at h
    · rw [hd, consumer?_forget, if_pos rfl] at h
      cases h
  · rwa [(b.sameQueue_dispatch name hn).consumer?] at h

/-- The room of a consumer that messages wait for is used up by handing over what there is room
for. -/
theorem room_used_up {b : Broker} {name : String} {q : Queue} {c : Consumer}
    (h : b.room name q c < q.ready.length) :
    0 < c.prefetch ∧ c.prefetch ≤ b.inFlight name c.generation + b.room name q c := by
  rw [room] at h ⊢
  by_cases h0 : c.prefetch = 0
  · rw [if_pos h0] at h
    omega
  · rw [if_neg h0] at h ⊢
    omega

/-- Dispatching a queue serves it. -/
theorem isServed_dispatch : (b.dispatch name).IsServed name := by
  intro c hc hready
  have hbefore := b.consumer?_of_dispatch name hc
  cases hq : b.queue? name with
  | none =>
      rw [consumer?, hq] at hbefore
      cases hbefore
  | some q =>
      have hqc : q.consumer = some c := (consumer?_of_queue? hq).symm.trans hbefore
      by_cases h0 : b.room name q c = 0
      · -- Nothing is handed over, since there was no room to begin with.
        have hsame : b.dispatch name = b := by simp [dispatch, hq, hqc, h0]
        rw [hsame] at hready ⊢
        rw [ready_of_queue? hq] at hready
        have hwaits : b.room name q c < q.ready.length := by
          rw [h0]
          exact List.length_pos_iff.2 hready
        have hroom := room_used_up hwaits
        omega
      · by_cases hl : b.isListening c.stream = true
        · have hd : b.dispatch name = b.handOver name q c (b.room name q c) := by
            simp [dispatch, hq, hqc, h0, hl]
          rw [hd, ready_handOver hq, if_pos rfl, ne_eq, List.drop_eq_nil_iff, Nat.not_le] at hready
          rw [hd, inFlight_handOver]
          have hroom := room_used_up hready
          omega
        · have hd : b.dispatch name = b.forget name := by
            simp [dispatch, hq, hqc, h0, hl, forget]
          rw [hd, consumer?_forget, if_pos rfl] at hc
          cases hc

/-- Dispatching brings no more messages of a queue in flight than its consumer may have. -/
theorem inFlight_dispatch_le {n : String} {c : Consumer}
    (hc : (b.dispatch name).consumer? n = some c) (hp : 0 < c.prefetch) :
    (b.dispatch name).inFlight n c.generation ≤ max c.prefetch (b.inFlight n c.generation) := by
  by_cases hn : n = name
  · subst hn
    have hbefore := b.consumer?_of_dispatch n hc
    rcases b.dispatch_cases n with hd | ⟨q, d, hq, hqd, -, -, hd⟩ | ⟨q, d, -, -, -, hd⟩
    · rw [hd]
      exact Nat.le_max_right _ _
    · rw [consumer?_of_queue? hq, hqd] at hbefore
      cases hbefore
      rw [hd, inFlight_handOver, room, if_neg (Nat.ne_of_gt hp)]
      omega
    · rw [hd]
      exact Nat.le_max_right _ _
  · rw [(b.sameQueue_dispatch name hn).inFlight]
    exact Nat.le_max_right _ _

end Dispatching

/-! ### The effect of a call -/

/-- Whether a call consumes a queue. -/
def consumes (b : Broker) (name : String) : Call → Bool
  | .consume ch queue => queue = name && (b.consume ch queue).2.isOk
  | _ => false

/-- What a call does to the queues. -/
inductive Effect (b : Broker) (call : Call) (b' : Broker) : Prop where
  /-- At most, ready messages are taken out. -/
  | quiet (consumer? : ∀ n, b'.consumer? n = b.consumer? n)
      (ready : ∀ n, b'.ready n = b.ready n ∨ b'.ready n = []) (unacked : b'.unacked = b.unacked)
      (generation : b'.generation = b.generation)
  /-- The connection closes. -/
  | closed (consumer? : ∀ n, b'.consumer? n = none) (unacked : b'.unacked = [])
  /-- A queue is prepared, by which nothing comes in flight, and it is dispatched. -/
  | dispatched (name : String) (prepared : Broker)
      (others : ∀ n, n ≠ name → SameQueue b prepared n)
      (inFlight : ∀ generation, prepared.inFlight name generation ≤ b.inFlight name generation)
      (consumer? : prepared.consumer? name = b.consumer? name ∨ b.consumes name call = true)
      (result : ∀ n, SameQueue (prepared.dispatch name) b' n)
      (generation : b'.generation = b.generation)

theorem dispatch_generation (b : Broker) (name : String) :
    (b.dispatch name).generation = b.generation := by
  rcases b.dispatch_cases name with h | ⟨q, c, -, -, -, -, h⟩ | ⟨q, c, -, -, -, h⟩
  · rw [h]
  · rw [h]
    rfl
  · rw [h]
    rfl

section Effects

variable (b : Broker)

/-- A change that no queue notices. -/
theorem Effect.of_eq {b b' : Broker} {call : Call} (hq : b'.queues = b.queues)
    (hu : b'.unacked = b.unacked) (hg : b'.generation = b.generation) : Effect b call b' :=
  .quiet (consumer?_of_queues hq) (fun n => Or.inl (SameQueue.of_eq hq hu n).ready) hu hg

theorem effect_close (d : Broker) (call : Call) : Effect b call d.close :=
  .closed (consumer?_close d) (close_unacked d)

/-- A new message is put at the end of its queue. -/
theorem sameQueue_enqueue (name : String) (content : Content) {n : String} (h : n ≠ name) :
    SameQueue b (b.enqueue name content) n where
  consumer? := consumer?_enqueue b name content n
  ready := by rw [ready_enqueue, if_neg h]
  inFlight _ := rfl

theorem effect_inject (name : String) (content : Content) :
    Effect b (.inject name content) (b.inject name content) :=
  .dispatched name (b.enqueue name content) (fun _ => b.sameQueue_enqueue name content)
    (fun _ => Nat.le_refl _) (Or.inl (consumer?_enqueue b name content name))
    (SameQueue.of_eq rfl rfl) (dispatch_generation _ _)

theorem effect_take (name : String) : Effect b (.take name) (b.take name).1 := by
  refine .quiet (consumer?_take b name) ?_ (take_unacked b name) (by rw [take_eq])
  intro n
  rw [ready_take]
  by_cases h : n = name
  · exact Or.inr (if_pos h)
  · exact Or.inl (if_neg h)

theorem effect_closeAfterPublishes (count : Nat) :
    Effect b (.closeAfterPublishes count) (b.closeAfterPublishes count) := by
  rw [closeAfterPublishes]
  by_cases h : count = 0
  · rw [if_pos h]
    exact b.effect_close b _
  · rw [if_neg h]
    exact .of_eq rfl rfl rfl

theorem effect_declareQueue (ch : Channel) (name : String) :
    Effect b (.declareQueue ch name) (b.declareQueue ch name).1 := by
  rw [declareQueue]
  by_cases ho : b.isOpen ch.generation = true
  · rw [if_pos ho]
    exact .quiet (consumer?_modify_ready b name id fun _ => rfl)
      (fun n => Or.inl (ready_modify_consumer b name id (fun _ => rfl) n)) rfl rfl
  · rw [if_neg ho]
    exact .of_eq rfl rfl rfl

theorem effect_consume (ch : Channel) (name : String) :
    Effect b (.consume ch name) (b.consume ch name).1 := by
  by_cases ho : b.isOpen ch.generation = true
  · cases hq : b.queue? name with
    | none =>
        rw [consume, if_pos ho, hq]
        exact .of_eq rfl rfl rfl
    | some q =>
        have hconsumes : b.consumes name (.consume ch name) = true := by
          simp [consumes, consume, ho, hq, Except.isOk, Except.toBool]
        rw [consume, if_pos ho, hq]
        refine .dispatched name (b.register ch name) ?_ (fun _ => Nat.le_refl _)
          (Or.inr hconsumes) (SameQueue.of_eq rfl rfl) (dispatch_generation _ _)
        intro n hn
        refine ⟨?_, (quiet_register b ch name).ready n, fun _ => rfl⟩
        rw [consumer?_register, if_neg hn]
  · rw [consume, if_neg ho]
    exact .of_eq rfl rfl rfl

theorem effect_publish (ch : Channel) (m : Outbound) :
    Effect b (.publish ch m) (b.publish ch m).1 := by
  rcases b.publish_cases ch m with ⟨e, budget, h⟩ | h
  · rw [h]
    exact .of_eq rfl rfl rfl
  · rw [h]
    dsimp only
    rcases countDown_cases ((({ b with budget := b.budget.map (· - 1) } : Broker).enqueue m.queue
      m.content).dispatch m.queue) with ⟨closeAfter, hd⟩ | ⟨closeAfter, hd⟩
    · rw [hd]
      exact b.effect_close _ _
    · rw [hd]
      refine .dispatched m.queue (({ b with budget := b.budget.map (· - 1) } : Broker).enqueue
        m.queue m.content) ?_ (fun _ => Nat.le_refl _) (Or.inl (consumer?_enqueue _ _ _ _))
        (SameQueue.of_eq rfl rfl) (dispatch_generation _ _)
      intro n hn
      have h := sameQueue_enqueue { b with budget := b.budget.map (· - 1) } m.queue m.content hn
      exact ⟨h.consumer?, h.ready, h.inFlight⟩

section Distinct

variable {b} (distinct : b.unacked.Pairwise fun u v => u.tag < v.tag)

include distinct

/-- Dropping a tag frees the place of one message, in its own queue. -/
theorem inFlight_dropUnacked {generation tag : Nat} {entry : Unacked}
    (h : b.unacked? generation tag = some entry) (name : String) (g : Nat) :
    b.inFlight name g =
      (b.dropUnacked tag).inFlight name g +
        if entry.queue = name ∧ entry.generation = g then 1 else 0 := by
  rw [inFlight, (perm_dropUnacked h distinct).countP_eq, List.countP_cons]
  simp [inFlight]

theorem effect_settle {call : Call} {h : Handle} {entry : Unacked}
    (hc : b.claimed? h = some entry) (back : Bool) :
    Effect b call ((if back then (b.dropUnacked h.tag).requeue entry
      else b.dropUnacked h.tag).dispatch entry.queue) := by
  have hdrop := inFlight_dropUnacked distinct (unacked?_of_claimed? hc)
  have hflight : ∀ name g, (if back then (b.dropUnacked h.tag).requeue entry
      else b.dropUnacked h.tag).inFlight name g = (b.dropUnacked h.tag).inFlight name g := by
    intro name g
    cases back with
    | false => rfl
    | true => rfl
  have hconsumer : ∀ name, (if back then (b.dropUnacked h.tag).requeue entry
      else b.dropUnacked h.tag).consumer? name = b.consumer? name := by
    intro name
    cases back with
    | false => rfl
    | true => exact consumer?_requeue _ _ _
  refine .dispatched entry.queue _ ?_ ?_ (Or.inl (hconsumer _)) (SameQueue.of_eq rfl rfl) ?_
  · intro n hn
    refine ⟨hconsumer n, ?_, ?_⟩
    · cases back with
      | false => rfl
      | true =>
          rw [if_pos rfl, ready_requeue, if_neg hn]
          rfl
    · intro g
      have hother : ¬ (entry.queue = n ∧ entry.generation = g) := fun e => hn e.1.symm
      rw [hflight, hdrop n g, if_neg hother]
      rfl
  · intro g
    rw [hflight, hdrop]
    exact Nat.le_add_right _ _
  · rw [dispatch_generation]
    cases back with
    | false => rfl
    | true => rfl

theorem effect_ack (h : Handle) : Effect b (.ack h) (b.ack h).1 := by
  rcases b.ack_cases h with ⟨-, e, heq⟩ | ⟨entry, hc, heq⟩
  · rw [heq]
    exact .of_eq rfl rfl rfl
  · rw [heq]
    exact effect_settle distinct hc false

theorem effect_nack (h : Handle) (back : Bool) :
    Effect b (.nack h back) (b.nack h back).1 := by
  rcases b.nack_cases h back with ⟨-, e, heq⟩ | ⟨entry, hc, heq⟩
  · rw [heq]
    exact .of_eq rfl rfl rfl
  · rw [heq]
    exact effect_settle distinct hc back

/-- All that a call can do to the queues. -/
theorem effect_perform (call : Call) : Effect b call (b.perform call) := by
  cases call with
  | inject queue content => exact b.effect_inject queue content
  | take queue => exact b.effect_take queue
  | closeNow => exact b.effect_close b _
  | closeAfterPublishes count => exact b.effect_closeAfterPublishes count
  | declareQueue ch queue => exact b.effect_declareQueue ch queue
  | consume ch queue => exact b.effect_consume ch queue
  | publish ch m => exact b.effect_publish ch m
  | ack h => exact effect_ack distinct h
  | nack h back => exact effect_nack distinct h back
  | receive stream =>
      rw [perform, receive_eq]
      exact .of_eq rfl rfl rfl
  | setReachable reachable => exact .of_eq rfl rfl rfl
  | rejectAfter count => exact .of_eq rfl rfl rfl
  | acceptAll => exact .of_eq rfl rfl rfl
  | dropStream stream => exact .of_eq rfl rfl rfl

end Distinct

end Effects

namespace Effect

variable {b b' : Broker} {call : Call}

/-- Every call leaves all queues served. -/
theorem isServed (h : Effect b call b') (hs : ∀ n, b.IsServed n) (n : String) :
    b'.IsServed n := by
  cases h with
  | quiet hc hr hu hg =>
      intro c hbc hready
      rcases hr n with hsame | hnone
      · rw [hc] at hbc
        rw [hsame] at hready
        have hflight : b'.inFlight n c.generation = b.inFlight n c.generation := by
          rw [inFlight, hu, inFlight]
        rw [hflight]
        exact hs n c hbc hready
      · exact absurd hnone hready
  | closed hc hu =>
      intro c hbc
      rw [hc] at hbc
      cases hbc
  | dispatched name prepared hothers hle hc hresult hg =>
      refine (hresult n).isServed ?_
      by_cases hn : n = name
      · rw [hn]
        exact prepared.isServed_dispatch name
      · exact (prepared.sameQueue_dispatch name hn).isServed ((hothers n hn).isServed (hs n))

/-- No call brings more messages of a queue in flight than its consumer may have. -/
theorem inFlight_le (h : Effect b call b') {n : String} {c : Consumer}
    (hbc : b'.consumer? n = some c) (hp : 0 < c.prefetch) :
    b'.inFlight n c.generation ≤ max c.prefetch (b.inFlight n c.generation) := by
  cases h with
  | quiet hc hr hu hg =>
      rw [inFlight, hu]
      exact Nat.le_max_right _ _
  | closed hc hu =>
      rw [hc] at hbc
      cases hbc
  | dispatched name prepared hothers hle hc hresult hg =>
      rw [(hresult n).consumer?] at hbc
      rw [(hresult n).inFlight]
      have hdispatch := prepared.inFlight_dispatch_le name hbc hp
      have hprepared : prepared.inFlight n c.generation ≤ b.inFlight n c.generation := by
        by_cases hn : n = name
        · rw [hn]
          exact hle c.generation
        · exact Nat.le_of_eq ((hothers n hn).inFlight _)
      omega

end Effect

/-! ### Runs of calls -/

/-- The connections on which a queue was consumed, each as often as it was. -/
def consumed (b : Broker) (name : String) : List Call → List Nat
  | [] => []
  | c :: cs =>
    (if b.consumes name c then [b.generation] else []) ++ (b.perform c).consumed name cs

theorem consumed_append (b : Broker) (name : String) (cs : List Call) (c : Call) :
    b.consumed name (cs ++ [c]) =
      b.consumed name cs ++
        if (b.performAll cs).consumes name c then [(b.performAll cs).generation] else [] := by
  induction cs generalizing b with
  | nil =>
      rw [List.nil_append, consumed, consumed, consumed, List.append_nil]
      rfl
  | cons d ds ih => rw [List.cons_append, consumed, ih, consumed, List.append_assoc,
      performAll_cons]

/-- Tags are distinct after any calls. -/
theorem distinct_performAll (calls : List Call) :
    (performAll {} calls).unacked.Pairwise fun u v => u.tag < v.tag := by
  rw [← trackedRun_broker]
  exact (sound_trackedRun calls).unacked_tags

/-- All queues are served after any calls. -/
theorem isServed_performAll (calls : List Call) (name : String) :
    (performAll {} calls).IsServed name := by
  induction calls using List.reverseRecOn generalizing name with
  | nil =>
      intro c hc
      cases hc
  | append_singleton cs c ih =>
      rw [performAll_append]
      exact (effect_perform (distinct_performAll cs) c).isServed ih name

/-- A queue that was consumed so many times on the connection that there is: if once at most, no
more of its messages are in flight than its consumer may have, and if not at all, none. -/
structure Bounded (b : Broker) (name : String) (times : Nat) : Prop where
  unconsumed : times = 0 → b.consumer? name = none ∧ ∀ g, b.inFlight name g = 0
  once : times ≤ 1 → ∀ c, b.consumer? name = some c → 0 < c.prefetch →
    b.inFlight name c.generation ≤ c.prefetch

namespace Bounded

variable {b b' : Broker} {name : String} {times times' : Nat}

/-- Under the same consumer a queue may have fewer messages in flight. -/
theorem of_le (h : b.Bounded name times) (hc : b'.consumer? name = b.consumer? name)
    (hle : ∀ g, b'.inFlight name g ≤ b.inFlight name g) (ht : times ≤ times') :
    b'.Bounded name times' where
  unconsumed h0 := by
    obtain ⟨hnone, hzero⟩ := h.unconsumed (by omega)
    refine ⟨hc.trans hnone, ?_⟩
    intro g
    exact Nat.le_zero.1 (hzero g ▸ hle g)
  once h1 c hbc hp := Nat.le_trans (hle c.generation) (h.once (by omega) c (hc ▸ hbc) hp)

/-- A queue without a consumer stays as it is when it is dispatched, and a consumer within its
bounds stays there. -/
theorem dispatch (h : b.Bounded name times) : (b.dispatch name).Bounded name times where
  unconsumed h0 := by
    rw [dispatch_of_consumer?_none (h.unconsumed h0).1]
    exact h.unconsumed h0
  once h1 c hc hp := by
    have hle := b.inFlight_dispatch_le name hc hp
    have hbefore := h.once h1 c (b.consumer?_of_dispatch name hc) hp
    omega

/-- Where nothing is in flight a new consumer is within its bounds. -/
theorem dispatch_new (h : ∀ g, b.inFlight name g = 0) : (b.dispatch name).Bounded name 1 where
  unconsumed h0 := nomatch h0
  once _ c hc hp := by
    have hle := b.inFlight_dispatch_le name hc hp
    rwa [h, Nat.max_eq_left (Nat.zero_le _)] at hle

/-- Every call keeps a queue bounded, where consuming it counts. -/
theorem step {call : Call} (he : Effect b call b')
    (ht : b'.generation = b.generation → times' = times + if b.consumes name call then 1 else 0)
    (h : b.Bounded name times) : b'.Bounded name times' := by
  cases he with
  | quiet hc hr hu hg =>
      refine h.of_le (hc name) ?_ ((ht hg).symm ▸ Nat.le_add_right _ _)
      intro g
      exact Nat.le_of_eq (by rw [inFlight, hu, inFlight])
  | closed hc hu =>
      refine ⟨fun _ => ⟨hc name, ?_⟩, ?_⟩
      · intro g
        rw [inFlight, hu, List.countP_nil]
      · intro _ c hbc
        rw [hc] at hbc
        cases hbc
  | dispatched queue prepared hothers hle hc hresult hg =>
      have hle' : times ≤ times' := (ht hg).symm ▸ Nat.le_add_right _ _
      have hsame := hresult name
      by_cases hn : name = queue
      · subst hn
        rcases hc with hc | hconsumes
        · have hprepared : prepared.Bounded name times := h.of_le hc hle (Nat.le_refl _)
          exact hprepared.dispatch.of_le hsame.consumer?
            (fun g => Nat.le_of_eq (hsame.inFlight g)) hle'
        · -- The queue is consumed for the first time, or the number of times is no bound.
          have htimes : times' = times + 1 := by rw [ht hg, if_pos hconsumes]
          by_cases h0 : times = 0
          · have hzero : ∀ g, prepared.inFlight name g = 0 := fun g =>
              Nat.le_zero.1 ((h.unconsumed h0).2 g ▸ hle g)
            exact (dispatch_new hzero).of_le hsame.consumer?
              (fun g => Nat.le_of_eq (hsame.inFlight g)) (by omega)
          · exact ⟨fun _ => by omega, fun _ => by omega⟩
      · have hother := prepared.sameQueue_dispatch queue hn
        have hprepared := hothers name hn
        refine h.of_le ?_ ?_ hle'
        · rw [hsame.consumer?, hother.consumer?, hprepared.consumer?]
        · intro g
          exact Nat.le_of_eq (by rw [hsame.inFlight, hother.inFlight, hprepared.inFlight])

end Bounded

/-- Every queue is bounded after any calls, by how often it was consumed. -/
theorem bounded_performAll (calls : List Call) (name : String) :
    (performAll {} calls).Bounded name
      ((consumed {} name calls).count (performAll {} calls).generation) := by
  induction calls using List.reverseRecOn with
  | nil => exact ⟨fun _ => ⟨rfl, fun _ => rfl⟩, fun _ _ h => nomatch h⟩
  | append_singleton cs c ih =>
      rw [performAll_append, consumed_append, List.count_append]
      refine Bounded.step (effect_perform (distinct_performAll cs) c) ?_ ih
      intro hg
      rw [hg]
      cases (performAll {} cs).consumes name c with
      | true => simp
      | false => simp

end Broker

/-- **The prefetch of a consumer is kept and used.**  After any calls to a new broker, for every
queue:

* if the queue was consumed once on the connection that there is, and its consumer has a prefetch,
  then no more of its messages are unacknowledged than the prefetch allows;
* if a message waits although the queue has a consumer, then the consumer has a prefetch, and as
  many messages are unacknowledged: no message that could be delivered is left waiting;
* no further call that leaves a consumer with a prefetch brings the number of unacknowledged
  messages of the queue above the prefetch and above what it was. -/
theorem prefetch_is_kept_and_used (calls : List Broker.Call) (name : String) :
    let b := Broker.performAll {} calls
    (∀ c, b.consumer? name = some c →
      ((Broker.consumed {} name calls).count b.generation ≤ 1 → 0 < c.prefetch →
        b.outstanding name ≤ c.prefetch) ∧
      (b.ready name ≠ [] → 0 < c.prefetch ∧ c.prefetch ≤ b.outstanding name)) ∧
    ∀ call c, (b.perform call).consumer? name = some c → 0 < c.prefetch →
      (b.perform call).outstanding name ≤ max c.prefetch (b.outstanding name) := by
  -- Where there is a consumer, all that is unacknowledged is of its connection.
  have hflight : ∀ cs c, (Broker.performAll {} cs).consumer? name = some c →
      (Broker.performAll {} cs).outstanding name =
        (Broker.performAll {} cs).inFlight name c.generation := by
    intro cs c hc
    have hcurrent := current_trackedRun cs
    rw [← trackedRun_broker] at hc ⊢
    have hg := hcurrent.consumer name c hc
    exact Broker.outstanding_eq_inFlight (fun u hu => (hcurrent.unacked u hu).trans hg.symm) name
  intro b
  constructor
  · intro c hc
    rw [hflight calls c hc]
    refine ⟨fun honce => (Broker.bounded_performAll calls name).once honce c hc, ?_⟩
    exact Broker.isServed_performAll calls name c hc
  · intro call c hc hp
    have hrun : b.perform call = Broker.performAll {} (calls ++ [call]) := by
      rw [Broker.performAll_append]
      rfl
    have hle : (b.perform call).inFlight name c.generation ≤
        max c.prefetch (b.inFlight name c.generation) :=
      (Broker.effect_perform (Broker.distinct_performAll calls) call).inFlight_le hc hp
    have hbefore := b.inFlight_le_outstanding name c.generation
    have hafter : (b.perform call).outstanding name =
        (b.perform call).inFlight name c.generation := by
      rw [hrun] at hc ⊢
      exact hflight _ c hc
    rw [hafter]
    omega

/-- Three messages come in, and a consumer of two at a time. -/
def twoAtATime : List Broker.Call :=
  [.inject "q" ⟨none, []⟩, .inject "q" ⟨none, []⟩, .inject "q" ⟨none, []⟩, .consume ⟨0, 2⟩ "q"]

/-- Two messages are unacknowledged, and the third waits.  A second consumer, of one at a time, gets
nothing before both are settled. -/
theorem third_message_waits :
    let b := Broker.performAll {} twoAtATime
    b.consumer? "q" = some ⟨0, 2, 0⟩ ∧
    (Broker.consumed {} "q" twoAtATime).count b.generation ≤ 1 ∧
    b.ready "q" ≠ [] ∧
    b.outstanding "q" = 2 ∧
    (b.perform (.consume ⟨0, 1⟩ "q")).consumer? "q" = some ⟨0, 1, 1⟩ ∧
    (b.perform (.consume ⟨0, 1⟩ "q")).outstanding "q" ≤ 2 := by
  obtain ⟨hconsumer, hcall⟩ := prefetch_is_kept_and_used twoAtATime "q"
  have hc : (Broker.performAll {} twoAtATime).consumer? "q" = some ⟨0, 2, 0⟩ := by decide
  obtain ⟨hkept, hused⟩ := hconsumer _ hc
  refine ⟨hc, by decide, by decide, ?_, by decide, ?_⟩
  · exact Nat.le_antisymm (hkept (by decide) (by decide)) (hused (by decide)).2
  · exact hcall (.consume ⟨0, 1⟩ "q") ⟨0, 1, 1⟩ (by decide) (by decide)

end HashCalendar
