/-
**Batches while publishing fails.**

Two things may keep a batch from being published as a whole.  The broker may take no more messages
once its limit is used up, and the connection may close after a number of further publishes.  A
connection that closes right after a message was confirmed is noticed by the next call only: if that
is a publish, the batch is rejected, and if it was the last message, none of the acknowledgements
goes well any more.

So how many messages are enqueued, and how the batch is settled, depends on three numbers: the
length of the batch, the limit and the countdown.

Main definitions:

* `HashCalendar.Broker.accepts` — how many of a number of messages are taken;
* `HashCalendar.Tracked.Published` — what publishing a list of messages does.

Main results:

* `HashCalendar.Broker.closeAfter_performAll` — the countdown never stands at zero;
* `HashCalendar.Tracked.published` — **the first messages of the list are enqueued, and the
  connection closes if the countdown says so**;
* `HashCalendar.batches_under_faults` — **what becomes of a batch, whatever the limits are**.
-/

import HashCalendar.Proofs.Batch.Jobs
import HashCalendar.Proofs.Broker.Afterwards
import Mathlib.Data.List.Induction

set_option relaxedAutoImplicit false
set_option autoImplicit false

namespace HashCalendar

namespace Broker

/-! ### Limits -/

/-- How many of a number of messages are taken: no more than the limit leaves, and no more than come
before the connection closes. -/
def accepts (b : Broker) (count : Nat) : Nat :=
  min count (min (b.budget.getD count) (b.closeAfter.getD count))

@[simp] theorem close_closeAfter (b : Broker) : b.close.closeAfter = none := by
  rw [close, foldr_requeue_eq]

theorem sameConnection_ack (b : Broker) (h : Handle) : b.SameConnection (b.ack h).1 := by
  have hsame := (Tracked.mk b {}).sameConnection_settleHandle h .acked
  rwa [Tracked.settleHandle_acked_broker] at hsame

theorem sameConnection_nack (b : Broker) (h : Handle) (back : Bool) :
    b.SameConnection (b.nack h back).1 := by
  have hsame := (Tracked.mk b {}).sameConnection_settleHandle h
    (if back then .returned else .discarded)
  rwa [Tracked.settleHandle_refused_broker] at hsame

theorem countDown_of_none {b : Broker} (h : b.closeAfter = none) : b.countDown = b := by
  rw [countDown, h]

/-- The last publish before the connection closes. -/
theorem countDown_of_one {b : Broker} (h : b.closeAfter = some 1) :
    b.countDown = ({ b with closeAfter := some 0 } : Broker).close := by
  rw [countDown, h]
  exact if_pos (Nat.le_refl 1)

theorem countDown_of_two_le {b : Broker} {left : Nat} (h : b.closeAfter = some (left + 2)) :
    b.countDown = { b with closeAfter := some (left + 1) } := by
  rw [countDown, h]
  exact if_neg (by omega)

/-- Counting down never leaves the countdown at zero. -/
theorem closeAfter_countDown {b : Broker} (h : b.closeAfter ≠ some 0) :
    b.countDown.closeAfter ≠ some 0 := by
  cases hc : b.closeAfter with
  | none =>
      rw [countDown_of_none hc]
      exact h
  | some left =>
      match left with
      | 0 => exact absurd hc h
      | 1 => simp [countDown_of_one hc]
      | left + 2 => simp [countDown_of_two_le hc]

/-- No call leaves the countdown at zero. -/
theorem closeAfter_perform {b : Broker} (h : b.closeAfter ≠ some 0) (c : Call) :
    (b.perform c).closeAfter ≠ some 0 := by
  cases c with
  | inject queue content =>
      rw [perform, inject, (steady_dispatch _ _).closeAfter]
      exact h
  | take queue =>
      rw [perform, take_eq]
      exact h
  | closeNow => simp [perform]
  | closeAfterPublishes count =>
      rw [perform, closeAfterPublishes]
      by_cases h0 : count = 0
      · simp [h0]
      · simp [h0]
  | declareQueue ch queue =>
      rw [perform, (steady_declareQueue b ch queue).closeAfter]
      exact h
  | consume ch queue =>
      rw [perform, consume]
      by_cases ho : b.isOpen ch.generation = true
      · rw [if_pos ho]
        cases b.queue? queue with
        | none => exact h
        | some q =>
            dsimp only
            rw [(steady_dispatch _ _).closeAfter]
            exact h
      · rw [if_neg ho]
        exact h
  | publish ch m =>
      rw [perform]
      rcases b.publish_cases ch m with ⟨e, budget, heq⟩ | heq
      · rw [heq]
        exact h
      · rw [heq]
        refine closeAfter_countDown ?_
        rw [(steady_dispatch _ _).closeAfter]
        exact h
  | ack handle =>
      rw [perform, (b.sameConnection_ack handle).closeAfter]
      exact h
  | nack handle back =>
      rw [perform, (b.sameConnection_nack handle back).closeAfter]
      exact h
  | receive stream =>
      rw [perform, receive_eq]
      exact h
  | setReachable reachable => exact h
  | rejectAfter count => exact h
  | acceptAll => exact h
  | dropStream stream => exact h

/-- The countdown never stands at zero. -/
theorem closeAfter_performAll (calls : List Call) : (performAll {} calls).closeAfter ≠ some 0 := by
  induction calls using List.reverseRecOn with
  | nil => simp
  | append_singleton cs c ih =>
      rw [performAll_append]
      exact closeAfter_perform ih c

/-- Of one more message, one more is taken, unless a limit is at its end. -/
theorem accepts_succ {b b' : Broker} (hbudget : b.budget ≠ some 0) (hclose : b.closeAfter ≠ some 0)
    (hbudget' : b'.budget = b.budget.map (· - 1))
    (hclose' : b'.closeAfter = b.closeAfter.map (· - 1)) (count : Nat) :
    b.accepts (count + 1) = b'.accepts count + 1 := by
  rw [accepts, accepts, hbudget', hclose']
  cases hb : b.budget with
  | none =>
      cases hc : b.closeAfter with
      | none => simp
      | some left =>
          have : left ≠ 0 := fun h0 => hclose (h0 ▸ hc)
          simp
          omega
  | some allowed =>
      have : allowed ≠ 0 := fun h0 => hbudget (h0 ▸ hb)
      cases hc : b.closeAfter with
      | none =>
          simp
          omega
      | some left =>
          have : left ≠ 0 := fun h0 => hclose (h0 ▸ hc)
          simp
          omega

/-- The connection closes after one more message. -/
theorem accepts_of_one {b : Broker} (hbudget : b.budget ≠ some 0) (hclose : b.closeAfter = some 1)
    (count : Nat) : b.accepts (count + 1) = 1 := by
  rw [accepts, hclose]
  cases hb : b.budget with
  | none => simp
  | some allowed =>
      have : allowed ≠ 0 := fun h0 => hbudget (h0 ▸ hb)
      simp
      omega

end Broker

namespace Tracked

/-! ### Publishing a list of messages -/

/-- The connection lasts, and what was unacknowledged still is. -/
structure Endures (t t' : Tracked) : Prop where
  generation : t'.broker.generation = t.broker.generation
  reachable : t'.broker.reachable = t.broker.reachable
  unacked : t.broker.unacked <+: t'.broker.unacked

/-- The connection has closed, and nothing is unacknowledged any more. -/
structure Ended (t t' : Tracked) : Prop where
  generation : t.broker.generation < t'.broker.generation
  unacked : t'.broker.unacked = []

theorem Endures.refl (t : Tracked) : t.Endures t := ⟨rfl, rfl, List.prefix_refl _⟩

theorem Endures.trans {t t' t'' : Tracked} (h : t.Endures t') (h' : t'.Endures t'') :
    t.Endures t'' where
  generation := h'.generation.trans h.generation
  reachable := h'.reachable.trans h.reachable
  unacked := h.unacked.trans h'.unacked

theorem Endures.isOpen {t t' : Tracked} (h : t.Endures t') (generation : Nat) :
    t'.broker.isOpen generation = t.broker.isOpen generation := by
  rw [Broker.isOpen, Broker.isOpen, h.generation, h.reachable]

theorem Ended.isOpen {t t' : Tracked} (h : t.Ended t') {generation : Nat}
    (ho : t.broker.isOpen generation = true) : t'.broker.isOpen generation = false := by
  rw [Broker.isOpen, Bool.and_eq_true, decide_eq_true_eq] at ho
  have hlt := h.generation
  rw [Broker.isOpen, Bool.and_eq_false_iff]
  right
  simp only [decide_eq_false_iff_not]
  omega

/-- What publishing a list of messages does, of which a number are taken. -/
structure Published (ch : Channel) (messages : List Outbound) (count : Nat) (t t' : Tracked) :
    Prop where
  arrived : t'.ledger.arrived =
    t.ledger.arrived ++ (messages.take count).map fun m => (m.queue, m.content)
  budget : t'.broker.budget = t.broker.budget.map (· - count)
  closeAfter : t.broker.closeAfter ≠ some count →
    t'.broker.closeAfter = t.broker.closeAfter.map (· - count)
  isOk : (t.broker.publishAll ch messages).2.isOk = decide (count = messages.length)
  endures : t.broker.closeAfter ≠ some count → t.Endures t'
  ended : t.broker.closeAfter = some count → t.Ended t'

section Publishing

variable {t : Tracked} {ch : Channel} {m : Outbound}

/-- Once the limit is used up, no message is taken. -/
theorem publish_of_used_up (ho : t.broker.isOpen ch.generation = true)
    (hb : t.broker.budget = some 0) :
    t.publish ch m = t ∧ t.broker.publish ch m = (t.broker, .error (.rejected m.queue)) := by
  rw [publish, if_pos ho, if_pos hb, Broker.publish, if_pos ho, if_pos hb]
  exact ⟨rfl, rfl⟩

/-- Through a channel that is not open, no message is taken. -/
theorem publish_of_closed (ho : t.broker.isOpen ch.generation = false) :
    t.publish ch m = t ∧ t.broker.publish ch m = (t.broker, .error .channelClosed) := by
  rw [publish, if_neg (by simp [ho]), Broker.publish, if_neg (by simp [ho])]
  exact ⟨rfl, rfl⟩

/-- A message that was taken, before the publish is counted. -/
def accept (t : Tracked) (m : Outbound) : Tracked :=
  ((t.setBroker { t.broker with budget := t.broker.budget.map (· - 1) }).enqueue m.queue
    m.content).dispatch m.queue

/-- A message for a queue that is there is taken while the limit lasts. -/
theorem publish_of_accepted (ho : t.broker.isOpen ch.generation = true)
    (hb : t.broker.budget ≠ some 0) (hq : t.broker.IsDeclared m.queue) :
    t.publish ch m = (t.accept m).countDown ∧ (t.broker.publish ch m).2 = .ok () := by
  obtain ⟨q, hq⟩ := Option.isSome_iff_exists.1 hq
  have hcharged : Broker.queue? { t.broker with budget := t.broker.budget.map (· - 1) } m.queue =
      some q := hq
  rw [publish, if_pos ho, if_neg hb, Broker.publish, if_pos ho, if_neg hb]
  dsimp only [setBroker_broker]
  rw [hcharged]
  exact ⟨rfl, rfl⟩

/-- What is confirmed has arrived. -/
theorem arrived_publish (h : (t.broker.publish ch m).2 = .ok ()) :
    (t.publish ch m).ledger.arrived = t.ledger.arrived ++ [(m.queue, m.content)] := by
  rcases t.publish_cases ch m with ⟨-, harrived⟩ | ⟨e, herror, -⟩
  · exact harrived
  · rw [h] at herror
    cases herror

theorem accept_broker (t : Tracked) (m : Outbound) :
    (t.accept m).broker.budget = t.broker.budget.map (· - 1) ∧
      (t.accept m).broker.closeAfter = t.broker.closeAfter ∧ t.Endures (t.accept m) := by
  have hsteady := Tracked.steady_dispatch ((t.setBroker
    { t.broker with budget := t.broker.budget.map (· - 1) }).enqueue m.queue m.content) m.queue
  exact ⟨hsteady.budget, hsteady.closeAfter, hsteady.generation, hsteady.reachable,
    hsteady.unacked⟩

/-- The last message before the connection closes. -/
theorem ended_publish (ho : t.broker.isOpen ch.generation = true) (hb : t.broker.budget ≠ some 0)
    (hq : t.broker.IsDeclared m.queue) (hc : t.broker.closeAfter = some 1) :
    t.Ended (t.publish ch m) ∧
      (t.publish ch m).broker.budget = t.broker.budget.map (· - 1) := by
  obtain ⟨hbudget, hclose, hendures⟩ := t.accept_broker m
  rw [(publish_of_accepted ho hb hq).1]
  have hbroker : (t.accept m).countDown.broker =
      ({ (t.accept m).broker with closeAfter := some 0 } : Broker).close := by
    rw [countDown_broker, Broker.countDown_of_one (hclose.trans hc)]
  constructor
  · constructor
    case generation =>
      rw [hbroker, Broker.close_generation, ← hendures.generation]
      exact Nat.lt_succ_self _
    case unacked => rw [hbroker, Broker.close_unacked]
  · rw [hbroker, Broker.close_budget]
    exact hbudget

/-- A message after which the connection lasts. -/
theorem endures_publish (ho : t.broker.isOpen ch.generation = true) (hb : t.broker.budget ≠ some 0)
    (hq : t.broker.IsDeclared m.queue) (hc0 : t.broker.closeAfter ≠ some 0)
    (hc1 : t.broker.closeAfter ≠ some 1) :
    t.Endures (t.publish ch m) ∧
      (t.publish ch m).broker.budget = t.broker.budget.map (· - 1) ∧
      (t.publish ch m).broker.closeAfter = t.broker.closeAfter.map (· - 1) := by
  obtain ⟨hbudget, hclose, hendures⟩ := t.accept_broker m
  rw [(publish_of_accepted ho hb hq).1]
  have hbroker : (t.accept m).countDown.broker =
      { (t.accept m).broker with closeAfter := t.broker.closeAfter.map (· - 1) } := by
    rw [countDown_broker]
    cases hc : t.broker.closeAfter with
    | none =>
        rw [Broker.countDown_of_none (hclose.trans hc), Option.map_none, ← hc, ← hclose]
    | some left =>
        match left with
        | 0 => exact absurd hc hc0
        | 1 => exact absurd hc hc1
        | left + 2 => exact Broker.countDown_of_two_le (hclose.trans hc)
  refine ⟨⟨?_, ?_, ?_⟩, ?_, ?_⟩
  · rw [hbroker]
    exact hendures.generation
  · rw [hbroker]
    exact hendures.reachable
  · rw [hbroker]
    exact hendures.unacked
  · rw [hbroker]
    exact hbudget
  · rw [hbroker]

end Publishing

/-- Through a channel that is not open, nothing of a list is taken. -/
theorem performAll_publishCalls_of_closed {t : Tracked} {ch : Channel}
    (ho : t.broker.isOpen ch.generation = false) (messages : List Outbound) :
    t.performAll (t.broker.publishCalls ch messages) = t ∧
      (t.broker.publishAll ch messages).2.isOk = decide (messages = []) := by
  cases messages with
  | nil => exact ⟨rfl, rfl⟩
  | cons m ms =>
      obtain ⟨hsame, hclosed⟩ := publish_of_closed (m := m) ho
      rw [Broker.publishCalls, Broker.publishAll, hclosed]
      exact ⟨hsame, rfl⟩

/-- After a message that was taken, publishing goes on with the others. -/
theorem publishCalls_cons {t : Tracked} {ch : Channel} {m : Outbound}
    (hok : (t.broker.publish ch m).2 = .ok ()) (ms : List Outbound) :
    t.performAll (t.broker.publishCalls ch (m :: ms)) =
        (t.publish ch m).performAll ((t.publish ch m).broker.publishCalls ch ms) ∧
      t.broker.publishAll ch (m :: ms) = (t.publish ch m).broker.publishAll ch ms := by
  have hnext : t.broker.publish ch m = ((t.publish ch m).broker, .ok ()) :=
    Prod.ext (t.publish_broker ch m).symm hok
  rw [Broker.publishCalls, Broker.publishAll, hnext]
  exact ⟨rfl, rfl⟩

namespace Published

variable {t t' : Tracked} {ch : Channel} {m : Outbound} {ms : List Outbound} {count : Nat}

theorem nil (hc : t.broker.closeAfter ≠ some 0) :
    Published ch [] 0 t (t.performAll (t.broker.publishCalls ch [])) where
  arrived := (List.append_nil _).symm
  budget := by simp [Broker.publishCalls]
  closeAfter _ := by simp [Broker.publishCalls]
  isOk := rfl
  endures _ := .refl t
  ended h := absurd h hc

/-- Nothing is taken any more. -/
theorem used_up (ho : t.broker.isOpen ch.generation = true) (hb : t.broker.budget = some 0)
    (hc : t.broker.closeAfter ≠ some 0) :
    Published ch (m :: ms) 0 t (t.performAll (t.broker.publishCalls ch (m :: ms))) := by
  obtain ⟨hsame, hrejected⟩ := publish_of_used_up (m := m) ho hb
  have hcalls : t.performAll (t.broker.publishCalls ch (m :: ms)) = t := by
    rw [Broker.publishCalls, hrejected]
    exact hsame
  rw [hcalls]
  constructor
  case arrived => exact (List.append_nil _).symm
  case budget => exact by simp
  case closeAfter => exact fun _ => by simp
  case isOk =>
    rw [Broker.publishAll, hrejected]
    rfl
  case endures => exact fun _ => .refl t
  case ended => exact fun h => absurd h hc

/-- One message is taken, and the connection closes. -/
theorem closing (ho : t.broker.isOpen ch.generation = true) (hb : t.broker.budget ≠ some 0)
    (hq : t.broker.IsDeclared m.queue) (hc : t.broker.closeAfter = some 1) :
    Published ch (m :: ms) 1 t (t.performAll (t.broker.publishCalls ch (m :: ms))) := by
  have hok := (publish_of_accepted ho hb hq).2
  obtain ⟨hcalls, hall⟩ := publishCalls_cons hok ms
  obtain ⟨hended, hbudget⟩ := ended_publish ho hb hq hc
  obtain ⟨hsame, hisOk⟩ := performAll_publishCalls_of_closed (hended.isOpen ho) ms
  rw [hcalls, hsame]
  constructor
  case arrived => exact arrived_publish hok
  case budget => exact hbudget
  case closeAfter => exact fun h => absurd hc h
  case isOk =>
    rw [hall, hisOk]
    cases ms with
    | nil => rfl
    | cons m' ms => simp
  case endures => exact fun h => absurd hc h
  case ended => exact fun _ => hended

/-- One message is taken, and then others are. -/
theorem cons (ho : t.broker.isOpen ch.generation = true) (hb : t.broker.budget ≠ some 0)
    (hq : t.broker.IsDeclared m.queue) (hc0 : t.broker.closeAfter ≠ some 0)
    (hc1 : t.broker.closeAfter ≠ some 1)
    (h : Published ch ms count (t.publish ch m)
      ((t.publish ch m).performAll ((t.publish ch m).broker.publishCalls ch ms))) :
    Published ch (m :: ms) (count + 1) t
      (t.performAll (t.broker.publishCalls ch (m :: ms))) := by
  have hok := (publish_of_accepted ho hb hq).2
  obtain ⟨hcalls, hall⟩ := publishCalls_cons hok ms
  obtain ⟨hendures, hbudget, hclose⟩ := endures_publish ho hb hq hc0 hc1
  have hcount : (t.publish ch m).broker.closeAfter = some count ↔
      t.broker.closeAfter = some (count + 1) := by
    rw [hclose]
    cases hc : t.broker.closeAfter with
    | none => simp
    | some left =>
        have : left ≠ 0 := fun h0 => hc0 (h0 ▸ hc)
        simp
        omega
  rw [hcalls]
  constructor
  case arrived =>
    rw [h.arrived, arrived_publish hok]
    simp
  case budget =>
    rw [h.budget, hbudget, Option.map_map]
    congr 1
    funext allowed
    simp
    omega
  case closeAfter =>
    intro hne
    rw [h.closeAfter (mt hcount.1 hne), hclose, Option.map_map]
    congr 1
    funext left
    simp
    omega
  case isOk =>
    rw [hall, h.isOk]
    simp
  case endures => exact fun hne => hendures.trans (h.endures (mt hcount.1 hne))
  case ended =>
    intro heq
    have hended := h.ended (hcount.2 heq)
    exact ⟨hendures.generation ▸ hended.generation, hended.unacked⟩

end Published

/-- Publishing a list of messages for queues that are there enqueues the first ones, up to the
limits, and the connection closes if the countdown says so. -/
theorem published {t : Tracked} {ch : Channel} {messages : List Outbound}
    (ho : t.broker.isOpen ch.generation = true) (hc : t.broker.closeAfter ≠ some 0)
    (hq : ∀ m ∈ messages, t.broker.IsDeclared m.queue) :
    Published ch messages (t.broker.accepts messages.length) t
      (t.performAll (t.broker.publishCalls ch messages)) := by
  induction messages generalizing t with
  | nil =>
      have hzero : t.broker.accepts ([] : List Outbound).length = 0 := Nat.zero_min _
      rw [hzero]
      exact .nil hc
  | cons m ms ih =>
      have hm := hq m List.mem_cons_self
      by_cases hb : t.broker.budget = some 0
      · have hzero : t.broker.accepts (m :: ms).length = 0 := by simp [Broker.accepts, hb]
        rw [hzero]
        exact .used_up ho hb hc
      · by_cases hc1 : t.broker.closeAfter = some 1
        · rw [List.length_cons, Broker.accepts_of_one hb hc1]
          exact .closing ho hb hm hc1
        · obtain ⟨hendures, hbudget, hclose⟩ := endures_publish ho hb hm hc hc1
          have hc' : (t.publish ch m).broker.closeAfter ≠ some 0 := by
            rw [publish_broker]
            exact Broker.closeAfter_perform hc (.publish ch m)
          have hq' : ∀ m' ∈ ms, (t.publish ch m).broker.IsDeclared m'.queue := fun m' hm' =>
            t.keepsQueues_performAll [.publish ch m] _ (hq m' (List.mem_cons_of_mem m hm'))
          rw [List.length_cons, Broker.accepts_succ hb hc hbudget hclose]
          exact .cons ho hb hm hc hc1 (ih ((hendures.isOpen _).trans ho) hc' hq')

/-! ### Settling the deliveries -/

/-- On a closed connection nothing is settled. -/
theorem settleAll_of_closed {t : Tracked} {handles : List Handle}
    (ho : ∀ h ∈ handles, t.broker.isOpen h.generation = false) (fate : Fate) :
    t.settleAll handles fate = t := by
  induction handles with
  | nil => rfl
  | cons h hs ih =>
      rw [settleAll_cons, settleHandle, if_neg (by simp [ho h List.mem_cons_self])]
      exact ih fun h' hh' => ho h' (List.mem_cons_of_mem h hh')

theorem ackAll_of_closed {b : Broker} {handles : List Handle}
    (ho : ∀ h ∈ handles, b.isOpen h.generation = false) : b.ackAll handles = (b, 0) := by
  induction handles with
  | nil => rfl
  | cons h hs ih =>
      rw [Broker.ackAll, Broker.ack_of_not_isOpen (by simp [ho h List.mem_cons_self])]
      exact ih fun h' hh' => ho h' (List.mem_cons_of_mem h hh')

/-- Publishing settles nothing. -/
theorem grows_publishCalls (t : Tracked) (ch : Channel) (messages : List Outbound) :
    t.ledger.Grows .bring (t.performAll (t.broker.publishCalls ch messages)).ledger := by
  refine .performAll fun c hc b => ?_
  obtain ⟨m, -, rfl⟩ := Broker.mem_publishCalls hc
  exact trivial

/-- What can be settled before messages are published can be settled after, if the connection
lasts. -/
theorem CanSettle.endures {t t' : Tracked} {handles : List Handle} (h : t.CanSettle handles)
    (hs : t'.Sound) (he : t.Endures t') : t'.CanSettle handles where
  sound := hs
  nodup := h.nodup
  isOpen handle hh := (he.isOpen _).trans (h.isOpen handle hh)
  held handle hh := by
    obtain ⟨u, hu, heq⟩ := h.held handle hh
    exact ⟨u, he.unacked.subset hu, heq⟩

section Batches

variable {t : Tracked} {ch : Channel} {messages : List Outbound} {handles : List Handle}
  {count : Nat}

/-- The calls of a batch publish its messages and then settle its deliveries. -/
theorem performAll_batchCalls (t : Tracked) (ch : Channel) (messages : List Outbound)
    (handles : List Handle) :
    t.performAll (t.broker.batchCalls ch messages handles) =
      (t.performAll (t.broker.publishCalls ch messages)).settleAll handles
        (if (t.broker.publishAll ch messages).2.isOk then .acked else .returned) := by
  rw [Broker.batchCalls, performAll_append, performAll_settleCalls]

/-- How the deliveries are settled depends on how many messages were taken, and on whether the
connection closed with the last of them. -/
theorem outcome_of_published
    (hp : Published ch messages count t (t.performAll (t.broker.publishCalls ch messages)))
    (hcount : count ≤ messages.length) (hsettle : t.CanSettle handles)
    (hne : t.broker.closeAfter = some count → handles ≠ []) :
    (t.broker.publishAndSettle ch messages handles).2 =
      if count < messages.length then .rejected handles.length
      else if t.broker.closeAfter = some count then .abandoned 0 handles.length
      else .acked handles.length := by
  have hbroker : (t.performAll (t.broker.publishCalls ch messages)).broker =
      (t.broker.publishAll ch messages).1 := by
    rw [performAll_broker, Broker.performAll_publishCalls]
  have houtcome : (t.broker.publishAndSettle ch messages handles).2 =
      ((t.performAll (t.broker.publishCalls ch messages)).broker.settle handles
        (decide (count = messages.length))).2 := by
    rw [hbroker, ← hp.isOk]
    rfl
  rw [houtcome]
  by_cases hlt : count < messages.length
  · rw [if_pos hlt, decide_eq_false (Nat.ne_of_lt hlt)]
    rfl
  · rw [if_neg hlt, decide_eq_true (by omega : count = messages.length)]
    by_cases hclose : t.broker.closeAfter = some count
    · have hclosed := ackAll_of_closed fun h hh =>
        (hp.ended hclose).isOpen (hsettle.isOpen h hh)
      rw [if_pos hclose, Broker.settle, if_pos rfl, hclosed]
      exact if_neg fun h0 => hne hclose (List.length_eq_zero_iff.1 h0.symm)
    · have hsound := hsettle.sound.performAll (t.broker.publishCalls ch messages)
      have hall := (hsettle.endures hsound (hp.endures hclose)).ackAll
      rw [if_neg hclose, Broker.settle, if_pos rfl]
      dsimp only
      rw [hall, if_pos rfl]

/-- All deliveries count as acknowledged exactly if all messages were taken and the connection is
still there. -/
theorem isAcked_of_published
    (hp : Published ch messages count t (t.performAll (t.broker.publishCalls ch messages)))
    (hcount : count ≤ messages.length) (hsettle : t.CanSettle handles) (hne : handles ≠ []) :
    (t.broker.publishAndSettle ch messages handles).2.isAcked = true ↔
      count = messages.length ∧ t.broker.closeAfter ≠ some count := by
  rw [outcome_of_published hp hcount hsettle fun _ => hne]
  by_cases hlt : count < messages.length
  · rw [if_pos hlt]
    exact iff_of_false Bool.false_ne_true fun h => Nat.ne_of_lt hlt h.1
  · rw [if_neg hlt]
    by_cases hclose : t.broker.closeAfter = some count
    · rw [if_pos hclose]
      exact iff_of_false Bool.false_ne_true fun h => h.2 hclose
    · rw [if_neg hclose]
      exact iff_of_true rfl ⟨Nat.le_antisymm hcount (Nat.le_of_not_lt hlt), hclose⟩

/-- After a batch was acknowledged all its messages are gone, and else all are back. -/
theorem fate_of_published
    (hp : Published ch messages count t (t.performAll (t.broker.publishCalls ch messages)))
    (hlatest : t.Latest) (hsettle : t.CanSettle handles) {u : Broker.Unacked}
    (hu : u ∈ t.broker.unacked) (hhandle : u.handle ∈ handles) :
    let t' := t.performAll (t.broker.batchCalls ch messages handles)
    if count = messages.length ∧ t.broker.closeAfter ≠ some count then t'.broker.IsGone u
    else t'.broker.IsBack t.ledger u := by
  intro t'
  have hgrows : t.ledger.Grows .any t'.ledger := .performAll_any t _
  have hsound := hsettle.sound.performAll (t.broker.publishCalls ch messages)
  have hlatest' : t'.Latest := hlatest.performAll _
  obtain ⟨hacked, hdiscarded, htaken⟩ :=
    (t.grows_publishCalls ch messages).undone (fun _ => id) (fun _ => id) (fun _ => id)
  have ht' : t' = (t.performAll (t.broker.publishCalls ch messages)).settleAll handles
      (if decide (count = messages.length) then .acked else .returned) := by
    rw [← hp.isOk]
    exact t.performAll_batchCalls ch messages handles
  by_cases hclose : t.broker.closeAfter = some count
  · -- The connection has closed, so that nothing can be settled any more.
    have hended := hp.ended hclose
    rw [settleAll_of_closed fun h hh => hended.isOpen (hsettle.isOpen h hh)] at ht'
    rw [if_neg fun h => h.2 hclose]
    rw [ht'] at hgrows hlatest' ⊢
    refine hlatest.isBack hlatest' hgrows hacked hdiscarded htaken hu ?_
    rw [hended.unacked]
    exact List.not_mem_nil
  · have hendures := hp.endures hclose
    have hsettled := (hsettle.endures hsound hendures).mem_settled
      (if decide (count = messages.length) then .acked else .returned)
      (hendures.unacked.subset hu) hhandle
    by_cases hall : count = messages.length
    · rw [decide_eq_true hall, if_pos rfl] at ht' hsettled
      rw [← ht'] at hsettled
      rw [if_pos ⟨hall, hclose⟩]
      exact hlatest'.sound.isGone hsettled
    · rw [decide_eq_false hall, if_neg Bool.false_ne_true] at ht' hsettled
      rw [if_neg fun h => hall h.1]
      rw [← ht'] at hsettled
      obtain ⟨hacked', hdiscarded', htaken'⟩ :=
        ((t.performAll (t.broker.publishCalls ch messages)).moves_finish handles
          .returned).grows.undone (by rintro u ⟨⟨⟩, -⟩) (by rintro u ⟨⟨⟩, -⟩) (fun _ => id)
      rw [← ht'] at hacked' hdiscarded' htaken'
      exact hlatest.isBack hlatest' hgrows (hacked'.trans hacked) (hdiscarded'.trans hdiscarded)
        (htaken'.trans htaken) hu
        (hlatest'.sound.not_mem_unacked (Ledger.mem_ended_of_settled hsettled))

end Batches

end Tracked

/-- A tree is finalized, and a block comes of it, exactly if all its deliveries were
acknowledged. -/
theorem FinalizeJob.finalized_iff (job : FinalizeJob) (b : Broker) :
    ((job.run b).2.1.stage = .finalized ↔ (job.run b).2.1.settled.isAcked = true) ∧
      (job.run b).2.2 = if (job.run b).2.1.settled.isAcked then some job.tree.block else none := by
  obtain ⟨-, hsettled, hblock⟩ := job.run_eq b
  refine ⟨?_, by rw [hblock, hsettled]⟩
  rw [run]
  cases b.publishAndSettle job.channel job.messages job.handles with
  | mk b' outcome => cases outcome <;> simp [Outcome.isAcked]

/-- **A batch while publishing fails.**  After any calls to a new broker, let a job that could be
prepared have at least one delivery, each of them unacknowledged and none of them there twice, and
messages for queues that are there only; let its channel be open, and let `k` be the smallest of
the number `m` of its messages, the limit on publishes and the countdown to the closing of the
connection.  When the job is carried out,

* just the first `k` of its messages are enqueued, in the order of the list;
* all its `n` deliveries count as rejected if `k < m`; none as acknowledged and `n` as abandoned if
  the connection closes with the last message; and else all as acknowledged;
* a limit goes down by `k`;
* if all deliveries count as acknowledged, all their messages are gone, and else all are back in
  their queues or unacknowledged under a new tag;
* a tree is finalized, and a block comes of it, exactly if all count as acknowledged. -/
theorem batches_under_faults (calls : List Broker.Call) (job : Job) {messages : List Outbound}
    (hmessages : job.messages? = some messages)
    (hopen : (trackedRun calls).broker.isOpen job.channel.generation = true)
    (hne : job.handles ≠ []) (hnodup : job.handles.Nodup)
    (hheld : ∀ h ∈ job.handles, ∃ u ∈ (trackedRun calls).broker.unacked, u.handle = h)
    (hqueues : ∀ m ∈ messages, (trackedRun calls).broker.IsDeclared m.queue) :
    let t := trackedRun calls
    let b := t.broker
    let b' := (job.work b).1
    let outcome := (job.work b).2
    let k := min messages.length
      (min (b.budget.getD messages.length) (b.closeAfter.getD messages.length))
    let n := job.handles.length
    (t.performAll (job.calls b)).broker = b' ∧
    (t.performAll (job.calls b)).ledger.arrived =
      t.ledger.arrived ++ (messages.take k).map (fun m => (m.queue, m.content)) ∧
    outcome =
      (if k < messages.length then .rejected n
      else if b.closeAfter = some k then .abandoned 0 n
      else .acked n) ∧
    b'.budget = b.budget.map (· - k) ∧
    (∀ u ∈ b.unacked, u.handle ∈ job.handles →
      if outcome.isAcked then b'.IsGone u else b'.IsBack t.ledger u) ∧
    ∀ f, job = .finalize f →
      ((f.run b).2.1.stage = .finalized ↔ outcome.isAcked = true) ∧
      (f.run b).2.2 = if outcome.isAcked then some f.tree.block else none := by
  intro t b b' outcome k n
  have hclose : b.closeAfter ≠ some 0 := by
    change (trackedRun calls).broker.closeAfter ≠ some 0
    rw [trackedRun_broker]
    exact Broker.closeAfter_performAll calls
  have hpublished : Tracked.Published job.channel messages k t
      (t.performAll (b.publishCalls job.channel messages)) :=
    Tracked.published hopen hclose hqueues
  have hsettle : t.CanSettle job.handles := canSettle_trackedRun hopen hnodup hheld
  have hcalls : job.calls b = b.batchCalls job.channel messages job.handles := by
    rw [Job.calls, hmessages]
  have hbroker : (t.performAll (job.calls b)).broker = b' := job.performAll_calls_broker t
  have houtcome :=
    Tracked.outcome_of_published hpublished (Nat.min_le_left _ _) hsettle fun _ => hne
  rw [← Job.work_of_messages? hmessages b] at houtcome
  have hsplit := t.performAll_batchCalls job.channel messages job.handles
  rw [← hcalls] at hsplit
  refine ⟨hbroker, ?_, houtcome, ?_, ?_, ?_⟩
  · rw [hsplit, ← hpublished.arrived]
    exact (Tracked.moves_finish _ _ _).grows.arrived.eq_of_forall_not fun _ => not_false
  · rw [← hbroker, hsplit, (Tracked.sameConnection_settleAll _ _ _).budget]
    exact hpublished.budget
  · intro u hu hhandle
    have hfate := Tracked.fate_of_published hpublished (latest_trackedRun calls) hsettle hu hhandle
    rw [← hcalls] at hfate
    rw [← hbroker]
    have hacked := Tracked.isAcked_of_published hpublished (Nat.min_le_left _ _) hsettle hne
    rw [← Job.work_of_messages? hmessages b] at hacked
    by_cases ho : outcome.isAcked = true
    · rw [if_pos ho]
      rwa [if_pos (hacked.1 ho)] at hfate
    · rw [if_neg ho]
      rwa [if_neg (mt hacked.2 ho)] at hfate
  · rintro f rfl
    exact f.finalized_iff b

/-- Two messages are unacknowledged; two more publishes are allowed, and then the connection
closes. -/
def twoHeld : List Broker.Call :=
  [.declareQueue ⟨0, 0⟩ "out", .inject "q" ⟨none, []⟩, .inject "q" ⟨none, []⟩,
    .consume ⟨0, 0⟩ "q", .rejectAfter 2, .closeAfterPublishes 2]

/-- A tree over the two messages, with an answer to each. -/
def twoAnswers : FinalizeJob where
  channel := ⟨0, 0⟩
  tree := ⟨.zero, ⟨List.replicate 32 0x22, rfl⟩, [], .finalizing⟩
  handles := [⟨0, 1⟩, ⟨0, 2⟩]
  messages := [⟨"out", ⟨none, [1]⟩⟩, ⟨"out", ⟨none, [2]⟩⟩]

/-- The connection closes with the last answer.  Both answers are enqueued, and yet there is no
block, and both messages are back. -/
theorem connection_closes_with_last_answer :
    let t := trackedRun twoHeld
    let b' := (Job.work t.broker (.finalize twoAnswers)).1
    (t.performAll (Job.calls t.broker (.finalize twoAnswers))).ledger.arrived =
      t.ledger.arrived ++ [("out", ⟨none, [1]⟩), ("out", ⟨none, [2]⟩)] ∧
    (Job.work t.broker (.finalize twoAnswers)).2 = .abandoned 0 2 ∧
    b'.budget = some 0 ∧
    (∀ u ∈ t.broker.unacked, b'.IsBack t.ledger u) ∧
    (twoAnswers.run t.broker).2.1.stage ≠ .finalized ∧
    (twoAnswers.run t.broker).2.2 = none := by
  have hqueues : ∀ m ∈ twoAnswers.messages,
      ((trackedRun twoHeld).broker.queue? m.queue).isSome = true := by decide
  obtain ⟨-, harrived, houtcome, hbudget, hback, hblock⟩ :=
    batches_under_faults twoHeld (.finalize twoAnswers) rfl (by decide) (by decide) (by decide)
      (by decide) hqueues
  have hall : ∀ u ∈ (trackedRun twoHeld).broker.unacked, u.handle ∈ twoAnswers.handles := by decide
  have hoff : (Job.work (trackedRun twoHeld).broker (.finalize twoAnswers)).2 =
      .abandoned 0 2 := houtcome.trans (by decide)
  rw [hoff] at hback hblock
  obtain ⟨hstage, hnone⟩ := hblock twoAnswers rfl
  exact ⟨harrived, hoff, hbudget, fun u hu => hback u hu (hall u hu),
    fun h => Bool.false_ne_true (hstage.1 h), hnone⟩

end HashCalendar
