/-
**Getting the first message of a queue.**

A component that connects to a reachable broker while nobody else calls gets its queue, and the
first message that waits there is the first that it receives.  Nothing arrives and nothing is
settled meanwhile.  The component can then settle the delivery, since the connection is still the
same.

Main definitions:

* `HashCalendar.Broker.Alike` — messages, consumers and streams are the same;
* `HashCalendar.Tracked.Steady` — the connection lasts, nothing arrives and nothing is settled;
* `HashCalendar.Line.consuming` — a component that has connected without being disturbed.

Main results:

* `HashCalendar.Line.iterate_step_receiving` — **the steps of connecting in a row get the queue a
  new consumer**;
* `HashCalendar.Line.receive_consuming` — **the first message that is ready is received first**;
* `HashCalendar.Tracked.steady_publish`, `HashCalendar.Tracked.steady_settleHandle` — what is
  published arrives, and what is received can be settled.
-/

import HashCalendar.Proofs.Broker.Apart
import HashCalendar.Proofs.Broker.Connecting
import HashCalendar.Proofs.Broker.Declared

set_option relaxedAutoImplicit false
set_option autoImplicit false

namespace HashCalendar

namespace Broker

/-! ### What a consumer gets -/

/-- A queue that got a new consumer keeps its messages. -/
theorem queue?_register (b : Broker) (ch : Channel) (name : String) :
    (b.register ch name).queue? name =
      some ⟨b.ready name, some ⟨ch.generation, ch.prefetch, b.streams.length⟩⟩ := by
  rw [register, ready_eq]
  exact (queue?_modify b name _ name).trans (if_pos rfl)

/-- Where there is nothing to hand over, nothing is dispatched. -/
theorem dispatch_of_ready_nil {b : Broker} {name : String} (h : b.ready name = []) :
    b.dispatch name = b := by
  rcases b.dispatch_cases name with hsame | ⟨q, c, hq, -, -, hroom, -⟩ | ⟨q, c, hq, hc, -, -⟩
  · exact hsame
  · rw [ready_of_queue? hq] at h
    simp [room, h] at hroom
  · rw [ready_of_queue? hq] at h
    simp [dispatch, hq, hc, room, h]

section Registering

variable {b : Broker} {m : Message} {rest : List Message}

/-- A new consumer that has nothing else gets messages, if any are ready. -/
theorem dispatch_register (ch : Channel) (name : String) (hunacked : b.unacked = [])
    (hready : b.ready name = m :: rest) :
    ∃ count, (b.register ch name).dispatch name =
      (b.register ch name).handOver name
        ⟨m :: rest, some ⟨ch.generation, ch.prefetch, b.streams.length⟩⟩
        ⟨ch.generation, ch.prefetch, b.streams.length⟩ (count + 1) := by
  have hq := b.queue?_register ch name
  rw [hready] at hq
  have hroom : (b.register ch name).room name
      ⟨m :: rest, some ⟨ch.generation, ch.prefetch, b.streams.length⟩⟩
      ⟨ch.generation, ch.prefetch, b.streams.length⟩ ≠ 0 := by
    have hflight : (b.register ch name).inFlight name ch.generation = 0 := by
      simp [inFlight, register, modify, hunacked]
    rw [room, hflight]
    by_cases hp : ch.prefetch = 0
    · simp [hp]
    · simp [hp]
  obtain ⟨count, hcount⟩ := Nat.exists_eq_succ_of_ne_zero hroom
  refine ⟨count, ?_⟩
  rw [dispatch, hq]
  dsimp only
  rw [if_neg hroom, isListening_register_self, if_pos rfl, hcount]

/-- A new consumer that has nothing else receives the first message that is ready, and can settle
it. -/
theorem receive_register (ch : Channel) (name : String) (hunacked : b.unacked = [])
    (hready : b.ready name = m :: rest) :
    (((b.register ch name).dispatch name).receive b.streams.length).2 =
        .delivery ⟨b.nextTag, m⟩ ∧
      ((b.register ch name).dispatch name).unacked? ch.generation b.nextTag =
        some ⟨b.nextTag, name, ch.generation, m⟩ := by
  obtain ⟨count, hdispatch⟩ := dispatch_register ch name hunacked hready
  have hfirst : deliveries b.nextTag ((m :: rest).take (count + 1)) =
      ⟨b.nextTag, m⟩ :: deliveries (b.nextTag + 1) (rest.take count) := by
    rw [List.take_succ_cons, deliveries_cons]
  constructor
  · have hwaiting : ((b.register ch name).dispatch name).waiting b.streams.length =
        ⟨b.nextTag, m⟩ :: deliveries (b.nextTag + 1) (rest.take count) := by
      have hnew : b.waiting b.streams.length = [] := by simp [waiting]
      rw [hdispatch, waiting_handOver (b.isListening_register_self ch name), if_pos rfl,
        waiting_register, hnew]
      exact hfirst
    rcases ((b.register ch name).dispatch name).receive_waiting b.streams.length with
      ⟨d, more, hd, hw, -⟩ | ⟨-, hnone, -⟩
    · rw [hwaiting] at hw
      cases hw
      exact hd
    · rw [hwaiting] at hnone
      cases hnone
  · have hhanded : ((b.register ch name).dispatch name).unacked =
        ⟨b.nextTag, name, ch.generation, m⟩ ::
          (deliveries (b.nextTag + 1) (rest.take count)).map
            fun d => ⟨d.tag, name, ch.generation, d.message⟩ := by
      rw [hdispatch, handOver_unacked, handed, show (b.register ch name).unacked = [] from hunacked]
      exact congrArg (List.map _) hfirst
    rw [unacked?, hhanded]
    simp

end Registering

theorem unacked?_of_prefix {b b' : Broker} (h : b.unacked <+: b'.unacked) {generation tag : Nat}
    {u : Unacked} (hu : b.unacked? generation tag = some u) :
    b'.unacked? generation tag = some u := by
  obtain ⟨more, hmore⟩ := h
  obtain ⟨hfind, hgeneration⟩ := unacked?_eq_some hu
  rw [unacked?, ← hmore, List.find?_append, hfind, Option.some_or]
  simp [hgeneration]

/-! ### Declaring queues -/

/-- Messages, consumers and streams are the same. -/
structure Alike (b b' : Broker) : Prop where
  ready : ∀ name, b'.ready name = b.ready name
  consumer : ∀ name, b'.consumer? name = b.consumer? name
  streams : b'.streams = b.streams
  unacked : b'.unacked = b.unacked

theorem Alike.refl (b : Broker) : b.Alike b := ⟨fun _ => rfl, fun _ => rfl, rfl, rfl⟩

theorem Alike.trans {b b' b'' : Broker} (h : b.Alike b') (h' : b'.Alike b'') : b.Alike b'' where
  ready name := (h'.ready name).trans (h.ready name)
  consumer name := (h'.consumer name).trans (h.consumer name)
  streams := h'.streams.trans h.streams
  unacked := h'.unacked.trans h.unacked

theorem alike_declareQueue (b : Broker) (ch : Channel) (name : String) :
    b.Alike (b.declareQueue ch name).1 := by
  rw [declareQueue]
  by_cases ho : b.isOpen ch.generation = true
  · rw [if_pos ho]
    exact ⟨b.ready_modify_consumer name id fun _ => rfl,
      b.consumer?_modify_ready name id fun _ => rfl, rfl, rfl⟩
  · rw [if_neg ho]
    exact .refl b

theorem alike_declareQueues (b : Broker) (ch : Channel) (names : List String) :
    b.Alike (b.performAll (names.map (.declareQueue ch))) := by
  induction names generalizing b with
  | nil => exact .refl b
  | cons name names ih => exact (b.alike_declareQueue ch name).trans (ih _)

/-! ### Nothing arrives and nothing is settled -/

/-- The connection lasts and nothing is settled; messages may be handed over. -/
structure Steady (b b' : Broker) : Prop where
  generation : b'.generation = b.generation
  reachable : b'.reachable = b.reachable
  budget : b'.budget = b.budget
  closeAfter : b'.closeAfter = b.closeAfter
  unacked : b.unacked <+: b'.unacked

theorem Steady.refl (b : Broker) : b.Steady b := ⟨rfl, rfl, rfl, rfl, List.prefix_refl _⟩

theorem Steady.trans {b b' b'' : Broker} (h : b.Steady b') (h' : b'.Steady b'') : b.Steady b'' where
  generation := h'.generation.trans h.generation
  reachable := h'.reachable.trans h.reachable
  budget := h'.budget.trans h.budget
  closeAfter := h'.closeAfter.trans h.closeAfter
  unacked := h.unacked.trans h'.unacked

theorem Steady.isOpen {b b' : Broker} (h : b.Steady b') (generation : Nat) :
    b'.isOpen generation = b.isOpen generation := by
  rw [Broker.isOpen, Broker.isOpen, h.generation, h.reachable]

theorem steady_dispatch (b : Broker) (name : String) : b.Steady (b.dispatch name) := by
  rcases b.dispatch_cases name with heq | ⟨q, c, -, -, -, -, heq⟩ | ⟨q, c, -, -, -, heq⟩
  · rw [heq]
    exact .refl b
  · rw [heq]
    exact ⟨rfl, rfl, rfl, rfl, List.prefix_append _ _⟩
  · rw [heq]
    exact ⟨rfl, rfl, rfl, rfl, List.prefix_refl _⟩

theorem steady_declareQueue (b : Broker) (ch : Channel) (name : String) :
    b.Steady (b.declareQueue ch name).1 := by
  rw [declareQueue]
  by_cases ho : b.isOpen ch.generation = true
  · rw [if_pos ho]
    exact ⟨rfl, rfl, rfl, rfl, List.prefix_refl _⟩
  · rw [if_neg ho]
    exact .refl b

theorem steady_receive (b : Broker) (stream : Nat) : b.Steady (b.receive stream).1 := by
  rw [b.receive_eq stream]
  exact ⟨rfl, rfl, rfl, rfl, List.prefix_refl _⟩

end Broker

namespace Tracked

/-- The connection lasts, nothing arrives and nothing is settled; messages may be handed over. -/
structure Steady (t t' : Tracked) : Prop extends Broker.Steady t.broker t'.broker where
  arrived : t'.ledger.arrived = t.ledger.arrived
  acked : t'.ledger.acked = t.ledger.acked
  discarded : t'.ledger.discarded = t.ledger.discarded
  taken : t'.ledger.taken = t.ledger.taken

namespace Steady

variable {t t' t'' : Tracked}

theorem of_setBroker {b : Broker} (h : t.broker.Steady b) : t.Steady (t.setBroker b) :=
  ⟨h, rfl, rfl, rfl, rfl⟩

theorem refl (t : Tracked) : t.Steady t := .of_setBroker (.refl t.broker)

theorem trans (h : t.Steady t') (h' : t'.Steady t'') : t.Steady t'' where
  toSteady := h.toSteady.trans h'.toSteady
  arrived := h'.arrived.trans h.arrived
  acked := h'.acked.trans h.acked
  discarded := h'.discarded.trans h.discarded
  taken := h'.taken.trans h.taken

end Steady

theorem steady_dispatch (t : Tracked) (name : String) : t.Steady (t.dispatch name) :=
  ⟨t.broker.steady_dispatch name, rfl, rfl, rfl, rfl⟩

theorem steady_declareQueue (t : Tracked) (ch : Channel) (names : List String) :
    t.Steady (t.performAll (names.map (.declareQueue ch))) := by
  induction names generalizing t with
  | nil => exact .refl t
  | cons name names ih =>
      exact (Steady.of_setBroker (t.broker.steady_declareQueue ch name)).trans (ih _)

theorem steady_receive (t : Tracked) (stream : Nat) : t.Steady (t.perform (.receive stream)) :=
  .of_setBroker (t.broker.steady_receive stream)

theorem steady_register (t : Tracked) (ch : Channel) (name : String) :
    t.Steady (t.setBroker (t.broker.register ch name)) :=
  .of_setBroker ⟨rfl, rfl, rfl, rfl, List.prefix_refl _⟩

/-- Nothing is handed over from a queue that nobody consumes. -/
theorem dispatch_of_consumer?_none {t : Tracked} {name : String}
    (h : t.broker.consumer? name = none) : t.dispatch name = t := by
  have hsame := Broker.dispatch_of_consumer?_none h
  rw [dispatch, Broker.dispatched, hsame, List.drop_length, List.append_nil]

/-! ### What is published and settled -/

/-- What is published arrives, unless the broker refuses it or closes the connection. -/
theorem steady_publish {t : Tracked} {ch : Channel} {m : Outbound}
    (ho : t.broker.isOpen ch.generation = true) (hbudget : t.broker.budget = none)
    (hclose : t.broker.closeAfter = none) (hqueue : t.broker.IsDeclared m.queue) :
    (t.broker.publish ch m).2 = .ok () ∧
      (t.enqueue m.queue m.content).Steady (t.publish ch m) := by
  obtain ⟨q, hq⟩ := Option.isSome_iff_exists.1 hqueue
  have hcharged : t.setBroker { t.broker with budget := t.broker.budget.map (· - 1) } = t := by
    rw [hbudget, Option.map_none, ← hbudget]
    rfl
  constructor
  · rcases t.broker.publish_answers ch m with ⟨hn, -⟩ | ⟨-, hn, -⟩ | ⟨-, -, hn, -⟩ | ⟨-, -, -, hp⟩
    · rw [ho] at hn
      cases hn
    · rw [hbudget] at hn
      cases hn
    · rw [hq] at hn
      cases hn
    · rw [hp]
  · have hsteady := (t.enqueue m.queue m.content).steady_dispatch m.queue
    have hcount : ((t.enqueue m.queue m.content).dispatch m.queue).countDown =
        (t.enqueue m.queue m.content).dispatch m.queue := by
      rw [countDown, hsteady.closeAfter, show (t.enqueue _ _).broker.closeAfter = none from hclose]
    rw [publish, if_pos ho, if_neg (by simp [hbudget]), hcharged]
    dsimp only
    rwa [hq, hcount]

/-- What is claimed is settled, and nothing else is. -/
theorem steady_settleHandle {t : Tracked} {handle : Handle} {u : Broker.Unacked}
    (ho : t.broker.isOpen handle.generation = true)
    (hu : t.broker.unacked? handle.generation handle.tag = some u) (fate : Fate) :
    (t.settle handle.tag u fate).Steady (t.settleHandle handle fate) := by
  rw [settleHandle, if_pos ho, hu]
  exact steady_dispatch _ _

/-- The broker is reachable and takes what is published, nothing was discarded or taken out, and
just these messages have arrived and these deliveries were acknowledged. -/
structure Healthy (t : Tracked) (arrived : List (String × Content))
    (acked : List Broker.Unacked) : Prop where
  reachable : t.broker.reachable = true
  budget : t.broker.budget = none
  closeAfter : t.broker.closeAfter = none
  arrived : t.ledger.arrived = arrived
  acked : t.ledger.acked = acked
  discarded : t.ledger.discarded = []
  taken : t.ledger.taken = []

namespace Healthy

variable {t t' : Tracked} {arrived : List (String × Content)} {acked : List Broker.Unacked}

theorem steady (h : t.Healthy arrived acked) (hs : t.Steady t') : t'.Healthy arrived acked where
  reachable := hs.reachable.trans h.reachable
  budget := hs.budget.trans h.budget
  closeAfter := hs.closeAfter.trans h.closeAfter
  arrived := hs.arrived.trans h.arrived
  acked := hs.acked.trans h.acked
  discarded := hs.discarded.trans h.discarded
  taken := hs.taken.trans h.taken

/-- What is published arrives. -/
theorem publish (h : t.Healthy arrived acked) {ch : Channel} {m : Outbound}
    (ho : t.broker.isOpen ch.generation = true) (hqueue : t.broker.IsDeclared m.queue) :
    (t.broker.publish ch m).2 = .ok () ∧
      (t.publish ch m).Healthy (arrived ++ [(m.queue, m.content)]) acked ∧
      (∀ generation, (t.publish ch m).broker.isOpen generation = t.broker.isOpen generation) ∧
      t.broker.unacked <+: (t.publish ch m).broker.unacked := by
  obtain ⟨hok, hsteady⟩ := steady_publish ho h.budget h.closeAfter hqueue
  refine ⟨hok, Healthy.steady ?_ hsteady, hsteady.isOpen, hsteady.unacked⟩
  exact ⟨h.reachable, h.budget, h.closeAfter, by rw [← h.arrived]; rfl, h.acked, h.discarded,
    h.taken⟩

/-- What is claimed gets acknowledged. -/
theorem ack (h : t.Healthy arrived acked) {handle : Handle} {u : Broker.Unacked}
    (ho : t.broker.isOpen handle.generation = true)
    (hu : t.broker.unacked? handle.generation handle.tag = some u) :
    (t.broker.ack handle).2 = .ok () ∧
      (t.settleHandle handle .acked).Healthy arrived (acked ++ [u]) ∧
      ∀ generation, (t.settleHandle handle .acked).broker.isOpen generation =
        t.broker.isOpen generation := by
  have hsteady := steady_settleHandle ho hu .acked
  refine ⟨?_, Healthy.steady ?_ hsteady, hsteady.isOpen⟩
  · rw [Broker.ack, if_pos ho, hu]
  · exact ⟨h.reachable, h.budget, h.closeAfter, h.arrived, by rw [← h.acked]; rfl, h.discarded,
      h.taken⟩

end Healthy

/-- Through an old connection nothing is settled. -/
theorem settleHandle_of_closed {t : Tracked} {handle : Handle}
    (h : t.broker.isOpen handle.generation = false) (fate : Fate) :
    t.settleHandle handle fate = t := by
  rw [settleHandle, h, if_neg Bool.false_ne_true]

end Tracked

/-! ### Connecting undisturbed -/

namespace Line

variable (l : Line)

/-- The component when its queue has just got it as its new consumer. -/
def registered : Tracked :=
  l.shared.tracked.setBroker (l.shared.broker.register l.prepared l.link.settings.consumes)

/-- The component when it has connected and nobody else has called. -/
def consuming : Line :=
  { l.shared with
    tracked := l.registered.dispatch l.link.settings.consumes
    receiver := some ⟨l.broker.generation, l.broker.streams.length⟩ }

/-- Up to registering for its queue a component only declares queues. -/
theorem alike_shared : l.broker.Alike l.shared.broker := by
  have hshared : l.shared.broker =
      l.broker.performAll (l.declares.map (.declareQueue l.opened)) :=
    Tracked.performAll_broker _ _
  rw [hshared]
  exact l.broker.alike_declareQueues _ _

theorem steady_registered : l.tracked.Steady l.registered :=
  (l.tracked.steady_declareQueue _ _).trans (Tracked.steady_register _ _ _)

/-- Nothing arrives and nothing is settled while a component connects undisturbed. -/
theorem steady_consuming : l.tracked.Steady l.consuming.tracked :=
  l.steady_registered.trans (Tracked.steady_dispatch _ _)

variable {l}

/-- The queue that a component is about to consume is there. -/
theorem isDeclared_shared (h : l.broker.reachable = true) :
    l.shared.broker.IsDeclared l.link.settings.consumes := by
  have ho : l.broker.isOpen l.opened.generation = true := by simp [Broker.isOpen, opened, h]
  let t := l.tracked.perform (.declareQueue l.opened l.link.settings.consumes)
  have hfirst : t.broker.IsDeclared l.link.settings.consumes := by
    refine Broker.isDeclared_declareQueue ?_
    rw [Broker.declareQueue]
    exact congrArg Prod.snd (if_pos ho)
  exact t.keepsQueues_performAll (l.link.settings.declares.map (.declareQueue l.opened)) _ hfirst

/-- The steps of connecting in a row get the queue a new consumer. -/
theorem iterate_step_receiving (h : l.broker.reachable = true) :
    step^[l.declares.length + 3] (.away, l) = (.receiving, l.consuming) := by
  have ho : l.shared.broker.isOpen l.prepared.generation = true := by
    refine ((l.tracked.steady_declareQueue _ _).isOpen _).trans ?_
    rw [Broker.isOpen, show l.tracked.broker = l.broker from rfl, h]
    simp [prepared, opened]
  obtain ⟨q, hq⟩ := Option.isSome_iff_exists.1 (isDeclared_shared h)
  have hok : (l.shared.broker.consume l.prepared l.link.settings.consumes).2 =
      .ok l.shared.broker.streams.length := by
    rw [Broker.consume, if_pos ho, hq]
  rw [Function.iterate_succ_apply', (iterate_step_sharing h).1, step, connect]
  rcases l.shared.tracked.consume_cases l.prepared l.link.settings.consumes with
    ⟨e, herror, -⟩ | ⟨-, -, hnew⟩
  · cases hok.symm.trans herror
  · rw [show l.shared.link.settings.consumes = l.link.settings.consumes from rfl, hok, perform,
      Tracked.perform, hnew, l.alike_shared.streams]
    rfl

/-! ### What is received first -/

/-- Where nothing is ready, nothing is handed over. -/
theorem consuming_of_ready_nil (h : l.broker.ready l.link.settings.consumes = []) :
    l.consuming.broker = l.shared.broker.register l.prepared l.link.settings.consumes :=
  Broker.dispatch_of_ready_nil <|
    ((Broker.quiet_register _ _ _).ready _).trans ((l.alike_shared.ready _).trans h)

/-- The first message that is ready is received first, and it can be settled. -/
theorem receive_consuming {m : Message} {rest : List Message} (hunacked : l.broker.unacked = [])
    (hready : l.broker.ready l.link.settings.consumes = m :: rest) :
    ∃ tag, l.consuming.receive =
        (l.consuming.perform (.receive l.broker.streams.length),
          some (⟨l.broker.generation, tag⟩, m.content)) ∧
      l.consuming.broker.unacked? l.broker.generation tag =
        some ⟨tag, l.link.settings.consumes, l.broker.generation, m⟩ := by
  obtain ⟨hreceive, hclaim⟩ := Broker.receive_register l.prepared l.link.settings.consumes
    (l.alike_shared.unacked.trans hunacked) ((l.alike_shared.ready _).trans hready)
  refine ⟨l.shared.broker.nextTag, ?_, hclaim⟩
  rw [l.alike_shared.streams] at hreceive
  have hdelivery : (l.consuming.broker.receive l.broker.streams.length).2 = _ := hreceive
  rw [receive]
  simp only [consuming] at hdelivery ⊢
  rw [hdelivery]
  rfl

end Line

end HashCalendar
