/-
**Queues that are there.**

A queue that was declared stays: no call takes it away, and neither does a connection that closes.
A link declares all its queues before it shares its channel.  So whoever publishes through a shared
channel to a queue of the link never hears that there is no such queue: the message is taken, or the
channel is closed, or the broker takes no more messages.

Main definitions:

* `HashCalendar.Broker.IsDeclared`, `HashCalendar.Broker.KeepsQueues` — a queue is there, and all
  queues stay;
* `HashCalendar.Broker.Refuses` — the reasons for which a message for such a queue is refused;
* `HashCalendar.Line.Equipped` — the queues of a link are there when its channel is shared;
* `HashCalendar.Progress.IsSupplied` — the queues of the messages that are still to be published are
  there.

Main results:

* `HashCalendar.Tracked.keepsQueues_performAll` — **queues stay**;
* `HashCalendar.Broker.refuses_of_publish` — why a publish to a queue that is there is refused;
* `HashCalendar.Line.Equipped.connect` — **a link declares its queues before it shares its
  channel**.
-/

import HashCalendar.Proofs.Broker.Connecting
import HashCalendar.Proofs.Broker.Refusals
import HashCalendar.Proofs.Broker.Settlement

set_option relaxedAutoImplicit false
set_option autoImplicit false

namespace HashCalendar

namespace Broker

/-! ### Queues stay -/

/-- The queue of a name is there. -/
def IsDeclared (b : Broker) (name : String) : Prop := (b.queue? name).isSome = true

/-- All queues of a broker are still there. -/
def KeepsQueues (b b' : Broker) : Prop := ∀ name, b.IsDeclared name → b'.IsDeclared name

theorem KeepsQueues.refl (b : Broker) : KeepsQueues b b := fun _ => id

theorem KeepsQueues.trans {b b' b'' : Broker} (h : KeepsQueues b b') (h' : KeepsQueues b' b'') :
    KeepsQueues b b'' := fun name hd => h' name (h name hd)

theorem KeepsQueues.of_eq {b b' : Broker} (h : b'.queues = b.queues) : KeepsQueues b b' := by
  intro name hd
  rwa [IsDeclared, queue?, h]

section Moves

variable (b : Broker)

theorem isDeclared_modify (name : String) (change : Queue → Queue) :
    (b.modify name change).IsDeclared name := by
  rw [IsDeclared, queue?_modify, if_pos rfl]
  rfl

theorem keepsQueues_modify (name : String) (change : Queue → Queue) :
    KeepsQueues b (b.modify name change) := by
  intro n hd
  by_cases h : n = name
  · rw [h]
    exact b.isDeclared_modify name change
  · rwa [IsDeclared, queue?_modify, if_neg h]

theorem keepsQueues_requeue (entry : Unacked) : KeepsQueues b (b.requeue entry) :=
  b.keepsQueues_modify _ _

theorem keepsQueues_close : KeepsQueues b b.close := by
  have hfold : ∀ (entries : List Unacked) (b : Broker),
      KeepsQueues b (entries.foldr (fun entry b => b.requeue entry) b) := by
    intro entries b
    induction entries with
    | nil => exact .refl b
    | cons entry rest ih => exact ih.trans (keepsQueues_requeue _ entry)
  refine KeepsQueues.trans ?_ (hfold _ _)
  intro name hd
  have h := lookup_map_snd (fun q => { q with consumer := none }) b.queues name
  rw [IsDeclared, queue?] at hd ⊢
  rwa [h, Option.isSome_map]

theorem keepsQueues_take (name : String) : KeepsQueues b (b.take name).1 := by
  rw [take]
  cases b.queue? name with
  | none => exact .refl b
  | some q => exact b.keepsQueues_modify _ _

end Moves

end Broker

namespace Tracked

theorem Move.keepsQueues {r : Broker.Rules} {t t' : Tracked} (h : Move r t t') :
    Broker.KeepsQueues t.broker t'.broker := by
  cases h with
  | enqueue ha => exact Broker.keepsQueues_modify _ _ _
  | handOver count hq hc hl => exact Broker.keepsQueues_modify _ _ _
  | forget hq hc hl => exact Broker.keepsQueues_modify _ _ _
  | @settle generation tag entry fate he hs =>
      cases fate with
      | acked => exact .of_eq rfl
      | discarded => exact .of_eq rfl
      | returned => exact Broker.keepsQueues_requeue (t.broker.dropUnacked tag) entry
  | close => exact Broker.keepsQueues_close _
  | take ht => exact Broker.keepsQueues_take _ _
  | limit budget closeAfter => exact .of_eq rfl
  | reach hr => exact .of_eq rfl
  | declare name => exact Broker.keepsQueues_modify _ _ _
  | register hc ho => exact Broker.keepsQueues_modify _ _ _
  | receive hl => exact .of_eq (Broker.receive_queues _ _)
  | dropStream hl => exact .of_eq rfl

/-- No calls take a queue away. -/
theorem keepsQueues_performAll (t : Tracked) (calls : List Broker.Call) :
    Broker.KeepsQueues t.broker (t.performAll calls).broker :=
  (moves_any t calls).keep (P := fun t' => Broker.KeepsQueues t.broker t'.broker)
    (fun hm h => h.trans hm.keepsQueues) (.refl _)

end Tracked

namespace Broker

/-- A queue that was declared on an open channel is there. -/
theorem isDeclared_declareQueue {b : Broker} {ch : Channel} {name : String}
    (h : (b.declareQueue ch name).2 = .ok ()) : (b.declareQueue ch name).1.IsDeclared name := by
  rw [declareQueue] at h ⊢
  by_cases ho : b.isOpen ch.generation = true
  · rw [if_pos ho]
    exact b.isDeclared_modify name id
  · rw [if_neg ho] at h
    cases h

/-- The reasons for which a message for a queue that is there is refused: there is no channel, or
its connection is closed, or the broker takes no more messages. -/
inductive Refuses (b : Broker) (channel : Option Channel) (queue : String) : Error → Prop where
  | closed (h : ∀ ch, channel = some ch → b.isOpen ch.generation = false) :
      Refuses b channel queue .channelClosed
  | rejected (h : b.budget = some 0) : Refuses b channel queue (.rejected queue)

/-- A message for a queue that is there is refused for one of these reasons. -/
theorem refuses_of_publish {b : Broker} {ch : Channel} {m : Outbound} {e : Error}
    (h : b.IsDeclared m.queue) (he : (b.publish ch m).2 = .error e) :
    b.Refuses (some ch) m.queue e := by
  rcases b.publish_answers ch m with ⟨ho, hp⟩ | ⟨-, hb, hp⟩ | ⟨-, -, hq, -⟩ | ⟨-, -, -, hp⟩
  · rw [hp] at he
    cases he
    refine .closed ?_
    rintro _ ⟨⟩
    exact ho
  · rw [hp] at he
    cases he
    exact .rejected hb
  · rw [IsDeclared, hq] at h
    cases h
  · rw [hp] at he
    cases he

end Broker

/-! ### Links that declare their queues -/

/-- The queues that are still to be declared before the channel is used, while a component
connects. -/
def Contact.undeclared? : Contact → Option (List String)
  | .declaring _ left => some left
  | .sharing _ => some []
  | _ => none

namespace Line

/-- The queues of a link are there when its channel is shared; while it connects they are there but
for those that are still to be declared. -/
structure Equipped (k : Contact) (l : Line) : Prop where
  shared : l.link.channel.isSome = true → ∀ name ∈ l.declares, l.broker.IsDeclared name
  underway : ∀ left, k.undeclared? = some left →
    ∀ name ∈ l.declares, name ∈ left ∨ l.broker.IsDeclared name

namespace Equipped

variable {k : Contact} {l l' : Line}

/-- A component that is away and has no channel has nothing to answer for. -/
theorem away (h : l.link.channel = none) : l.Equipped .away where
  shared hs := by
    rw [h] at hs
    cases hs
  underway _ hl := nomatch hl

/-- Whatever is called, and even if the channel is given up, the queues stay. -/
theorem keep (h : l.Equipped k) (hsettings : l'.link.settings = l.link.settings)
    (hchannel : l'.link.channel.isSome = true → l.link.channel.isSome = true)
    (hqueues : Broker.KeepsQueues l.broker l'.broker) : l'.Equipped k := by
  have hdeclares : l'.declares = l.declares := by rw [declares, hsettings, declares]
  constructor
  case shared =>
    intro hs name hn
    rw [hdeclares] at hn
    exact hqueues name (h.shared (hchannel hs) name hn)
  case underway =>
    intro left hl name hn
    rw [hdeclares] at hn
    exact (h.underway left hl name hn).imp_right (hqueues name)

/-- An attempt that has ended leaves nothing to be declared. -/
theorem ended (h : l.Equipped k) {k' : Contact} (hk : k'.undeclared? = none) : l.Equipped k' where
  shared := h.shared
  underway _ hl := nomatch hk.symm.trans hl

theorem performAll (h : l.Equipped k) (calls : List Broker.Call) :
    (l.performAll calls).Equipped k :=
  h.keep rfl id (l.tracked.keepsQueues_performAll calls)

/-- A link declares its queues, one step after the other, before it shares its channel. -/
theorem connect (h : l.Equipped k) : (l.connect k).2.Equipped (l.connect k).1 := by
  cases k with
  | away =>
      rw [Line.connect]
      cases l.broker.openChannel l.link.settings.uri with
      | error e => exact h
      | ok ch =>
          refine ⟨h.shared, ?_⟩
          rintro left ⟨⟩ name hn
          exact Or.inl hn
  | declaring ch left =>
      cases left with
      | nil =>
          rw [Line.connect]
          cases l.broker.setPrefetch ch l.link.settings.prefetch with
          | error e => exact h.ended rfl
          | ok ch =>
              -- Nothing is left to be declared, so all queues are there.
              have hall : ∀ name ∈ l.declares, l.broker.IsDeclared name := fun name hn =>
                (h.underway [] rfl name hn).resolve_left List.not_mem_nil
              exact ⟨fun _ => hall, fun _ _ name hn => Or.inr (hall name hn)⟩
      | cons name names =>
          have hperformed : (l.perform (.declareQueue ch name)).Equipped
              (.declaring ch (name :: names)) := h.performAll [.declareQueue ch name]
          rw [Line.connect]
          cases hd : (l.broker.declareQueue ch name).2 with
          | error e => exact hperformed.ended rfl
          | ok u =>
              have hdeclared : (l.perform (.declareQueue ch name)).broker.IsDeclared name := by
                rw [perform_broker]
                exact Broker.isDeclared_declareQueue hd
              refine ⟨hperformed.shared, ?_⟩
              rintro left ⟨⟩ n hn
              rcases hperformed.underway _ rfl n hn with hleft | hthere
              · rcases List.mem_cons.1 hleft with rfl | hleft
                · exact Or.inr hdeclared
                · exact Or.inl hleft
              · exact Or.inr hthere
  | sharing ch =>
      have hperformed : (l.perform (.consume ch l.link.settings.consumes)).Equipped
          (.sharing ch) := h.performAll [.consume ch l.link.settings.consumes]
      rw [Line.connect]
      cases (l.broker.consume ch l.link.settings.consumes).2 with
      | error e => exact .away rfl
      | ok stream =>
          refine Equipped.ended (k := .sharing ch) ?_ rfl
          exact hperformed.keep rfl id (.refl _)
  | receiving => exact h

/-- At the end of a connection the channel is given up. -/
theorem hangUp (l : Line) : l.hangUp.Equipped .away := .away rfl

end Equipped

end Line

/-! ### Batches that can be published -/

namespace Progress

/-- The queues of the messages that are still to be published are there. -/
def IsSupplied (b : Broker) : Progress → Prop
  | .publishing left => ∀ m ∈ left, b.IsDeclared m.queue
  | _ => True

theorem IsSupplied.keep {b b' : Broker} {p : Progress} (h : p.IsSupplied b)
    (hb : Broker.KeepsQueues b b') : p.IsSupplied b' := by
  cases p with
  | publishing left => exact fun m hm => hb m.queue (h m hm)
  | _ => exact trivial

theorem IsSupplied.next {b : Broker} {p : Progress} (h : p.IsSupplied b) (ch : Channel)
    (handles : List Handle) (b' : Broker) : (p.next ch handles b').IsSupplied b := by
  cases p with
  | publishing left =>
      cases left with
      | nil => exact trivial
      | cons m ms =>
          rw [Progress.next]
          cases (b'.publish ch m).2 with
          | ok u => exact fun n hn => h n (List.mem_cons_of_mem m hn)
          | error e => exact trivial
  | acking left count =>
      cases left with
      | nil => exact trivial
      | cons handle rest =>
          rw [Progress.next]
          cases (b'.ack handle).2 with
          | ok u => exact trivial
          | error e => exact trivial
  | returning left =>
      cases left with
      | nil => exact trivial
      | cons handle rest => exact trivial
  | settled outcome => exact trivial

/-- A batch whose messages were not all taken: its deliveries are given back, or were. -/
def IsRejected : Progress → Prop
  | .returning _ => True
  | .settled (.rejected _) => True
  | _ => False

/-- A batch gets rejected when one of its messages is refused. -/
theorem isRejected_next {ch : Channel} {handles : List Handle} {b : Broker} {p : Progress}
    (h : (p.next ch handles b).IsRejected) :
    p.IsRejected ∨ ∃ m left e, p = .publishing (m :: left) ∧ (b.publish ch m).2 = .error e := by
  cases p with
  | publishing left =>
      cases left with
      | nil => exact h.elim
      | cons m ms =>
          rw [next] at h
          cases hp : (b.publish ch m).2 with
          | ok u =>
              rw [hp] at h
              exact h.elim
          | error e => exact Or.inr ⟨m, ms, e, rfl, hp⟩
  | acking left count =>
      cases left with
      | nil =>
          rw [next] at h
          by_cases hc : count = handles.length
          · rw [if_pos hc] at h
            exact h.elim
          · rw [if_neg hc] at h
            exact h.elim
      | cons handle rest =>
          rw [next] at h
          cases ha : (b.ack handle).2 with
          | ok u =>
              rw [ha] at h
              exact h.elim
          | error e =>
              rw [ha] at h
              exact h.elim
  | returning left => exact Or.inl trivial
  | settled outcome => exact Or.inl h

end Progress

end HashCalendar
