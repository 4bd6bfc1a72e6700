/-
**One proof for all calls.**

Every call is put together from moves, so what is kept by every move of the broker is kept by every
call.  Often not every call is made: a policy says which messages may arrive, which deliveries may
be settled in which way, and which queues may be taken from, and further rules say who may consume
and receive.  What is kept by the moves within a policy is kept by the calls within it.  For most
purposes all other changes are quiet: no message notices them.

Main definitions:

* `HashCalendar.Broker.Quiet` — a change that no message notices;
* `HashCalendar.Broker.Policy`, `HashCalendar.Broker.Rules` — which moves may be made;
* `HashCalendar.Tracked.Move` — one move;
* `HashCalendar.Broker.Policy.Keeps` — what the moves within a policy keep.

Main results:

* `HashCalendar.Tracked.moves_perform` — **every call is put together from moves**;
* `HashCalendar.Broker.Policy.Keeps.perform` — **what the moves keep the calls keep**;
* `HashCalendar.Broker.Policy.Keeps.performAll` — and so do several calls in a row.
-/

import HashCalendar.Proofs.Broker.Ledger
import Mathlib.Logic.Relation

set_option relaxedAutoImplicit false
set_option autoImplicit false

namespace HashCalendar

namespace Broker

/-! ### Quiet changes -/

/-- All deliveries that wait in streams. -/
def buffered (b : Broker) : List Delivery := b.streams.flatMap Stream.buffer

/-- A change that no message notices; deliveries may only get out of the streams, and tags may be
used up. -/
structure Quiet (b b' : Broker) : Prop where
  ready : ∀ name, b'.ready name = b.ready name
  unacked : b'.unacked = b.unacked
  nextSerial : b'.nextSerial = b.nextSerial
  nextTag : b.nextTag ≤ b'.nextTag
  buffered : b'.buffered.Sublist b.buffered

/-- A change of the settings of the broker is quiet. -/
theorem Quiet.of_eq {b b' : Broker} (hq : b'.queues = b.queues) (hu : b'.unacked = b.unacked)
    (hs : b'.nextSerial = b.nextSerial) (ht : b'.nextTag = b.nextTag)
    (hb : b'.streams = b.streams) : Quiet b b' where
  ready name := by rw [ready_eq, ready_eq, queue?, queue?, hq]
  unacked := hu
  nextSerial := hs
  nextTag := Nat.le_of_eq ht.symm
  buffered := by
    rw [Broker.buffered, hb]
    exact List.Sublist.refl _

theorem Quiet.refl (b : Broker) : Quiet b b := .of_eq rfl rfl rfl rfl rfl

theorem quiet_forget (b : Broker) (name : String) : Quiet b (b.forget name) where
  ready := ready_forget b name
  unacked := rfl
  nextSerial := rfl
  nextTag := Nat.le_succ _
  buffered := List.Sublist.refl _

theorem quiet_modify_consumer (b : Broker) (name : String) (change : Queue → Queue)
    (h : ∀ q, (change q).ready = q.ready) : Quiet b (b.modify name change) where
  ready := ready_modify_consumer b name change h
  unacked := rfl
  nextSerial := rfl
  nextTag := Nat.le_refl _
  buffered := List.Sublist.refl _

/-- A broker on which a queue has just got a new consumer. -/
def register (b : Broker) (ch : Channel) (name : String) : Broker :=
  { b.modify name fun q =>
      { q with consumer := some ⟨ch.generation, ch.prefetch, b.streams.length⟩ } with
    streams := b.streams ++ [{}] }

theorem quiet_register (b : Broker) (ch : Channel) (name : String) :
    Quiet b (b.register ch name) where
  ready := ready_modify_consumer b name
    (fun q => { q with consumer := some ⟨ch.generation, ch.prefetch, b.streams.length⟩ }) fun _ =>
      rfl
  unacked := rfl
  nextSerial := rfl
  nextTag := Nat.le_refl _
  buffered := by simp [Broker.buffered, register]

/-! ### Streams -/

/-- A stream stands between those before it and those behind it, and only it is changed under its
number. -/
theorem exists_streams_eq {streams : List Stream} {stream : Nat} {s : Stream}
    (h : streams[stream]? = some s) :
    ∃ before after, streams = before ++ s :: after ∧
      ∀ change, streams.modify stream change = before ++ change s :: after := by
  obtain ⟨hlt, hs⟩ := List.getElem?_eq_some_iff.1 h
  refine ⟨streams.take stream, streams.drop (stream + 1), ?_, ?_⟩
  · rw [← hs, ← List.drop_eq_getElem_cons hlt, List.take_append_drop]
  · intro change
    rw [List.modify_eq_take_cons_drop hlt, hs]

/-- What is received comes out of the streams, and nothing else does. -/
theorem receive_cases (b : Broker) (stream : Nat) :
    (∃ d b', b.receive stream = (b', .delivery d) ∧ Quiet b b' ∧
        b.buffered.Perm (d :: b'.buffered)) ∨
      ((b.receive stream).1 = b ∧ ∀ d, (b.receive stream).2 ≠ .delivery d) := by
  have hnone : ∀ d, (if b.isFed stream then Received.empty else .closed) ≠ .delivery d := by
    intro d
    cases b.isFed stream with
    | true => exact Received.noConfusion
    | false => exact Received.noConfusion
  rw [receive]
  cases hs : b.streams[stream]? with
  | none => exact Or.inr ⟨rfl, hnone⟩
  | some s =>
      obtain ⟨buffer, listening⟩ := s
      cases buffer with
      | nil => exact Or.inr ⟨rfl, hnone⟩
      | cons d rest =>
          obtain ⟨before, after, heq, hmod⟩ := exists_streams_eq hs
          have hset : b.streams.set stream ⟨rest, listening⟩ =
              before ++ ⟨rest, listening⟩ :: after := by
            rw [List.set_eq_modify]
            exact hmod fun _ => ⟨rest, listening⟩
          refine Or.inl ⟨d, _, rfl, ⟨fun _ => rfl, rfl, rfl, Nat.le_refl _, ?_⟩, ?_⟩
          · rw [buffered, buffered, hset, heq]
            simp only [List.flatMap_append, List.flatMap_cons, List.cons_append]
            exact (List.Sublist.refl _).append (List.sublist_cons_self d _)
          · rw [buffered, buffered, hset, heq]
            simp only [List.flatMap_append, List.flatMap_cons, List.cons_append]
            exact List.perm_middle

/-- What is received waited in a stream. -/
theorem mem_buffered {b : Broker} {stream : Nat} {d : Delivery}
    (h : (b.receive stream).2 = .delivery d) : d ∈ b.buffered := by
  rcases b.receive_cases stream with ⟨e, b', heq, -, hperm⟩ | ⟨-, hnone⟩
  · rw [heq] at h
    cases h
    exact hperm.mem_iff.2 List.mem_cons_self
  · exact absurd h (hnone d)

theorem quiet_receive (b : Broker) (stream : Nat) : Quiet b (b.receive stream).1 := by
  rcases receive_cases b stream with ⟨d, b', h, hq, -⟩ | ⟨h, -⟩
  · rw [h]
    exact hq
  · rw [h]
    exact Quiet.refl b

theorem quiet_dropStream (b : Broker) (stream : Nat) : Quiet b (b.dropStream stream) := by
  refine ⟨fun _ => rfl, rfl, rfl, Nat.le_refl _, ?_⟩
  rw [buffered, buffered, dropStream]
  cases hs : b.streams[stream]? with
  | none =>
      rw [List.modify_eq_self (List.getElem?_eq_none_iff.1 hs)]
  | some s =>
      obtain ⟨before, after, heq, hmod⟩ := exists_streams_eq hs
      dsimp only
      rw [hmod, heq]
      simp only [List.flatMap_append, List.flatMap_cons, List.nil_append]
      exact (List.Sublist.refl _).append (List.sublist_append_right _ _)

/-- A listened-to stream takes up all deliveries that are pushed into it. -/
theorem buffered_handOver {b : Broker} {c : Consumer} (h : b.isListening c.stream = true)
    (name : String) (q : Queue) (count : Nat) :
    (b.handOver name q c count).buffered.Perm
      (b.buffered ++ deliveries b.nextTag (q.ready.take count)) := by
  rw [isListening] at h
  cases hs : b.streams[c.stream]? with
  | none =>
      rw [hs] at h
      cases h
  | some s =>
      obtain ⟨before, after, heq, hmod⟩ := exists_streams_eq hs
      rw [buffered, handOver_streams, pushStream, hmod, buffered, heq]
      simp only [List.flatMap_append, List.flatMap_cons, List.append_assoc]
      refine List.Perm.append_left _ (List.Perm.append_left _ ?_)
      exact List.perm_append_comm

end Broker

/-! ### Policies -/

namespace Broker

/-- Which moves may be made. -/
structure Policy where
  /-- Which messages may arrive in which queue. -/
  arrive : String → Content → Prop
  /-- Which deliveries may be settled in which way. -/
  settle : Unacked → Fate → Prop
  /-- Which queues may be taken from. -/
  take : String → Prop

namespace Policy

/-- Every move may be made. -/
def any : Policy := ⟨fun _ _ => True, fun _ _ => True, fun _ => True⟩

/-- A call whose moves may be made. -/
def Allows (p : Policy) (b : Broker) : Call → Prop
  | .inject queue content => p.arrive queue content
  | .publish _ m => p.arrive m.queue m.content
  | .ack h => ∀ entry, b.unacked? h.generation h.tag = some entry → p.settle entry .acked
  | .nack h back => ∀ entry, b.unacked? h.generation h.tag = some entry →
      p.settle entry (if back then .returned else .discarded)
  | .take queue => p.take queue
  | _ => True

theorem any_allows (b : Broker) (c : Call) : any.Allows b c := by
  cases c with
  | ack h => exact fun _ _ => trivial
  | nack h back => exact fun _ _ => trivial
  | _ => exact trivial

end Policy

/-- A policy with rules on consumers and streams. -/
structure Rules extends Policy where
  /-- Which queues may get a new consumer. -/
  consume : String → Prop
  /-- Which streams may be received from or dropped. -/
  listen : Nat → Prop
  /-- Whether the broker, as it is, may become unreachable. -/
  vanish : Broker → Prop

/-- A policy without further rules. -/
def Policy.free (p : Policy) : Rules :=
  { p with consume := fun _ => True, listen := fun _ => True, vanish := fun _ => True }

/-- A call within rules. -/
def Rules.Allows (r : Rules) (b : Broker) : Call → Prop
  | .consume _ queue => r.consume queue
  | .receive stream => r.listen stream
  | .dropStream stream => r.listen stream
  | .setReachable reachable => reachable = true ∨ r.vanish b
  | c => r.toPolicy.Allows b c

theorem Policy.free_allows {p : Policy} {b : Broker} {c : Call} (h : p.Allows b c) :
    p.free.Allows b c := by
  cases c with
  | setReachable reachable => exact Or.inr trivial
  | _ => exact h

end Broker

/-! ### Moves -/

namespace Tracked

/-- Hands the first ready messages of a queue over to its consumer. -/
def handOver (t : Tracked) (name : String) (q : Broker.Queue) (c : Broker.Consumer) (count : Nat) :
    Tracked where
  broker := t.broker.handOver name q c count
  ledger := { t.ledger with handed := t.ledger.handed ++ t.broker.handed name q c count }

/-- One move within rules. -/
inductive Move (r : Broker.Rules) (t : Tracked) : Tracked → Prop where
  | enqueue {name : String} {content : Content} (h : r.arrive name content) :
      Move r t (t.enqueue name content)
  | handOver {name : String} {q : Broker.Queue} {c : Broker.Consumer} (count : Nat)
      (hq : t.broker.queue? name = some q) (hc : q.consumer = some c)
      (hl : t.broker.isListening c.stream = true) : Move r t (t.handOver name q c count)
  | forget {name : String} {q : Broker.Queue} {c : Broker.Consumer}
      (hq : t.broker.queue? name = some q) (hc : q.consumer = some c)
      (hl : t.broker.isListening c.stream = false) :
      Move r t (t.setBroker (t.broker.forget name))
  | settle {generation tag : Nat} {entry : Broker.Unacked} {fate : Fate}
      (he : t.broker.unacked? generation tag = some entry) (h : r.settle entry fate) :
      Move r t (t.settle tag entry fate)
  | close : Move r t t.close
  | take {name : String} (h : r.take name) : Move r t (t.take name)
  /-- The limits on publishing are set anew. -/
  | limit (budget closeAfter : Option Nat) :
      Move r t (t.setBroker { t.broker with budget, closeAfter })
  | reach {reachable : Bool} (h : reachable = true ∨ r.vanish t.broker) :
      Move r t (t.setBroker (t.broker.setReachable reachable))
  | declare (name : String) : Move r t (t.setBroker (t.broker.modify name id))
  | register {ch : Channel} {name : String} (h : r.consume name)
      (ho : t.broker.isOpen ch.generation = true) :
      Move r t (t.setBroker (t.broker.register ch name))
  | receive {stream : Nat} (h : r.listen stream) :
      Move r t (t.setBroker (t.broker.receive stream).1)
  | dropStream {stream : Nat} (h : r.listen stream) :
      Move r t (t.setBroker (t.broker.dropStream stream))

/-- A move within rules is within their policy. -/
theorem Move.free {r : Broker.Rules} {t t' : Tracked} (h : Move r t t') :
    Move r.toPolicy.free t t' := by
  cases h with
  | enqueue ha => exact .enqueue ha
  | handOver count hq hc hl => exact .handOver count hq hc hl
  | forget hq hc hl => exact .forget hq hc hl
  | settle he hs => exact .settle he hs
  | close => exact .close
  | take ht => exact .take ht
  | limit budget closeAfter => exact .limit budget closeAfter
  | reach hr => exact .reach (Or.inr trivial)
  | declare name => exact .declare name
  | register hc ho => exact .register trivial ho
  | receive hl => exact .receive trivial
  | dropStream hl => exact .dropStream trivial

/-- Several moves within rules, one after the other. -/
abbrev Moves (r : Broker.Rules) : Tracked → Tracked → Prop := Relation.ReflTransGen (Move r)

section Moves

open Relation.ReflTransGen (single)

variable {r : Broker.Rules}

/-- A dispatch leaves everything as it is, or it is one move. -/
theorem moves_dispatch (t : Tracked) (name : String) : Moves r t (t.dispatch name) := by
  -- Unless there are new entries, the ledger is left as it is.
  have hquiet : ∀ b, t.broker.dispatch name = b → b.unacked = t.broker.unacked →
      t.dispatch name = t.setBroker b := by
    intro b hb hu
    simp [dispatch, setBroker, Broker.dispatched, hb, hu]
  rcases t.broker.dispatch_cases name with h | ⟨q, c, hq, hc, hl, -, h⟩ | ⟨q, c, hq, hc, hl, h⟩
  · rw [hquiet _ h rfl]
    exact .refl
  · have hmove : t.dispatch name = t.handOver name q c (t.broker.room name q c) := by
      simp [dispatch, handOver, Broker.dispatched, h]
    rw [hmove]
    exact single (.handOver _ hq hc hl)
  · rw [hquiet _ h rfl]
    exact single (.forget hq hc hl)

theorem moves_countDown (t : Tracked) : Moves r t t.countDown := by
  rw [countDown]
  cases t.broker.closeAfter with
  | none => exact .refl
  | some left =>
      have hlimit : Moves r t (t.setBroker { t.broker with closeAfter := some (left - 1) }) :=
        single (.limit t.broker.budget (some (left - 1)))
      dsimp only
      by_cases hleft : left ≤ 1
      · rw [if_pos hleft]
        exact hlimit.tail .close
      · rw [if_neg hleft]
        exact hlimit

theorem moves_publish {t : Tracked} {ch : Channel} {m : Outbound}
    (h : r.arrive m.queue m.content) : Moves r t (t.publish ch m) := by
  rw [publish]
  by_cases ho : t.broker.isOpen ch.generation = true
  · rw [if_pos ho]
    by_cases hb : t.broker.budget = some 0
    · rw [if_pos hb]
    · rw [if_neg hb]
      have hcharge : Moves r t
          (t.setBroker { t.broker with budget := t.broker.budget.map (· - 1) }) :=
        single (.limit (t.broker.budget.map (· - 1)) t.broker.closeAfter)
      dsimp only
      cases Broker.queue? (t.setBroker _).broker m.queue with
      | none => exact hcharge
      | some q =>
          exact ((hcharge.tail (.enqueue h)).trans (moves_dispatch _ _)).trans (moves_countDown _)
  · rw [if_neg ho]

theorem moves_consume {t : Tracked} {ch : Channel} {name : String} (h : r.consume name) :
    Moves r t (t.consume ch name) := by
  rw [consume]
  by_cases ho : t.broker.isOpen ch.generation = true
  · rw [if_pos ho]
    cases t.broker.queue? name with
    | none => exact .refl
    | some q => exact (single (.register h ho)).trans (moves_dispatch _ name)
  · rw [if_neg ho]

theorem moves_settleHandle {t : Tracked} {handle : Handle} {fate : Fate}
    (h : ∀ entry, t.broker.unacked? handle.generation handle.tag = some entry →
      r.settle entry fate) : Moves r t (t.settleHandle handle fate) := by
  rw [settleHandle]
  by_cases ho : t.broker.isOpen handle.generation = true
  · rw [if_pos ho]
    cases he : t.broker.unacked? handle.generation handle.tag with
    | none => exact .refl
    | some entry => exact (single (.settle he (h entry he))).trans (moves_dispatch _ _)
  · rw [if_neg ho]

/-- Every call is put together from moves. -/
theorem moves_perform {t : Tracked} {c : Broker.Call} (h : r.Allows t.broker c) :
    Moves r t (t.perform c) := by
  cases c with
  | inject queue content => exact (single (.enqueue h)).trans (moves_dispatch _ queue)
  | take queue => exact single (.take h)
  | closeNow => exact single .close
  | closeAfterPublishes count =>
      rw [perform]
      by_cases hc : count = 0
      · rw [if_pos hc]
        exact single .close
      · rw [if_neg hc]
        exact single (.limit t.broker.budget (some count))
  | setReachable reachable => exact single (.reach h)
  | rejectAfter count => exact single (.limit (some count) t.broker.closeAfter)
  | acceptAll => exact single (.limit none t.broker.closeAfter)
  | declareQueue ch queue =>
      rw [perform, Broker.declareQueue]
      by_cases ho : t.broker.isOpen ch.generation = true
      · rw [if_pos ho]
        exact single (.declare queue)
      · rw [if_neg ho]
        exact .refl
  | consume ch queue => exact moves_consume h
  | publish ch m => exact moves_publish h
  | ack handle => exact moves_settleHandle h
  | nack handle back => exact moves_settleHandle h
  | receive stream => exact single (.receive h)
  | dropStream stream => exact single (.dropStream h)

/-- So are several calls in a row. -/
theorem moves_performAll {t : Tracked} {calls : List Broker.Call}
    (h : ∀ c ∈ calls, ∀ b, r.Allows b c) : Moves r t (t.performAll calls) := by
  induction calls generalizing t with
  | nil => exact .refl
  | cons c cs ih =>
      have hcs : ∀ d ∈ cs, ∀ b, r.Allows b d := fun d hd => h d (List.mem_cons_of_mem c hd)
      exact (moves_perform (h c List.mem_cons_self _)).trans (ih hcs)

/-- What every move keeps several moves keep. -/
theorem Moves.keep {P : Tracked → Prop} (hP : ∀ {t t'}, Move r t t' → P t → P t')
    {t t' : Tracked} (h : Moves r t t') (ht : P t) : P t' := by
  induction h with
  | refl => exact ht
  | tail _ hmove ih => exact hP hmove ih

end Moves

end Tracked

/-! ### What moves keep -/

namespace Broker

namespace Policy

/-- What the moves within a policy keep. -/
structure Keeps (p : Policy) (P : Tracked → Prop) : Prop where
  enqueue : ∀ {t : Tracked} {name content}, p.arrive name content → P t →
    P (t.enqueue name content)
  handOver : ∀ {t : Tracked} {name q c count}, t.broker.queue? name = some q →
    t.broker.isListening c.stream = true → P t →
    P (t.handOver name q c count)
  settle : ∀ {t : Tracked} {generation tag entry fate},
    t.broker.unacked? generation tag = some entry → p.settle entry fate → P t →
    P (t.settle tag entry fate)
  close : ∀ {t : Tracked}, P t → P t.close
  take : ∀ {t : Tracked} {name}, p.take name → P t → P (t.take name)
  quiet : ∀ {t : Tracked} {b}, Quiet t.broker b → P t → P (t.setBroker b)

namespace Keeps

variable {p : Policy} {P : Tracked → Prop} {t : Tracked}

/-- All moves but a few are quiet. -/
theorem move (hk : p.Keeps P) {t t' : Tracked} (hm : Tracked.Move p.free t t') (h : P t) :
    P t' := by
  cases hm with
  | enqueue ha => exact hk.enqueue ha h
  | handOver count hq hc hl => exact hk.handOver hq hl h
  | forget hq hc hl => exact hk.quiet (quiet_forget _ _) h
  | settle he hs => exact hk.settle he hs h
  | close => exact hk.close h
  | take ht => exact hk.take ht h
  | limit budget closeAfter => exact hk.quiet (.of_eq rfl rfl rfl rfl rfl) h
  | reach hr => exact hk.quiet (.of_eq rfl rfl rfl rfl rfl) h
  | declare name => exact hk.quiet (quiet_modify_consumer _ name id fun _ => rfl) h
  | register hc ho => exact hk.quiet (quiet_register _ _ _) h
  | receive hl => exact hk.quiet (quiet_receive _ _) h
  | dropStream hl => exact hk.quiet (quiet_dropStream _ _) h

/-- What the moves keep the calls keep. -/
theorem perform (hk : p.Keeps P) {c : Call} (ha : p.Allows t.broker c) (h : P t) :
    P (t.perform c) :=
  (Tracked.moves_perform (free_allows ha)).keep hk.move h

end Keeps

/-- What the moves keep is kept by any number of calls that are always within the policy. -/
theorem Keeps.performAll {p : Policy} {P : Tracked → Prop} (hk : p.Keeps P) {t : Tracked}
    {calls : List Call} (ha : ∀ c ∈ calls, ∀ b, p.Allows b c) (h : P t) :
    P (t.performAll calls) := by
  induction calls generalizing t with
  | nil => exact h
  | cons c cs ih =>
      have hc := hk.perform (ha c List.mem_cons_self _) h
      exact ih (fun d hd => ha d (List.mem_cons_of_mem c hd)) hc

end Policy

end Broker

end HashCalendar
