/-
**What the calls of a batch do.**

Of the calls by which a batch is published and settled each does at most one thing: it enqueues the
next message, or it acknowledges the next delivery.  So the messages that were enqueued are the
first ones of their list, in their order.

Main definitions:

* `HashCalendar.Progress.enqueues?`, `HashCalendar.Progress.acks?` — the message that the next call
  enqueues, and the delivery that it acknowledges;
* `HashCalendar.Progress.outstanding` — the deliveries that are still to be settled;
* `HashCalendar.Ledger.HoldsPrefix` — messages were enqueued as the first ones of a list.

Main results:

* `HashCalendar.Progress.enqueue_cases`, `HashCalendar.Progress.ack_cases`,
  `HashCalendar.Progress.settle_cases` — **all that the next call can do**.
-/

import HashCalendar.Proofs.Batch.Steps
import HashCalendar.Proofs.Broker.Growth
import HashCalendar.Proofs.Lists

set_option relaxedAutoImplicit false
set_option autoImplicit false

namespace HashCalendar

namespace Tracked

/-- Acknowledging settles an unacknowledged delivery of the tag and the connection of the handle, or
it does nothing. -/
theorem ack_cases (t : Tracked) (handle : Handle) :
    (∃ u ∈ t.broker.unacked, u.tag = handle.tag ∧ u.generation = handle.generation ∧
        (t.broker.ack handle).2 = .ok () ∧
        (t.settleHandle handle .acked).ledger.acked = t.ledger.acked ++ [u]) ∨
      ∃ e, (t.broker.ack handle).2 = .error e ∧ t.settleHandle handle .acked = t := by
  rw [settleHandle, Broker.ack]
  by_cases ho : t.broker.isOpen handle.generation = true
  · rw [if_pos ho, if_pos ho]
    cases hu : t.broker.unacked? handle.generation handle.tag with
    | none => exact Or.inr ⟨_, rfl, rfl⟩
    | some u =>
        have hmem := List.mem_of_find?_eq_some (Broker.unacked?_eq_some hu).1
        exact Or.inl ⟨u, hmem, Broker.tag_of_unacked? hu, (Broker.unacked?_eq_some hu).2, rfl, rfl⟩
  · rw [if_neg ho, if_neg ho]
    exact Or.inr ⟨_, rfl, rfl⟩

end Tracked

namespace Progress

/-! ### Messages that are enqueued -/

/-- The serial number under which the next message of a batch is enqueued, if the next call enqueues
it. -/
def enqueues? (ch : Channel) (b : Broker) : Progress → Option Nat
  | .publishing (m :: _) =>
    match (b.publish ch m).2 with
    | .ok () => some b.nextSerial
    | .error _ => none
  | _ => none

/-- The next call enqueues the next message, or it enqueues nothing. -/
theorem enqueue_cases (p : Progress) (ch : Channel) (t : Tracked) :
    (∃ m ms, p = .publishing (m :: ms) ∧ (t.broker.publish ch m).2 = .ok () ∧
        p.enqueues? ch t.broker = some t.broker.nextSerial ∧
        (t.performAll (p.call? ch).toList).ledger.arrived =
          t.ledger.arrived ++ [(m.queue, m.content)]) ∨
      (p.enqueues? ch t.broker = none ∧
        (t.performAll (p.call? ch).toList).ledger.arrived = t.ledger.arrived) := by
  cases p with
  | publishing left =>
      cases left with
      | nil => exact Or.inr ⟨rfl, rfl⟩
      | cons m ms =>
          rcases t.publish_cases ch m with ⟨hok, harrived⟩ | ⟨e, herror, harrived⟩
          · refine Or.inl ⟨m, ms, rfl, hok, ?_, harrived⟩
            rw [enqueues?, hok]
          · refine Or.inr ⟨?_, harrived⟩
            rw [enqueues?, herror]
  | acking left count =>
      refine Or.inr ⟨rfl, ?_⟩
      cases left with
      | nil => rfl
      | cons handle rest =>
          have hgrows := Ledger.Grows.perform (Broker.Policy.only_allows_ack t.broker handle)
          exact hgrows.arrived.eq_of_forall_not fun _ => not_false
  | returning left =>
      refine Or.inr ⟨rfl, ?_⟩
      cases left with
      | nil => rfl
      | cons handle rest =>
          have hgrows := Ledger.Grows.perform (Broker.Policy.only_allows_nack t.broker handle true)
          exact hgrows.arrived.eq_of_forall_not fun _ => not_false
  | settled outcome => exact Or.inr ⟨rfl, rfl⟩

/-! ### Deliveries that are acknowledged -/

/-- The tag of the delivery that the next call acknowledges, if it acknowledges one. -/
def acks? (b : Broker) : Progress → Option Nat
  | .acking (h :: _) _ =>
    match (b.ack h).2 with
    | .ok () => some h.tag
    | .error _ => none
  | _ => none

/-- The next call acknowledges the next delivery, or it acknowledges nothing. -/
theorem ack_cases (p : Progress) (ch : Channel) (t : Tracked) :
    (∃ h hs count, ∃ u ∈ t.broker.unacked, p = .acking (h :: hs) count ∧ u.tag = h.tag ∧
        (t.broker.ack h).2 = .ok () ∧ p.acks? t.broker = some h.tag ∧
        (t.performAll (p.call? ch).toList).ledger.acked = t.ledger.acked ++ [u]) ∨
      (p.acks? t.broker = none ∧
        (t.performAll (p.call? ch).toList).ledger.acked = t.ledger.acked) := by
  cases p with
  | publishing left =>
      refine Or.inr ⟨rfl, ?_⟩
      cases left with
      | nil => rfl
      | cons m ms =>
          have hallows : Broker.Policy.bring.Allows t.broker (.publish ch m) := trivial
          exact (Ledger.Grows.perform hallows).acked.eq_of_forall_not fun _ => not_false
  | acking left count =>
      cases left with
      | nil => exact Or.inr ⟨rfl, rfl⟩
      | cons h hs =>
          rcases t.ack_cases h with ⟨u, hu, htag, -, hok, hacked⟩ | ⟨e, herror, hsame⟩
          · refine Or.inl ⟨h, hs, count, u, hu, rfl, htag, hok, ?_, hacked⟩
            rw [acks?, hok]
          · refine Or.inr ⟨?_, congrArg (fun t => t.ledger.acked) hsame⟩
            rw [acks?, herror]
  | returning left =>
      refine Or.inr ⟨rfl, ?_⟩
      cases left with
      | nil => rfl
      | cons h hs =>
          have hgrows := Ledger.Grows.perform (Broker.Policy.only_allows_nack t.broker h true)
          refine hgrows.acked.eq_of_forall_not ?_
          rintro u ⟨hfate, -⟩
          cases hfate
  | settled outcome => exact Or.inr ⟨rfl, rfl⟩

/-! ### Deliveries that are still to be settled -/

/-- The deliveries of a batch that are still to be settled. -/
def outstanding (handles : List Handle) : Progress → List Handle
  | .publishing _ => handles
  | .acking left _ => left
  | .returning left => left
  | .settled _ => []

/-- The next call publishes, if there is one, and all deliveries are still to be settled that were
so before, or it settles the first of them. -/
theorem settle_cases (p : Progress) (ch : Channel) (handles : List Handle) (t : Tracked) :
    ((∀ c ∈ (p.call? ch).toList, ∃ m, c = .publish ch m) ∧
        (p.next ch handles t.broker).outstanding handles = p.outstanding handles) ∨
      ∃ h rest fate, p.outstanding handles = h :: rest ∧
        (p.next ch handles t.broker).outstanding handles = rest ∧
        t.performAll (p.call? ch).toList = t.settleHandle h fate := by
  cases p with
  | publishing left =>
      left
      cases left with
      | nil => exact ⟨by simp [call?], rfl⟩
      | cons m ms =>
          refine ⟨fun c hc => ⟨m, by simpa [call?] using hc⟩, ?_⟩
          rw [next]
          cases (t.broker.publish ch m).2 with
          | ok u => rfl
          | error e => rfl
  | acking left count =>
      cases left with
      | nil => exact Or.inl ⟨by simp [call?], rfl⟩
      | cons h hs =>
          refine Or.inr ⟨h, hs, .acked, rfl, ?_, rfl⟩
          rw [next]
          cases (t.broker.ack h).2 with
          | ok u => rfl
          | error e => rfl
  | returning left =>
      cases left with
      | nil => exact Or.inl ⟨by simp [call?], rfl⟩
      | cons h hs => exact Or.inr ⟨h, hs, .returned, rfl, rfl, rfl⟩
  | settled outcome => exact Or.inl ⟨by simp [call?], rfl⟩

end Progress

/-! ### The first messages of a list -/

/-- Messages with the given serial numbers were enqueued, in this order, as the first ones of a
list. -/
structure Ledger.HoldsPrefix (l : Ledger) (sent : List Nat) (messages : List Outbound) : Prop where
  increasing : sent.Pairwise fun m n => m < n
  arrived : ∀ k n : Nat, sent[k]? = some n →
    ∃ m, messages[k]? = some m ∧ l.arrived[n]? = some (m.queue, m.content)

namespace Ledger.HoldsPrefix

variable {l l' : Ledger} {sent : List Nat} {messages : List Outbound}

theorem nil (l : Ledger) (messages : List Outbound) : l.HoldsPrefix [] messages where
  increasing := List.Pairwise.nil
  arrived := by simp

theorem mono {p : Broker.Policy} (h : l.HoldsPrefix sent messages) (hg : l.Grows p l') :
    l'.HoldsPrefix sent messages where
  increasing := h.increasing
  arrived k n hn := by
    obtain ⟨m, hm, harrived⟩ := h.arrived k n hn
    exact ⟨m, hm, hg.arrived.getElem? harrived⟩

theorem lt_of_mem (h : l.HoldsPrefix sent messages) {n : Nat} (hn : n ∈ sent) :
    n < l.arrived.length := by
  obtain ⟨k, hk⟩ := List.mem_iff_getElem?.1 hn
  obtain ⟨m, -, harrived⟩ := h.arrived k n hk
  exact (List.getElem?_eq_some_iff.1 harrived).1

theorem length_le (h : l.HoldsPrefix sent messages) : sent.length ≤ messages.length := by
  by_contra hlt
  obtain ⟨m, hm, -⟩ := h.arrived messages.length _
    (List.getElem?_eq_getElem (show messages.length < sent.length by omega))
  have := (List.getElem?_eq_some_iff.1 hm).1
  omega

/-- One more message of the list is enqueued. -/
theorem concat (h : l.HoldsPrefix sent messages) {m : Outbound}
    (hm : messages[sent.length]? = some m)
    (hl : l'.arrived = l.arrived ++ [(m.queue, m.content)]) :
    l'.HoldsPrefix (sent ++ [l.arrived.length]) messages := by
  constructor
  case increasing =>
    refine List.pairwise_append.2 ⟨h.increasing, List.pairwise_singleton _ _, ?_⟩
    intro n hn k hk
    rw [List.mem_singleton.1 hk]
    exact h.lt_of_mem hn
  case arrived =>
    intro k n hn
    rw [hl]
    by_cases hk : k < sent.length
    · rw [List.getElem?_append_left hk] at hn
      obtain ⟨m', hm', harrived⟩ := h.arrived k n hn
      have hlt := (List.getElem?_eq_some_iff.1 harrived).1
      exact ⟨m', hm', (List.getElem?_append_left hlt).trans harrived⟩
    · have hlen := (List.getElem?_eq_some_iff.1 hn).1
      rw [List.length_append, List.length_singleton] at hlen
      obtain rfl : k = sent.length := by omega
      rw [List.getElem?_concat_length] at hn
      cases hn
      exact ⟨m, hm, List.getElem?_concat_length⟩

/-- A list that was enqueued as a whole is enqueued as it stands. -/
theorem exists_sent (h : l.HoldsPrefix sent messages) (hlen : sent.length = messages.length)
    {k : Nat} {m : Outbound} (hm : messages[k]? = some m) :
    ∃ n, sent[k]? = some n ∧ l.arrived[n]? = some (m.queue, m.content) := by
  have hlt : k < sent.length := hlen ▸ (List.getElem?_eq_some_iff.1 hm).1
  obtain ⟨m', hm', harrived⟩ := h.arrived k _ (List.getElem?_eq_getElem hlt)
  obtain rfl : m = m' := Option.some.inj (hm.symm.trans hm')
  exact ⟨_, List.getElem?_eq_getElem hlt, harrived⟩

end Ledger.HoldsPrefix

end HashCalendar
