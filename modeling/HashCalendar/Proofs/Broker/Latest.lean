/-
**A message that is done with is not handed over again.**

A message may be handed over many times, each time under a new tag.  The delivery in which it is
unacknowledged, or in which it was acknowledged or discarded, is its latest one.  So once it was
acknowledged it is never handed over again, whatever is called.

Main definitions:

* `HashCalendar.Tracked.Latest` — deliveries that hold a message are its latest ones.

Main results:

* `HashCalendar.Tracked.Latest.perform` — **every call keeps them so**;
* `HashCalendar.Tracked.Latest.filter_handed` — an acknowledged message is not handed over again.
-/

import HashCalendar.Proofs.Broker.Conservation
import HashCalendar.Proofs.Broker.Growth

set_option relaxedAutoImplicit false
set_option autoImplicit false

namespace HashCalendar

namespace Tracked

/-- The deliveries that hold a message, or in which it was done with. -/
def holders (t : Tracked) : List Broker.Unacked :=
  t.broker.unacked ++ t.ledger.acked ++ t.ledger.discarded

/-- The deliveries that hold a message are the latest ones of their messages. -/
structure Latest (t : Tracked) : Prop where
  sound : t.Sound
  latest : ∀ u ∈ t.holders, ∀ v ∈ t.ledger.handed,
    v.message.serial = u.message.serial → v.tag ≤ u.tag

namespace Latest

variable {t : Tracked}

theorem empty : Latest {} where
  sound := sound_empty
  latest _ hu := absurd hu List.not_mem_nil

/-- Messages that are handed over get the largest tags. -/
theorem handOver (h : t.Latest) {name : String} {q : Broker.Queue} {c : Broker.Consumer}
    {count : Nat} (hq : t.broker.queue? name = some q)
    (hl : t.broker.isListening c.stream = true) : (t.handOver name q c count).Latest where
  sound := h.sound.handOver hq hl
  latest := by
    have hsound : (t.handOver name q c count).Sound := h.sound.handOver hq hl
    have hholders : ∀ u, u ∈ (t.handOver name q c count).holders ↔
        u ∈ t.holders ∨ u ∈ t.broker.handed name q c count := by
      intro u
      simp only [holders, Tracked.handOver, Broker.handOver_unacked, List.mem_append]
      tauto
    intro u hu v hv hserial
    rcases List.mem_append.1 hv with hv | hv
    · rcases (hholders u).1 hu with hu | hu
      · exact h.latest u hu v hv hserial
      · have hlt := h.sound.tags_below v hv
        have hle := (Broker.mem_handed hu).2.2.1
        omega
    · -- Both deliveries hold the message, and only one does.
      have hheld : v ∈ (t.handOver name q c count).holders := (hholders v).2 (Or.inr hv)
      exact Nat.le_of_eq (congrArg _ (hsound.eq_of_serial_eq hheld hu hserial))

/-- Settling a delivery takes it away or leaves it where it was done with. -/
theorem settle (h : t.Latest) {generation tag : Nat} {entry : Broker.Unacked} {fate : Fate}
    (he : t.broker.unacked? generation tag = some entry) : (t.settle tag entry fate).Latest where
  sound := h.sound.settle he fate
  latest := by
    have hmem : entry ∈ t.broker.unacked :=
      List.mem_of_find?_eq_some (Broker.unacked?_eq_some he).1
    have hholders : ∀ u ∈ (t.settle tag entry fate).holders, u ∈ t.holders := by
      intro u hu
      have hunacked : u ∈ (t.broker.dropUnacked tag).unacked → u ∈ t.broker.unacked :=
        List.mem_of_mem_filter
      simp only [holders, settle_unacked, List.mem_append] at hu ⊢
      cases fate with
      | acked =>
          simp only [Tracked.settle, Ledger.record, List.mem_append, List.mem_singleton] at hu
          rcases hu with (hu | hu | rfl) | hu
          · exact Or.inl (Or.inl (hunacked hu))
          · exact Or.inl (Or.inr hu)
          · exact Or.inl (Or.inl hmem)
          · exact Or.inr hu
      | discarded =>
          simp only [Tracked.settle, Ledger.record, List.mem_append, List.mem_singleton] at hu
          rcases hu with (hu | hu) | hu | rfl
          · exact Or.inl (Or.inl (hunacked hu))
          · exact Or.inl (Or.inr hu)
          · exact Or.inr hu
          · exact Or.inl (Or.inl hmem)
      | returned => exact hu.imp_left (Or.imp_left hunacked)
    intro u hu v hv hserial
    rw [settle_handed] at hv
    exact h.latest u (hholders u hu) v hv hserial

/-- Where nothing is handed over and fewer deliveries hold their messages, those are the latest
ones still. -/
theorem of_subset (h : t.Latest) {t' : Tracked} (hs : t'.Sound)
    (hh : t'.ledger.handed = t.ledger.handed) (hsub : t'.holders ⊆ t.holders) : t'.Latest where
  sound := hs
  latest u hu v hv hserial := h.latest u (hsub hu) v (hh ▸ hv) hserial

end Latest

/-- Every move keeps the holders of messages the latest deliveries. -/
theorem keeps_latest (p : Broker.Policy) : p.Keeps Latest where
  enqueue _ h := h.of_subset (h.sound.enqueue _ _) rfl (List.Subset.refl _)
  handOver hq hl h := h.handOver hq hl
  settle he _ h := h.settle he
  close := by
    intro t h
    refine h.of_subset h.sound.close rfl ?_
    intro u hu
    simp only [holders, Tracked.close, Broker.close_unacked, List.nil_append,
      List.mem_append] at hu ⊢
    exact hu.imp_left Or.inr
  take _ h := h.of_subset (h.sound.take _) rfl (by simp [holders, Tracked.take])
  quiet hb h := h.of_subset (h.sound.quiet hb) rfl (by simp [holders, setBroker, hb.unacked])

namespace Latest

variable {t : Tracked}

/-- Every call keeps the holders of messages the latest deliveries. -/
theorem perform (h : t.Latest) (c : Broker.Call) : (t.perform c).Latest :=
  (keeps_latest .any).perform (Broker.Policy.any_allows _ c) h

theorem performAll (h : t.Latest) (calls : List Broker.Call) : (t.performAll calls).Latest :=
  (keeps_latest .any).performAll (fun c _ b => Broker.Policy.any_allows b c) h

/-- A message that was acknowledged is not handed over again. -/
theorem filter_handed (h : t.Latest) {p : Broker.Policy} {l : Ledger} (hg : l.Grows p t.ledger)
    {u : Broker.Unacked} (hu : u ∈ l.acked) (hu' : u ∈ l.handed) :
    t.ledger.handed.filter (fun v => v.message.serial = u.message.serial) =
      l.handed.filter fun v => v.message.serial = u.message.serial := by
  obtain ⟨more, heq, -⟩ := hg.handed
  have hholder : u ∈ t.holders :=
    List.mem_append_left _ (List.mem_append_right _ (hg.acked.mem hu))
  have hmore : more.filter (fun v => v.message.serial = u.message.serial) = [] := by
    refine List.filter_eq_nil_iff.2 ?_
    intro v hv
    have hincrease := h.sound.tags_increase
    rw [heq] at hincrease
    have hlt := (List.pairwise_append.1 hincrease).2.2 u hu' v hv
    have hle := h.latest u hholder v (heq ▸ List.mem_append_right _ hv)
    simp only [decide_eq_true_eq]
    intro hserial
    have := hle hserial
    omega
  rw [heq, List.filter_append, hmore, List.append_nil]

end Latest

end Tracked

end HashCalendar
