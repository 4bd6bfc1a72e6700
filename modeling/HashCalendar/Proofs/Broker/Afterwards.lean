/-
**What becomes of a message after a delivery of it.**

A message of which a delivery was acknowledged is nowhere in the broker any more.  A delivery that
is over in another way, because it was given back or because its connection closed, leaves its
message in its queue; there it waits until it is handed over again, under a later tag, or taken out.

Main definitions:

* `HashCalendar.Broker.IsGone` — the message of a delivery is not in the broker any more;
* `HashCalendar.Tracked.CameBack` — the message of a delivery has come back to its queue;
* `HashCalendar.Broker.IsBack` — it is still in the broker, waiting or under a new tag.

Main results:

* `HashCalendar.Tracked.Sound.isGone` — **what is acknowledged is gone**;
* `HashCalendar.Tracked.Latest.cameBack` — **what is over and not done with has come back**;
* `HashCalendar.Tracked.Latest.isBack` — and unless something else happened to it, it is back.
-/

import HashCalendar.Proofs.Broker.Latest

set_option relaxedAutoImplicit false
set_option autoImplicit false

namespace HashCalendar

namespace Broker

/-- The message of a delivery is not in the broker any more. -/
def IsGone (b : Broker) (u : Unacked) : Prop :=
  (∀ name, ∀ m ∈ b.ready name, m.serial ≠ u.message.serial) ∧
    ∀ v ∈ b.unacked, v.message.serial ≠ u.message.serial

/-- The message of a delivery is back in the broker: it waits in its queue, or it is unacknowledged
under a tag that is larger than all that had been handed out before. -/
def IsBack (b : Broker) (before : Ledger) (u : Unacked) : Prop :=
  (∃ m ∈ b.ready u.queue, m.serial = u.message.serial) ∨
    ∃ v ∈ b.unacked, v.message.serial = u.message.serial ∧ ∀ w ∈ before.handed, w.tag < v.tag

end Broker

namespace Tracked

/-- The message of a delivery has come back to its queue: it waits there, or it was handed over
again under a later tag or taken out. -/
def CameBack (t : Tracked) (u : Broker.Unacked) : Prop :=
  (∃ m ∈ t.broker.ready u.queue, m.serial = u.message.serial) ∨
  (∃ v ∈ t.ledger.handed, v.message.serial = u.message.serial ∧ u.tag < v.tag) ∨
  ∃ p ∈ t.ledger.taken, p.2.serial = u.message.serial

variable {t t' : Tracked} {u : Broker.Unacked}

/-- A delivery is a copy of its message in a list of deliveries. -/
theorem copies_message_pos {entries : List Broker.Unacked} (hu : u ∈ entries) :
    0 < copies u.message.serial (entries.map Broker.Unacked.message) :=
  copies_pos (List.mem_map_of_mem hu) rfl

/-- What is acknowledged is gone. -/
theorem Sound.isGone (h : t.Sound) (hu : u ∈ t.ledger.acked) : t.broker.IsGone u := by
  have hown := h.handed_own u (h.mem_handed_of_acked hu)
  have hone := h.one_place _ _ _ hown
  have hcopy := copies_message_pos hu
  rw [places] at hone
  constructor
  · intro name m hm hserial
    rw [h.queue_of_ready hown hm hserial] at hm
    have := copies_pos hm hserial
    omega
  · intro v hv hserial
    have := copies_message_pos hv
    rw [hserial] at this
    omega

/-- An unacknowledged message was neither taken out nor done with. -/
theorem Sound.not_done_of_unacked (h : t.Sound) (hu : u ∈ t.broker.unacked) :
    (∀ p ∈ t.ledger.taken, p.2.serial ≠ u.message.serial) ∧
      ∀ v ∈ t.ledger.acked ++ t.ledger.discarded, v.message.serial ≠ u.message.serial := by
  have hone := h.one_place _ _ _ (h.handed_own u (h.mem_handed_of_unacked hu))
  have hcopy := copies_message_pos hu
  rw [places] at hone
  constructor
  · intro p hp hserial
    have := copies_pos (List.mem_map_of_mem (f := Prod.snd) hp) hserial
    omega
  · intro v hv hserial
    have := copies_message_pos hv
    rw [hserial, List.map_append, copies_append] at this
    omega

/-- A message of which a delivery does not hold it any more waits, or a later delivery holds it, or
it was taken out. -/
theorem Latest.whereabouts (h : t.Latest) (hu : u ∈ t.ledger.handed) (hout : u ∉ t.holders) :
    (∃ m ∈ t.broker.ready u.queue, m.serial = u.message.serial) ∨
      (∃ v ∈ t.holders, v.message.serial = u.message.serial ∧ u.tag < v.tag) ∨
      ∃ p ∈ t.ledger.taken, p.2.serial = u.message.serial := by
  have hone := h.sound.one_place _ _ _ (h.sound.handed_own u hu)
  by_cases hholder : ∃ v ∈ t.holders, v.message.serial = u.message.serial
  · obtain ⟨v, hv, hserial⟩ := hholder
    -- The delivery that holds a message is its latest one, so it is a later one.
    refine Or.inr (Or.inl ⟨v, hv, hserial, Nat.lt_of_le_of_ne ?_ ?_⟩)
    · exact h.latest v hv u hu hserial.symm
    · intro htag
      exact hout (h.sound.eq_of_tag_eq hu (h.sound.mem_handed_of_held hv) htag ▸ hv)
  · have hnone : copies u.message.serial (t.holders.map Broker.Unacked.message) = 0 := by
      refine copies_eq_zero ?_
      intro m hm
      obtain ⟨v, hv, rfl⟩ := List.mem_map.1 hm
      exact fun hserial => hholder ⟨v, hv, hserial⟩
    rw [holders, List.map_append, List.map_append, copies_append, copies_append] at hnone
    rw [places] at hone
    by_cases hready : 0 < copies u.message.serial (t.broker.ready u.queue)
    · exact Or.inl (exists_of_copies_pos hready)
    · have htaken : 0 < copies u.message.serial (t.ledger.taken.map Prod.snd) := by omega
      obtain ⟨m, hm, hserial⟩ := exists_of_copies_pos htaken
      obtain ⟨p, hp, rfl⟩ := List.mem_map.1 hm
      exact Or.inr (Or.inr ⟨p, hp, hserial⟩)

/-- The message of a delivery that does not hold it any more has come back to its queue. -/
theorem Latest.cameBack (h : t.Latest) (hu : u ∈ t.ledger.handed) (hout : u ∉ t.holders) :
    t.CameBack u := by
  rcases h.whereabouts hu hout with hready | ⟨v, hv, hlater⟩ | htaken
  · exact Or.inl hready
  · exact Or.inr (Or.inl ⟨v, h.sound.mem_handed_of_held hv, hlater⟩)
  · exact Or.inr (Or.inr htaken)

/-- An unacknowledged message that is no longer so under its tag is back, if nothing was taken out,
acknowledged or discarded in the meantime. -/
theorem Latest.isBack (h : t.Latest) (h' : t'.Latest) {p : Broker.Policy}
    (hg : t.ledger.Grows p t'.ledger) (hacked : t'.ledger.acked = t.ledger.acked)
    (hdiscarded : t'.ledger.discarded = t.ledger.discarded)
    (htaken : t'.ledger.taken = t.ledger.taken) (hu : u ∈ t.broker.unacked)
    (hu' : u ∉ t'.broker.unacked) : t'.broker.IsBack t.ledger u := by
  obtain ⟨hnottaken, hnotdone⟩ := h.sound.not_done_of_unacked hu
  have hhanded := h.sound.mem_handed_of_unacked hu
  have hdone : ∀ v ∈ t'.ledger.acked ++ t'.ledger.discarded,
      v.message.serial ≠ u.message.serial := by
    rw [hacked, hdiscarded]
    exact hnotdone
  have hunacked : ∀ v ∈ t'.holders, v.message.serial = u.message.serial →
      v ∈ t'.broker.unacked := by
    intro v hv hserial
    rw [holders, List.append_assoc] at hv
    exact (List.mem_append.1 hv).resolve_right fun hv => hdone v hv hserial
  have hout : u ∉ t'.holders := fun hmem => hu' (hunacked u hmem rfl)
  rcases h'.whereabouts (hg.handed.mem hhanded) hout with
    hready | ⟨v, hv, hserial, hlt⟩ | ⟨p, hp, hserial⟩
  · exact Or.inl hready
  · refine Or.inr ⟨v, hunacked v hv hserial, hserial, ?_⟩
    -- It was not handed over before, where the message was unacknowledged already.
    obtain ⟨more, heq, -⟩ := hg.handed
    have hmem := h'.sound.mem_handed_of_held hv
    have hincrease := h'.sound.tags_increase
    rw [heq] at hmem hincrease
    rcases List.mem_append.1 hmem with hold | hnew
    · have hle := h.latest u (List.mem_append_left _ (List.mem_append_left _ hu)) v hold hserial
      omega
    · exact fun w hw => (List.pairwise_append.1 hincrease).2.2 w hw v hnew
  · exact absurd hserial (hnottaken p (htaken ▸ hp))

end Tracked

theorem latest_trackedRun (calls : List Broker.Call) : (trackedRun calls).Latest :=
  Tracked.Latest.empty.performAll calls

end HashCalendar
