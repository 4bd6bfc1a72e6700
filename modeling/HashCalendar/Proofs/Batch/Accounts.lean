/-
**Keeping account of deliveries.**

Of the deliveries of a batch some are still to be settled, or could not be; they are unacknowledged,
or were lost with their connection.  All others are over.  Whoever settles them one after the other
can say how many were acknowledged, and which are left: a delivery is left only if the broker was
out of reach when it was to be settled, since a call that is refused on another ground is for a
delivery whose connection has closed.

Main definitions:

* `HashCalendar.Outcome.Holds` — what an outcome says about deliveries is true;
* `HashCalendar.Broker.misses` — whether a call misses its delivery;
* `HashCalendar.Tracked.Accounts` — what is known of deliveries that are settled one after the
  other.

Main results:

* `HashCalendar.Tracked.Accounts.spared` — **calls that settle none of the deliveries change
  nothing**;
* `HashCalendar.Tracked.Accounts.settleNext` — **settling the next of them gets it done or leaves
  it**;
* `HashCalendar.Tracked.Accounts.holds` — once nothing is unacknowledged, the numbers make a true
  outcome.
-/

import HashCalendar.Proofs.Batch.Faults

set_option relaxedAutoImplicit false
set_option autoImplicit false

namespace HashCalendar

/-! ### Outcomes -/

namespace Outcome

/-- The number of deliveries that count as acknowledged. -/
def acknowledged : Outcome → Nat
  | .acked count => count
  | .rejected _ => 0
  | .abandoned count _ => count

/-- The number of deliveries whose messages are to come back. -/
def returned : Outcome → Nat
  | .acked _ => 0
  | .rejected count => count
  | .abandoned _ count => count

/-- What an outcome says about deliveries is true: as many of them as count as acknowledged are
gone, and all others have come back to their queues and are not unacknowledged any more. -/
def Holds (t : Tracked) (us : List Broker.Unacked) (outcome : Outcome) : Prop :=
  ∃ gone back : List Broker.Unacked, (gone ++ back).Perm us ∧
    gone.length = outcome.acknowledged ∧ back.length = outcome.returned ∧
    (∀ u ∈ gone, t.broker.IsGone u) ∧
    ∀ u ∈ back, t.CameBack u ∧ u ∉ t.broker.unacked

/-- After a true outcome nothing is unacknowledged. -/
theorem Holds.not_mem_unacked {t : Tracked} {us : List Broker.Unacked} {outcome : Outcome}
    (h : outcome.Holds t us) {u : Broker.Unacked} (hu : u ∈ us) : u ∉ t.broker.unacked := by
  obtain ⟨gone, back, hperm, -, -, hgone, hback⟩ := h
  rcases List.mem_append.1 (hperm.mem_iff.2 hu) with hu | hu
  · exact fun hunacked => (hgone u hu).2 u hunacked rfl
  · exact (hback u hu).2

end Outcome

/-- Whether a call that is to settle a delivery is refused although the connection of the delivery
is there. -/
def Broker.misses (b : Broker) (h : Handle) : Bool :=
  !b.reachable && h.generation = b.generation

/-- Notes down a delivery whose call is refused so. -/
def Broker.note (b : Broker) (missed : List Handle) (h : Handle) : List Handle :=
  if b.misses h then missed ++ [h] else missed

theorem Broker.note_of_reachable {b : Broker} (hb : b.reachable = true) (missed : List Handle)
    (h : Handle) : b.note missed h = missed := by
  rw [note, misses, hb]
  rfl

/-- Of distinct items one more is in a list. -/
theorem countP_mem_succ {α : Type} [DecidableEq α] {items xs ys : List α} (h : items.Nodup) {a : α}
    (ha : a ∈ items) (hx : a ∉ xs) (hy : a ∈ ys) (hother : ∀ b ∈ items, b ≠ a → (b ∈ ys ↔ b ∈ xs)) :
    items.countP (· ∈ ys) = items.countP (· ∈ xs) + 1 := by
  have hperm := List.perm_cons_erase ha
  rw [hperm.countP_eq, hperm.countP_eq, List.countP_cons_of_pos (by simpa using hy),
    List.countP_cons_of_neg (by simpa using hx)]
  congr 1
  refine List.countP_congr ?_
  intro b hb
  have hne : b ≠ a := fun heq => h.not_mem_erase (heq ▸ hb)
  simpa using hother b (List.mem_of_mem_erase hb) hne

/-! ### Deliveries of earlier connections -/

namespace Tracked

/-- What is unacknowledged is of the connection that there is, and what was lost is of an earlier
one. -/
structure Dated (t : Tracked) : Prop where
  current : t.Current
  lost : ∀ u ∈ t.ledger.lost, u.generation < t.broker.generation

theorem Dated.move {r : Broker.Rules} {t t' : Tracked} (hm : Move r t t') (h : t.Dated) :
    t'.Dated where
  current := h.current.move hm
  lost := by
    have hle := hm.generation_le
    have hold : ∀ u ∈ t.ledger.lost, u.generation < t'.broker.generation := fun u hu =>
      Nat.lt_of_lt_of_le (h.lost u hu) hle
    cases hm with
    | close =>
        intro u hu
        rcases List.mem_append.1 hu with hu | hu
        · exact hold u hu
        · rw [h.current.unacked u hu, Tracked.close, Broker.close_generation]
          exact Nat.lt_succ_self _
    | @settle generation tag entry fate he hs =>
        intro u hu
        refine hold u ?_
        cases fate with
        | acked => exact hu
        | discarded => exact hu
        | returned => exact hu
    | _ => exact hold

/-- A broker stays within reach unless it may vanish. -/
theorem Move.reachable {r : Broker.Rules} {t t' : Tracked} (hm : Move r t t')
    (hv : ∀ b, ¬ r.vanish b) (h : t.broker.reachable = true) : t'.broker.reachable = true := by
  cases hm with
  | reach hr => exact hr.resolve_right (hv _)
  | settle he hs => rwa [settle_reachable]
  | close => rwa [Tracked.close, Broker.close_reachable]
  | take ht => rwa [Tracked.take, Broker.take_eq]
  | receive hl => rwa [setBroker_broker, t.broker.receive_eq]
  | _ => exact h

/-- A delivery that nobody has settled: it is unacknowledged, or it was lost with its connection. -/
def Unsettled (t : Tracked) (u : Broker.Unacked) : Prop :=
  u ∈ t.broker.unacked ∨ u ∈ t.ledger.lost

/-- What moves do not settle stays unsettled. -/
theorem Unsettled.moves {r : Broker.Rules} {t t' : Tracked} {u : Broker.Unacked}
    (h : t.Unsettled u) (hs : t.Sound) (hm : Moves r t t') (hr : ∀ fate, ¬ r.settle u fate) :
    t'.Unsettled u := by
  rcases h with hunacked | hlost
  · exact (Moves.unacked_or_lost hm hs hunacked hr).imp_right And.left
  · exact Or.inr ((Moves.grows hm).lost.mem hlost)

/-- What nobody has settled was neither acknowledged nor discarded. -/
theorem Sound.not_mem_of_unsettled {t : Tracked} (h : t.Sound) {u : Broker.Unacked}
    (hu : t.Unsettled u) : u ∉ t.ledger.acked ∧ u ∉ t.ledger.discarded := by
  have hnodup := h.fates.nodup_iff.1 (List.Nodup.of_map _ h.handed_tags)
  have hone := List.nodup_iff_count_le_one.1 hnodup u
  simp only [Ledger.ended, List.count_append] at hone
  have hpos : 0 < t.broker.unacked.count u + t.ledger.lost.count u := by
    rcases hu with hu | hu
    · have := List.count_pos_iff.2 hu
      omega
    · have := List.count_pos_iff.2 hu
      omega
  constructor
  · intro hacked
    have := List.count_pos_iff.2 hacked
    omega
  · intro hdiscarded
    have := List.count_pos_iff.2 hdiscarded
    omega

/-- What was handed over and is unacknowledged was never over. -/
theorem Sound.mem_unacked_of_grows {p : Broker.Policy} {t t' : Tracked} (h : t.Sound)
    (h' : t'.Sound) (hg : t.ledger.Grows p t'.ledger) {u : Broker.Unacked}
    (hu : u ∈ t.ledger.handed) (hu' : u ∈ t'.broker.unacked) : u ∈ t.broker.unacked := by
  by_contra hout
  have hended : u ∈ t.ledger.ended :=
    (List.mem_append.1 (h.fates.mem_iff.1 hu)).resolve_left hout
  exact h'.not_mem_unacked (hg.ended_sublist.mem hended) hu'

/-! ### Deliveries that are settled one after the other -/

/-- What is known of deliveries: those that are left are unsettled, all others are over, and so many
of them were acknowledged. -/
structure Accounts (t : Tracked) (us : List Broker.Unacked) (left : List Handle) (acked : Nat) :
    Prop where
  latest : t.Latest
  dated : t.Dated
  nodup : us.Nodup
  handed : ∀ u ∈ us, u ∈ t.ledger.handed
  undiscarded : ∀ u ∈ us, u ∉ t.ledger.discarded
  distinct : left.Nodup
  unsettled : ∀ h ∈ left, ∃ u ∈ us, u.handle = h ∧ t.Unsettled u
  unacked : ∀ u ∈ us, u ∈ t.broker.unacked → u.handle ∈ left
  acked : us.countP (· ∈ t.ledger.acked) = acked

namespace Accounts

variable {t t' : Tracked} {us : List Broker.Unacked} {h : Handle} {left left' : List Handle}
  {acked : Nat}

theorem sound (ha : t.Accounts us left acked) : t.Sound := ha.latest.sound

theorem eq_of_handle_eq (ha : t.Accounts us left acked) {u v : Broker.Unacked} (hu : u ∈ us)
    (hv : v ∈ us) (heq : u.handle = v.handle) : u = v :=
  ha.sound.eq_of_tag_eq (ha.handed u hu) (ha.handed v hv) (congrArg Handle.tag heq)

/-- The order in which deliveries are left does not matter. -/
theorem perm (ha : t.Accounts us left acked) (hp : left.Perm left') : t.Accounts us left' acked :=
  { ha with
    distinct := hp.nodup_iff.1 ha.distinct
    unsettled := fun h hh => ha.unsettled h (hp.mem_iff.2 hh)
    unacked := fun u hu hunacked => hp.mem_iff.1 (ha.unacked u hu hunacked) }

/-- Moves that settle none of the deliveries change nothing. -/
theorem spared {r : Broker.Rules} (ha : t.Accounts us left acked) (hm : Moves r t t')
    (hr : ∀ u ∈ us, ∀ fate, ¬ r.settle u fate) : t'.Accounts us left acked := by
  have hgrows := Moves.grows hm
  have hlatest : t'.Latest := hm.keep (fun hm => (keeps_latest r.toPolicy).move hm.free) ha.latest
  constructor
  case latest => exact hlatest
  case dated => exact hm.keep Dated.move ha.dated
  case nodup => exact ha.nodup
  case handed => exact fun u hu => hgrows.handed.mem (ha.handed u hu)
  case undiscarded =>
    intro u hu hdiscarded
    rcases hgrows.discarded.mem_or hdiscarded with hold | hnew
    · exact ha.undiscarded u hu hold
    · exact hr u hu _ hnew
  case distinct => exact ha.distinct
  case unsettled =>
    intro h hh
    obtain ⟨u, hu, heq, hunsettled⟩ := ha.unsettled h hh
    exact ⟨u, hu, heq, hunsettled.moves ha.sound hm (hr u hu)⟩
  case unacked =>
    intro u hu hunacked
    exact ha.unacked u hu
      (ha.sound.mem_unacked_of_grows hlatest.sound hgrows (ha.handed u hu) hunacked)
  case acked =>
    rw [← ha.acked]
    refine List.countP_congr ?_
    intro u hu
    simp only [decide_eq_true_eq]
    refine ⟨fun hacked => ?_, hgrows.acked.mem⟩
    exact (hgrows.acked.mem_or hacked).resolve_right (hr u hu _)

/-- On an open connection the next delivery can be settled. -/
theorem canSettle (ha : t.Accounts us (h :: left) acked)
    (ho : t.broker.isOpen h.generation = true) :
    t.CanSettle [h] ∧ ∃ u ∈ us, u.handle = h ∧ u ∈ t.broker.unacked := by
  obtain ⟨u, hu, rfl, hunsettled⟩ := ha.unsettled h List.mem_cons_self
  have hunacked : u ∈ t.broker.unacked := by
    refine hunsettled.resolve_right fun hlost => ?_
    have hlt := ha.dated.lost u hlost
    rw [← (Broker.isOpen_iff.1 ho).2] at hlt
    exact Nat.lt_irrefl _ hlt
  refine ⟨⟨ha.sound, List.nodup_singleton _, ?_, ?_⟩, u, hu, rfl, hunacked⟩
  · intro h' hh'
    rwa [List.mem_singleton.1 hh']
  · intro h' hh'
    exact ⟨u, hunacked, (List.mem_singleton.1 hh').symm⟩

/-- Settling the next delivery on an open connection gets it done. -/
theorem settle (ha : t.Accounts us (h :: left) acked)
    (ho : t.broker.isOpen h.generation = true) {fate : Fate} (hfate : fate ≠ .discarded) :
    (t.settleHandle h fate).Accounts us left (if fate = .acked then acked + 1 else acked) := by
  obtain ⟨hcan, u, hu, rfl, hunacked⟩ := ha.canSettle ho
  have hm := t.moves_finish_one u.handle fate
  have hgrows := Moves.grows hm
  have hlatest : (t.settleHandle u.handle fate).Latest :=
    hm.keep (fun hm => (keeps_latest _).move hm.free) ha.latest
  have hsettled : u ∈ (t.settleHandle u.handle fate).ledger.settled fate :=
    hcan.mem_settled fate hunacked List.mem_cons_self
  have hfirst := (List.nodup_cons.1 ha.distinct).1
  -- Only a delivery of this handle can be settled.
  have hspared : ∀ v : Broker.Unacked, v.handle ≠ u.handle → ∀ fate',
      ¬ (Broker.Policy.finish fate [u.handle]).settle v fate' :=
    fun v hne _ hsettle => hne (List.mem_singleton.1 hsettle.2)
  constructor
  case latest => exact hlatest
  case dated => exact hm.keep Dated.move ha.dated
  case nodup => exact ha.nodup
  case handed => exact fun v hv => hgrows.handed.mem (ha.handed v hv)
  case undiscarded =>
    intro v hv hdiscarded
    rcases hgrows.discarded.mem_or hdiscarded with hold | ⟨hnew, -⟩
    · exact ha.undiscarded v hv hold
    · exact hfate hnew.symm
  case distinct => exact (List.nodup_cons.1 ha.distinct).2
  case unsettled =>
    intro h' hh'
    obtain ⟨v, hv, rfl, hunsettled⟩ := ha.unsettled h' (List.mem_cons_of_mem _ hh')
    refine ⟨v, hv, rfl, hunsettled.moves ha.sound hm (hspared v ?_)⟩
    exact fun heq => hfirst (heq ▸ hh')
  case unacked =>
    intro v hv hstill
    have hbefore := ha.sound.mem_unacked_of_grows hlatest.sound hgrows (ha.handed v hv) hstill
    refine (List.mem_cons.1 (ha.unacked v hv hbefore)).resolve_left fun heq => ?_
    rw [ha.eq_of_handle_eq hv hu heq] at hstill
    exact hlatest.sound.not_mem_unacked (Ledger.mem_ended_of_settled hsettled) hstill
  case acked =>
    have hnot : u ∉ t.ledger.acked := fun hacked =>
      ha.sound.not_mem_unacked
        (Ledger.mem_ended_of_settled (show u ∈ t.ledger.settled .acked from hacked)) hunacked
    have hother : ∀ v ∈ us, v ≠ u → (v ∈ (t.settleHandle u.handle fate).ledger.acked ↔
        v ∈ t.ledger.acked) := by
      intro v hv hne
      refine ⟨fun hacked => ?_, hgrows.acked.mem⟩
      exact (hgrows.acked.mem_or hacked).resolve_right
        (hspared v (fun heq => hne (ha.eq_of_handle_eq hv hu heq)) _)
    by_cases hf : fate = .acked
    · subst hf
      rw [if_pos rfl, ← ha.acked]
      exact countP_mem_succ ha.nodup hu hnot hsettled hother
    · rw [if_neg hf, ← ha.acked]
      refine List.countP_congr ?_
      intro v hv
      simp only [decide_eq_true_eq]
      by_cases hvu : v = u
      · rw [hvu]
        refine iff_of_false (fun hacked => ?_) hnot
        rcases hgrows.acked.mem_or hacked with hold | ⟨hnew, -⟩
        · exact hnot hold
        · exact hf hnew.symm
      · exact hother v hv hvu

/-- A delivery of an earlier connection need not be settled. -/
theorem passOver (ha : t.Accounts us (h :: left) acked) (hg : h.generation ≠ t.broker.generation) :
    t.Accounts us left acked where
  latest := ha.latest
  dated := ha.dated
  nodup := ha.nodup
  handed := ha.handed
  undiscarded := ha.undiscarded
  distinct := (List.nodup_cons.1 ha.distinct).2
  unsettled h' hh' := ha.unsettled h' (List.mem_cons_of_mem h hh')
  unacked u hu hunacked := by
    refine (List.mem_cons.1 (ha.unacked u hu hunacked)).resolve_left fun heq => hg ?_
    rw [← heq]
    exact ha.dated.current.unacked u hunacked
  acked := ha.acked

/-- Once nothing is unacknowledged any more, an outcome is true that tells the right numbers. -/
theorem holds (ha : t.Accounts us left acked) (hnone : ∀ u ∈ us, u ∉ t.broker.unacked)
    {outcome : Outcome} (hacked : outcome.acknowledged = acked)
    (hall : outcome.acknowledged + outcome.returned = us.length) : outcome.Holds t us := by
  have hperm := List.filter_append_perm (fun u => decide (u ∈ t.ledger.acked)) us
  have hgone : (us.filter (· ∈ t.ledger.acked)).length = outcome.acknowledged := by
    rw [← List.countP_eq_length_filter, ha.acked, hacked]
  have hlength := hperm.length_eq
  rw [List.length_append, hgone, ← hall] at hlength
  refine ⟨_, _, hperm, hgone, Nat.add_left_cancel hlength, ?_, ?_⟩
  · intro u hu
    exact ha.sound.isGone (by simpa using (List.mem_filter.1 hu).2)
  · intro u hu
    obtain ⟨hu, hnot⟩ := List.mem_filter.1 hu
    refine ⟨ha.latest.cameBack (ha.handed u hu) ?_, hnone u hu⟩
    rw [holders, List.mem_append, List.mem_append]
    rintro ((hunacked | hacked) | hdiscarded)
    · exact hnone u hu hunacked
    · simp [hacked] at hnot
    · exact ha.undiscarded u hu hdiscarded

/-- After the next delivery was to be settled, it is over, or it is left since the broker was out of
reach. -/
theorem settleNext {missed : List Handle} (ha : t.Accounts us (h :: left ++ missed) acked)
    {fate : Fate} (hfate : fate ≠ .discarded) :
    (t.settleHandle h fate).Accounts us (left ++ t.broker.note missed h)
      (if t.broker.isOpen h.generation = true ∧ fate = .acked then acked + 1 else acked) := by
  by_cases ho : t.broker.isOpen h.generation = true
  · rw [Broker.note_of_reachable (Broker.isOpen_iff.1 ho).1]
    simpa [ho] using ha.settle ho hfate
  · rw [settleHandle_of_closed (Bool.eq_false_iff.2 ho), if_neg (mt And.left ho), Broker.note]
    by_cases hmisses : t.broker.misses h = true
    · rw [if_pos hmisses, ← List.append_assoc]
      exact ha.perm (List.perm_append_singleton _ _).symm
    · rw [if_neg hmisses]
      refine ha.passOver fun hg => hmisses ?_
      have hreachable : t.broker.reachable = false :=
        Bool.eq_false_iff.2 fun hr => ho (Broker.isOpen_iff.2 ⟨hr, hg⟩)
      simp [Broker.misses, hreachable, hg]

end Accounts

end Tracked

theorem dated_trackedRun (calls : List Broker.Call) : (trackedRun calls).Dated :=
  (Tracked.moves_any {} calls).keep Tracked.Dated.move
    ⟨.empty, fun _ hu => absurd hu List.not_mem_nil⟩

end HashCalendar
