/-
**Aggregate roots that drop out.**

A calendar job acknowledges its deliveries one by one and emits its block only if all went well.
If the connection closes after some of them, or if some of them are of a connection that closed
before, those that were acknowledged are done with: they are not delivered again, and no block
covers them.  This is the only way in which an acknowledged aggregate root drops out of anchoring.

Main results:

* `HashCalendar.acknowledged_root_anchored_iff` — **when an acknowledged root is anchored**;
* `HashCalendar.root_acknowledged_before_close_drops_out`,
  `HashCalendar.root_beside_stale_one_drops_out` — two runs in which one is not.
-/

import HashCalendar.Proofs.Calendar.Exclusivity

set_option relaxedAutoImplicit false
set_option autoImplicit false

namespace HashCalendar

namespace CalendarStation

/-- Every root whose delivery a finished job acknowledged is covered by a block. -/
def AnchorsAcknowledged (s : CalendarStation) : Prop :=
  ∀ w ∈ s.finalizers, ∀ outcome, w.progress = .settled outcome → ∀ u ∈ s.ledger.acked,
    u.tag ∈ w.acked → s.Anchored u.message.serial

namespace Regular

variable {c : Config} {s : CalendarStation} {w : Finalizer} {u : Broker.Unacked}

/-- A job that acknowledged all its deliveries has a block over each of them. -/
theorem anchored_of_acked (h : Regular c s) (hw : w ∈ s.finalizers) {outcome : Outcome}
    (hdone : w.progress = .settled outcome) (hall : outcome.isAcked = true)
    (hu : u ∈ s.ledger.acked) (hacked : u.tag ∈ w.acked) : s.Anchored u.message.serial := by
  have hblock : w.block? = some w.job.tree.block := by
    rw [Finalizer.block?, hdone]
    exact if_pos hall
  have hon := h.honest w hw
  rw [(hon.of_block hblock).2.2, Finalizer.tags, hon.handles, List.map_map] at hacked
  obtain ⟨p, hp, htag⟩ := List.mem_map.1 hacked
  exact ⟨w, hw, _, hblock, u, h.latest.sound.mem_handed_of_acked hu, rfl, p, hp, htag⟩

/-- A job that acknowledged some of its deliveries, but not all, was abandoned in between. -/
theorem abandoned_of_not_acked (h : Regular c s) (hw : w ∈ s.finalizers) {outcome : Outcome}
    (hdone : w.progress = .settled outcome) (hall : outcome.isAcked = false)
    (hacked : u.tag ∈ w.acked) :
    ∃ acked unacked, outcome = .abandoned acked unacked ∧ 0 < acked ∧ 0 < unacked := by
  have hcourse := (h.honest w hw).onCourse
  rw [hdone] at hcourse
  cases outcome with
  | acked count => cases hall
  | rejected count =>
      rw [show w.acked = [] from hcourse] at hacked
      cases hacked
  | abandoned acked unacked =>
      obtain ⟨-, hlength, -, -, hunacked⟩ := hcourse
      exact ⟨acked, unacked, rfl, hlength ▸ List.length_pos_of_mem hacked, hunacked⟩

/-- A root whose delivery was acknowledged is covered by no block but that of the job that
acknowledged it. -/
theorem eq_of_anchored (h : Regular c s) {k : Nat} (hw : s.finalizers[k]? = some w)
    (hu : u ∈ s.ledger.acked) (hacked : u.tag ∈ w.acked) (hn : s.Anchored u.message.serial) :
    ∃ block, w.block? = some block := by
  obtain ⟨w', hw', block, hb, hcovers⟩ := hn
  obtain ⟨k', hk'⟩ := List.mem_iff_getElem?.1 hw'
  obtain ⟨v, hv, hserial, -, htag, -⟩ := h.acked_of_covers hw' hb hcovers
  obtain rfl : v = u := h.latest.sound.eq_of_serial_eq
    (List.mem_append_left _ (List.mem_append_right _ hv))
    (List.mem_append_left _ (List.mem_append_right _ hu)) hserial
  obtain rfl := eq_of_mem_flatMap h.once hw hk' hacked htag
  obtain rfl : w = w' := Option.some.inj (hw.symm.trans hk')
  exact ⟨block, hb⟩

end Regular

end CalendarStation

/-- **When an acknowledged root is anchored.**  In every run of the calendar tier, for a job that is
done and a delivery that it acknowledged:

* if it acknowledged all its deliveries, its block covers the message;
* else it was abandoned after some of them, and from then on, whatever happens, no block covers the
  message and it is not handed over again. -/
theorem acknowledged_root_anchored_iff (c : Config) (events : List CalendarStation.Event) {k : Nat}
    {w : Finalizer} (hw : (CalendarStation.run c events).finalizers[k]? = some w)
    {outcome : Outcome} (hdone : w.progress = .settled outcome) {u : Broker.Unacked}
    (hu : u ∈ (CalendarStation.run c events).ledger.acked) (hacked : u.tag ∈ w.acked) :
    let s := CalendarStation.run c events
    (s.Anchored u.message.serial ↔ outcome.isAcked = true) ∧
    (outcome.isAcked = false →
      (∃ acked unacked, outcome = .abandoned acked unacked ∧ 0 < acked ∧ 0 < unacked) ∧
      ∀ later, ¬ (s.actAll later).Anchored u.message.serial ∧
        (s.actAll later).ledger.handed.filter (fun v => v.message.serial = u.message.serial) =
          s.ledger.handed.filter fun v => v.message.serial = u.message.serial) := by
  intro s
  have h : s.Regular c := CalendarStation.regular_run c events
  have hmem : w ∈ s.finalizers := List.mem_of_getElem? hw
  have hnever : outcome.isAcked = false →
      ∀ later, ¬ (s.actAll later).Anchored u.message.serial := by
    intro hall later hanchored
    have hlater : (s.actAll later).Regular c := h.actAll later
    obtain ⟨block, hb⟩ := hlater.eq_of_anchored (CalendarStation.getElem?_actAll hw hdone later)
      ((s.grows_actAll later).acked.mem hu) hacked hanchored
    rw [Finalizer.block?, hdone] at hb
    simp [hall] at hb
  refine ⟨⟨?_, fun hall => h.anchored_of_acked hmem hdone hall hu hacked⟩, ?_⟩
  · intro hanchored
    by_contra hall
    exact hnever (Bool.eq_false_iff.2 hall) [] hanchored
  · intro hall
    refine ⟨h.abandoned_of_not_acked hmem hdone hall hacked, fun later => ⟨hnever hall later, ?_⟩⟩
    exact (h.actAll later).latest.filter_handed (s.grows_actAll later) hu
      (h.latest.sound.mem_handed_of_acked hu)

/-! ### Two runs -/

/-- Another aggregate root, as it is sent. -/
def otherRoot : Content :=
  ⟨some aggregatorKind,
    (AggregateRoot.toJson ⟨.zero, ⟨List.replicate 32 0x11, rfl⟩, 1⟩).render⟩

/-- The tier takes in two aggregate roots and carries out a job over them, but the connection closes
after the first of them was acknowledged. -/
def closeBetweenAcks : List CalendarStation.Event :=
  [.attempt .nothing, .call (.inject "work.cal" loneRoot), .call (.inject "work.cal" otherRoot),
    .receive, .ingest 0, .receive, .ingest 0, .tick .zero, .finalize,
    .advance 0, .advance 0, .advance 0, .advance 0, .call .closeNow, .advance 0, .advance 0]

/-- A root that was acknowledged before the connection closed drops out. -/
theorem root_acknowledged_before_close_drops_out :
    ∃ w u, (CalendarStation.run {} closeBetweenAcks).finalizers[0]? = some w ∧
      w.progress = .settled (.abandoned 1 1) ∧
      u ∈ (CalendarStation.run {} closeBetweenAcks).ledger.acked ∧ u.tag ∈ w.acked ∧
      ∀ later, ¬ ((CalendarStation.run {} closeBetweenAcks).actAll later).Anchored
        u.message.serial := by
  have hdata : ((CalendarStation.run {} closeBetweenAcks).finalizers[0]?.map fun w =>
      (w.progress, w.acked)) = some (.settled (.abandoned 1 1), [1]) := by decide +kernel
  have hacked : ((CalendarStation.run {} closeBetweenAcks).ledger.acked.map
      Broker.Unacked.tag) = [1] := by decide +kernel
  obtain ⟨w, hw, hw'⟩ := Option.map_eq_some_iff.1 hdata
  obtain ⟨hdone, htags⟩ := Prod.ext_iff.1 hw'
  obtain ⟨u, hu, htag⟩ : ∃ u ∈ (CalendarStation.run {} closeBetweenAcks).ledger.acked,
      u.tag = 1 := List.mem_map.1 (hacked ▸ List.mem_cons_self)
  have hmem : u.tag ∈ w.acked := by
    rw [show w.acked = [1] from htags, htag]
    exact List.mem_cons_self
  refine ⟨w, u, hw, hdone, hu, hmem, fun later => ?_⟩
  exact (((acknowledged_root_anchored_iff {} closeBetweenAcks hw hdone hu hmem).2 rfl).2 later).1

/-- The tier takes in an aggregate root and its connection closes.  It connects again without
forgetting that root, and takes in another one.  It builds one tree over both and carries out its
job. -/
def finalizeStale : List CalendarStation.Event :=
  [.attempt .nothing, .call (.inject "work.cal" loneRoot), .receive, .ingest 0,
    .call .closeNow, .closeLink, .call (.inject "work.cal" otherRoot), .attempt .nothing,
    .receive, .receive, .ingest 1, .tick .zero, .finalize,
    .advance 0, .advance 0, .advance 0, .advance 0, .advance 0, .advance 0]

/-- A root drops out that was acknowledged in a job beside a delivery that could not be. -/
theorem root_beside_stale_one_drops_out :
    ¬ (CalendarStation.run {} finalizeStale).AnchorsAcknowledged := by
  have hdata : (CalendarStation.run {} finalizeStale).finalizers.map (fun w =>
      (w.progress, w.acked, w.block?)) = [(.settled (.abandoned 1 1), [3], none)] := by
    decide +kernel
  have hacked : ((CalendarStation.run {} finalizeStale).ledger.acked.map
      Broker.Unacked.tag) = [3] := by decide +kernel
  have hjob : ∀ w ∈ (CalendarStation.run {} finalizeStale).finalizers,
      w.progress = .settled (.abandoned 1 1) ∧ w.acked = [3] ∧ w.block? = none := by
    intro w hw
    have hmem := List.mem_map_of_mem (f := fun w => (w.progress, w.acked, w.block?)) hw
    rw [hdata, List.mem_singleton] at hmem
    simpa using hmem
  obtain ⟨w, hw, -⟩ := List.mem_map.1 (hdata ▸ List.mem_cons_self)
  obtain ⟨u, hu, htag⟩ : ∃ u ∈ (CalendarStation.run {} finalizeStale).ledger.acked,
      u.tag = 3 := List.mem_map.1 (hacked ▸ List.mem_cons_self)
  have hmem : u.tag ∈ w.acked := by
    rw [(hjob w hw).2.1, htag]
    exact List.mem_cons_self
  -- There is no block at all, so none over the root that was acknowledged.
  intro hall
  obtain ⟨v, hv, block, hb, -⟩ := hall w hw _ (hjob w hw).1 u hu hmem
  rw [(hjob v hv).2.2] at hb
  cases hb

end HashCalendar
