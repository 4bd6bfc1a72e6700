/-
**How often a submission is counted.**

A tree counts a submission if it is over a delivery of it and its root got to where the roots go.  A
submission that is handed over again after it was counted may be counted again.  For this a delivery
of it must be lost: the connection closed before the delivery was settled, and the root of its tree
was enqueued all the same.  Messages that were not taken make no submission count twice, since a job
that is given up does not enqueue its root.

A submission is counted at least once before it leaves the broker.  So it is counted by two trees
exactly if a delivery that was lost is counted by a tree that does not count the delivery that was
acknowledged.  One tree may count both, if the tier kept the lost delivery in its buffer.

Main definitions:

* `HashCalendar.Station.Counts`, `HashCalendar.Station.CountsMessage` — a tree counts a delivery,
  and a message.

Main results:

* `HashCalendar.Station.Disciplined.counts_iff` — a tree counts a delivery if its whole list was
  enqueued;
* `HashCalendar.counted_twice_iff_lost` — **when a submission is counted twice**;
* `HashCalendar.zero_submission_counted_twice` — it happens.
-/

import HashCalendar.Proofs.Aggregation.Discipline
import HashCalendar.Proofs.Aggregation.Tags

set_option relaxedAutoImplicit false
set_option autoImplicit false

namespace HashCalendar

/-- The last message of a job that was enqueued is its root only if all of them were. -/
theorem Worker.Honest.complete_of_root {queues : Config.Queues} {l : Ledger} {w : Worker}
    (h : w.Honest queues l) (hq : queues.stateOut ≠ queues.calendarIn) {root : Nat}
    (hlast : w.sent.getLast? = some root) {content : Content}
    (hroot : l.arrived[root]? = some (queues.calendarIn, content)) : w.Complete := by
  rw [List.getLast?_eq_getElem?] at hlast
  obtain ⟨m, hm, harrived⟩ := h.holds.arrived _ _ hlast
  have hqueue := congrArg Prod.fst (Option.some.inj (harrived.symm.trans hroot))
  obtain ⟨hbuilt, hlen⟩ := h.built_of_root hq hm hqueue
  have hpos := (List.getElem?_eq_some_iff.1 hlast).1
  exact ⟨hbuilt, by omega⟩

namespace Station

/-! ### Trees that count -/

/-- The tree of a job counts a delivery: it is a tree over it, and its root was enqueued. -/
def Counts (queues : Config.Queues) (s : Station) (k : Nat) (u : Broker.Unacked) : Prop :=
  ∃ w root content, s.workers[k]? = some w ∧ w.Covers u ∧ w.sent.getLast? = some root ∧
    s.ledger.arrived[root]? = some (queues.calendarIn, content)

/-- The tree of a job counts a message, in one of its deliveries. -/
def CountsMessage (queues : Config.Queues) (s : Station) (k n : Nat) : Prop :=
  ∃ u ∈ s.ledger.handed, u.message.serial = n ∧ s.Counts queues k u

variable {queues : Config.Queues} {s : Station}

/-- No two trees count the same delivery. -/
theorem eq_of_counts (h : s.tracked.Apart s.tags) {k k' : Nat} {u : Broker.Unacked}
    (hk : s.Counts queues k u) (hk' : s.Counts queues k' u) : k = k' := by
  obtain ⟨w, -, -, hw, ⟨p, hp, htag⟩, -, -⟩ := hk
  obtain ⟨w', -, -, hw', ⟨p', hp', htag'⟩, -, -⟩ := hk'
  exact eq_of_tag_eq h hw hw' hp hp' (htag.trans htag'.symm)

namespace Disciplined

/-- A tree counts a delivery if its whole list was enqueued. -/
theorem counts_iff (h : Disciplined queues s) (hq : queues.stateOut ≠ queues.calendarIn) {k : Nat}
    {u : Broker.Unacked} :
    s.Counts queues k u ↔ ∃ w, s.workers[k]? = some w ∧ w.Covers u ∧ w.Complete := by
  constructor
  · rintro ⟨w, root, content, hw, hcovers, hlast, hroot⟩
    have hon := h.honest w (List.mem_of_getElem? hw)
    exact ⟨w, hw, hcovers, hon.complete_of_root hq hlast hroot⟩
  · rintro ⟨w, hw, hcovers, hcomplete⟩
    have hon := h.honest w (List.mem_of_getElem? hw)
    obtain ⟨id, f, beacon, tree, root, -, -, hlast, hroot, -⟩ := hon.exists_answers hcomplete
    exact ⟨w, root, _, hw, hcovers, hlast, hroot⟩

/-- A delivery that was acknowledged is counted. -/
theorem exists_counts_of_acked (h : Disciplined queues s)
    (hq : queues.stateOut ≠ queues.calendarIn) {u : Broker.Unacked} (hu : u ∈ s.ledger.acked)
    (hqueue : u.queue = queues.aggregatorIn) : ∃ k, s.Counts queues k u := by
  obtain ⟨w, hw, hcomplete, hcovers⟩ := h.accounted.acked u hu hqueue
  obtain ⟨k, hk⟩ := List.mem_iff_getElem?.1 hw
  exact ⟨k, (h.counts_iff hq).2 ⟨w, hk, hcovers, hcomplete⟩⟩

/-- A delivery that is counted was not refused. -/
theorem cases_of_counts (h : Disciplined queues s) (ht : s.tracked.Apart s.tags)
    (hq : queues.stateOut ≠ queues.calendarIn) {k : Nat} {u : Broker.Unacked}
    (hu : u ∈ s.ledger.handed) (hqueue : u.queue = queues.aggregatorIn)
    (hk : s.Counts queues k u) :
    u ∈ s.broker.unacked ∨ u ∈ s.ledger.acked ∨ u ∈ s.ledger.lost := by
  obtain ⟨w, hw, ⟨p, hp, htag⟩, hcomplete⟩ := (h.counts_iff hq).1 hk
  have hon := h.honest w (List.mem_of_getElem? hw)
  rcases List.mem_append.1 (h.sound.fates.mem_iff.1 hu) with hunacked | hended
  · exact Or.inl hunacked
  rcases List.mem_append.1 hended with hended | hlost
  · rcases List.mem_append.1 hended with hended | hreturned
    · rcases List.mem_append.1 hended with hacked | hdiscarded
      · exact Or.inr (Or.inl hacked)
      · -- What is discarded could not be read, but it was read for the job.
        obtain ⟨e, he⟩ := h.accounted.discarded u hdiscarded hqueue
        obtain ⟨v, hv, hvtag, hread⟩ := hon.submitted p hp
        obtain rfl : v = u := h.sound.eq_of_tag_eq hv hu (hvtag.trans htag)
        rw [he] at hread
        cases hread
    · -- What is put back belongs to a job that was given up, so to another one.
      obtain ⟨w', hw', hgiven, p', hp', htag'⟩ := h.accounted.returned u hreturned hqueue
      obtain ⟨k', hk'⟩ := List.mem_iff_getElem?.1 hw'
      obtain rfl := eq_of_tag_eq ht hw hk' hp hp' (htag.trans htag'.symm)
      obtain rfl : w = w' := Option.some.inj (hw.symm.trans hk')
      exact absurd hcomplete (hon.not_complete hgiven)
  · exact Or.inr (Or.inr hlost)

/-- A delivery that is counted was lost, if another delivery of its message is unacknowledged or
acknowledged. -/
theorem lost_of_counts (h : Disciplined queues s) (ht : s.tracked.Apart s.tags)
    (hq : queues.stateOut ≠ queues.calendarIn) {u v : Broker.Unacked} {k : Nat}
    (hv : v ∈ s.broker.unacked ++ s.ledger.acked) (huv : u.message.serial = v.message.serial)
    (hne : u ≠ v) (hu : u ∈ s.ledger.handed) (hqueue : u.queue = queues.aggregatorIn)
    (hk : s.Counts queues k u) : u ∈ s.ledger.lost := by
  have honly : ∀ x ∈ s.broker.unacked ++ s.ledger.acked, x.message.serial = v.message.serial →
      x = v := fun x hx hxv =>
    h.sound.eq_of_serial_eq (List.mem_append_left _ hx) (List.mem_append_left _ hv) hxv
  rcases h.cases_of_counts ht hq hu hqueue hk with hu | hu | hu
  · exact absurd (honly u (List.mem_append_left _ hu) huv) hne
  · exact absurd (honly u (List.mem_append_right _ hu) huv) hne
  · exact hu

/-- Of two trees that count a message, one counts a delivery of it that was lost. -/
theorem exists_lost (h : Disciplined queues s) (ht : s.tracked.Apart s.tags)
    (hq : queues.stateOut ≠ queues.calendarIn) {n : Nat} {content : Content}
    (hn : s.ledger.arrived[n]? = some (queues.aggregatorIn, content)) {k k' : Nat} (hkk' : k ≠ k')
    (hk : s.CountsMessage queues k n) (hk' : s.CountsMessage queues k' n) :
    ∃ u ∈ s.ledger.lost, u.message.serial = n ∧ (s.Counts queues k u ∨ s.Counts queues k' u) := by
  obtain ⟨u, hu, hun, hcounts⟩ := hk
  obtain ⟨u', hu', hun', hcounts'⟩ := hk'
  have hne : u' ≠ u := by
    rintro rfl
    exact hkk' (eq_of_counts ht hcounts hcounts')
  have hserial : u'.message.serial = u.message.serial := hun'.trans hun.symm
  have hqueue' := h.sound.queue_of_serial hn hu' hun'
  rcases h.cases_of_counts ht hq hu (h.sound.queue_of_serial hn hu hun) hcounts with
    hheld | hheld | hlost
  · have hlost := h.lost_of_counts ht hq (List.mem_append_left _ hheld) hserial hne hu' hqueue'
      hcounts'
    exact ⟨u', hlost, hun', Or.inr hcounts'⟩
  · have hlost := h.lost_of_counts ht hq (List.mem_append_right _ hheld) hserial hne hu' hqueue'
      hcounts'
    exact ⟨u', hlost, hun', Or.inr hcounts'⟩
  · exact ⟨u, hlost, hun, Or.inl hcounts⟩

/-- A settled message is counted by two trees if a delivery of it that was lost is counted by a tree
that does not count the delivery that was acknowledged, and only then. -/
theorem counted_twice_iff (h : Disciplined queues s) (ht : s.tracked.Apart s.tags)
    (hq : queues.stateOut ≠ queues.calendarIn) {n : Nat} {content : Content}
    {submission : Submission}
    (hn : s.ledger.arrived[n]? = some (queues.aggregatorIn, content))
    (hread : Submission.read content.payload = .ok submission)
    (hready : ∀ m ∈ s.broker.ready queues.aggregatorIn, m.serial ≠ n)
    (hunacked : ∀ u ∈ s.broker.unacked, u.message.serial ≠ n) :
    (∃ k k', k ≠ k' ∧ s.CountsMessage queues k n ∧ s.CountsMessage queues k' n) ↔
      ∃ u ∈ s.ledger.lost, u.message.serial = n ∧ ∃ k, s.Counts queues k u ∧
        ∀ v ∈ s.ledger.acked, v.message.serial = n → ¬ s.Counts queues k v := by
  constructor
  · rintro ⟨k, k', hkk', ⟨u, hu, hun, hcounts⟩, u', hu', hun', hcounts'⟩
    by_cases hacked : ∃ v ∈ s.ledger.acked, v.message.serial = n ∧ s.Counts queues k v
    · -- The other tree counts no acknowledged delivery, since there is only one.
      obtain ⟨v, hv, hvn, hcountsv⟩ := hacked
      have hheld : v ∈ s.broker.unacked ++ s.ledger.acked := List.mem_append_right _ hv
      have hother : ∀ x, s.Counts queues k' x → x ≠ v := by
        rintro x hx rfl
        exact hkk' (eq_of_counts ht hcountsv hx)
      have hlost := h.lost_of_counts ht hq hheld (hun'.trans hvn.symm) (hother u' hcounts') hu'
        (h.sound.queue_of_serial hn hu' hun') hcounts'
      refine ⟨u', hlost, hun', k', hcounts', ?_⟩
      intro x hx hxn hcountsx
      exact hother x hcountsx (h.sound.eq_of_serial_eq
        (List.mem_append_left _ (List.mem_append_right _ hx)) (List.mem_append_left _ hheld)
        (hxn.trans hvn.symm))
    · have hnone : ∀ v ∈ s.ledger.acked, v.message.serial = n → ¬ s.Counts queues k v :=
        fun v hv hvn hcountsv => hacked ⟨v, hv, hvn, hcountsv⟩
      rcases h.cases_of_counts ht hq hu (h.sound.queue_of_serial hn hu hun) hcounts with
        hu | hu | hu
      · exact absurd hun (hunacked u hu)
      · exact absurd hcounts (hnone u hu hun)
      · exact ⟨u, hu, hun, k, hcounts, hnone⟩
  · rintro ⟨u, hu, hun, k, hcounts, hnone⟩
    rcases h.in_broker_or_acked hn hread with ⟨m, hm, hmn⟩ | ⟨v, hv, hvn⟩ | ⟨v, hv, hvn, hvq, -⟩
    · exact absurd hmn (hready m hm)
    · exact absurd hvn (hunacked v hv)
    · obtain ⟨k', hcountsv⟩ := h.exists_counts_of_acked hq hv hvq
      refine ⟨k, k', ?_, ⟨u, h.sound.mem_handed_of_lost hu, hun, hcounts⟩,
        ⟨v, h.sound.mem_handed_of_acked hv, hvn, hcountsv⟩⟩
      rintro rfl
      exact hnone v hv hvn hcountsv

end Disciplined

end Station

/-- **When a submission is counted twice.**  In every run of the aggregation tier:

* of two trees that count a message, one counts a delivery of it that was lost to a connection that
  closed, so that a message is counted once unless a delivery that was counted was lost;
* a valid submission that has left the broker is counted by two trees if and only if a delivery of
  it that was lost is counted by a tree that does not count the delivery that was acknowledged. -/
theorem counted_twice_iff_lost (c : Config) (hq : c.queues.stateOut ≠ c.queues.calendarIn)
    {s : Station} (h : Station.Reachable c s) {n : Nat} {content : Content}
    (hn : s.ledger.arrived[n]? = some (c.queues.aggregatorIn, content)) :
    (∀ k k', k ≠ k' → s.CountsMessage c.queues k n → s.CountsMessage c.queues k' n →
      ∃ u ∈ s.ledger.lost, u.message.serial = n ∧
        (s.Counts c.queues k u ∨ s.Counts c.queues k' u)) ∧
    (∀ submission, Submission.read content.payload = .ok submission →
      (∀ m ∈ s.broker.ready c.queues.aggregatorIn, m.serial ≠ n) →
      (∀ u ∈ s.broker.unacked, u.message.serial ≠ n) →
      ((∃ k k', k ≠ k' ∧ s.CountsMessage c.queues k n ∧ s.CountsMessage c.queues k' n) ↔
        ∃ u ∈ s.ledger.lost, u.message.serial = n ∧ ∃ k, s.Counts c.queues k u ∧
          ∀ v ∈ s.ledger.acked, v.message.serial = n → ¬ s.Counts c.queues k v)) := by
  have hd := h.disciplined hq
  have ht := h.apart
  constructor
  · intro k k' hkk' hk hk'
    exact hd.exists_lost ht hq hn hkk' hk hk'
  · intro submission hread hready hunacked
    exact hd.counted_twice_iff ht hq hn hread hready hunacked

/-! ### A connection that closes too early -/

/-- A tree counts a message if it is over one of its deliveries and its root is where the roots
go. -/
theorem Station.countsMessage_of_mem_tags {queues : Config.Queues} {s : Station}
    (k n tag root : Nat) (tags : List Nat) (htag : tag ∈ tags)
    (hw : (s.workers[k]?.map fun w => (w.tags, w.sent.getLast?)) = some (tags, some root))
    (hroot : s.ledger.arrived[root]?.map Prod.fst = some queues.calendarIn)
    (hu : ∃ u ∈ s.ledger.handed, u.message.serial = n ∧ u.tag = tag) :
    s.CountsMessage queues k n := by
  obtain ⟨u, hu, hun, rfl⟩ := hu
  obtain ⟨w, hget, hdata⟩ := Option.map_eq_some_iff.1 hw
  obtain ⟨⟨queue, content⟩, hcontent, rfl⟩ := Option.map_eq_some_iff.1 hroot
  obtain ⟨rfl, hlast⟩ := Prod.ext_iff.1 hdata
  obtain ⟨p, hp, hptag⟩ := List.mem_map.1 htag
  exact ⟨u, hu, hun, w, root, content, hget, ⟨p, hp, hptag⟩, hlast, hcontent⟩

/-- The tier takes in a submission and carries out a job over it, but the connection closes right
after the root was enqueued.  The tier connects again, and carries out a job over the submission
that is handed over again. -/
def answerTwice : List Station.Event :=
  [.attempt .nothing, .call (.inject "work.agg" zeroSubmission), .receive, .ingest 0,
    .tick {} .zero, .call (.closeAfterPublishes 2),
    .advance 0, .advance 0, .advance 0, .advance 0, .advance 0,
    .closeLink, .detach, .attempt .nothing, .receive, .ingest 0,
    .tick {} ⟨List.replicate 16 1, List.length_replicate⟩,
    .advance 1, .advance 1, .advance 1, .advance 1, .advance 1]

theorem reachable_answerTwice : Station.Reachable {} (.run {} answerTwice) := by
  refine Station.reachable_run ?_
  simp only [answerTwice, PermitsAll, Station.Permits, Broker.Policy.Allows,
    Station.others, true_and, and_true]
  decide

theorem getElem?_arrived_answerTwice :
    (Station.run {} answerTwice).ledger.arrived[0]? =
      some (({} : Config).queues.aggregatorIn, zeroSubmission) := by
  decide +kernel

/-- The tree whose job was not acknowledged counts the submission. -/
theorem first_counts_answerTwice :
    (Station.run {} answerTwice).CountsMessage ({} : Config).queues 0 0 :=
  Station.countsMessage_of_mem_tags 0 0 1 2 [1] List.mem_cons_self
    (by decide +kernel) (by decide +kernel) (by decide +kernel)

/-- The next tree counts it as well. -/
theorem second_counts_answerTwice :
    (Station.run {} answerTwice).CountsMessage ({} : Config).queues 1 0 :=
  Station.countsMessage_of_mem_tags 1 0 2 4 [2] List.mem_cons_self
    (by decide +kernel) (by decide +kernel) (by decide +kernel)

/-- A submission is not always counted once. -/
theorem zero_submission_counted_twice :
    Station.Reachable {} (.run {} answerTwice) ∧
    (Station.run {} answerTwice).ledger.arrived[0]? =
      some (({} : Config).queues.aggregatorIn, zeroSubmission) ∧
    (Station.run {} answerTwice).CountsMessage ({} : Config).queues 0 0 ∧
    (Station.run {} answerTwice).CountsMessage ({} : Config).queues 1 0 :=
  ⟨reachable_answerTwice, getElem?_arrived_answerTwice, first_counts_answerTwice,
    second_counts_answerTwice⟩

/-- It was, because the delivery that the first tree counts was lost. -/
theorem zero_submission_lost :
    ({} : Config).queues.stateOut ≠ ({} : Config).queues.calendarIn ∧
    Station.Reachable {} (.run {} answerTwice) ∧
    (Station.run {} answerTwice).ledger.arrived[0]? =
      some (({} : Config).queues.aggregatorIn, zeroSubmission) ∧
    (∃ submission, Submission.read zeroSubmission.payload = .ok submission) ∧
    ∃ u ∈ (Station.run {} answerTwice).ledger.lost, u.message.serial = 0 ∧
      ∃ k, (Station.run {} answerTwice).Counts ({} : Config).queues k u ∧
        ∀ v ∈ (Station.run {} answerTwice).ledger.acked, v.message.serial = 0 →
          ¬ (Station.run {} answerTwice).Counts ({} : Config).queues k v := by
  have hq : ({} : Config).queues.stateOut ≠ ({} : Config).queues.calendarIn := by decide
  have hisOk : (Submission.read zeroSubmission.payload).isOk = true := by decide +kernel
  obtain ⟨submission, hread⟩ :
      ∃ submission, Submission.read zeroSubmission.payload = .ok submission := by
    cases h : Submission.read zeroSubmission.payload with
    | ok submission => exact ⟨submission, rfl⟩
    | error e =>
        rw [h] at hisOk
        cases hisOk
  have hiff := (counted_twice_iff_lost {} hq reachable_answerTwice
    getElem?_arrived_answerTwice).2 submission hread (by decide +kernel) (by decide +kernel)
  refine ⟨hq, reachable_answerTwice, getElem?_arrived_answerTwice, ⟨submission, hread⟩, ?_⟩
  exact hiff.1 ⟨0, 1, Nat.zero_ne_one, first_counts_answerTwice, second_counts_answerTwice⟩

end HashCalendar
