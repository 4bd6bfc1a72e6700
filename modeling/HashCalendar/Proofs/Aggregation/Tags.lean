/-
**No delivery is in two places.**

A delivery that was handed to the tier waits in a stream, is in the hand of the tier, waits in its
buffer, or belongs to one job, and it is there once.  This is so because the broker uses no tag
twice and because the tier passes every delivery on as it is.

Main definitions:

* `HashCalendar.Station.tags` — the tags of the deliveries that the tier has received;
* `HashCalendar.Tracked.Apart` — they are distinct from each other and from all that is to come.

Main results:

* `HashCalendar.Tracked.keeps_apart` — the broker keeps them so;
* `HashCalendar.Station.Reachable.apart` — **every run keeps them so**;
* `HashCalendar.Station.eq_of_tag_eq` — a delivery belongs to one job.
-/

import HashCalendar.Proofs.Aggregation.Runs
import HashCalendar.Proofs.Broker.Conservation
import Mathlib.Data.List.Perm.Basic

set_option relaxedAutoImplicit false
set_option autoImplicit false

namespace HashCalendar

/-! ### The broker -/

/-- Tags that are distinct from each other, from those that wait in streams and from those to
come. -/
structure Tracked.Apart (own : List Nat) (t : Tracked) : Prop where
  sound : t.Sound
  below : ∀ tag ∈ own, tag < t.broker.nextTag
  nodup : (t.broker.buffered.map Delivery.tag ++ own).Nodup

namespace Tracked

/-- Every move keeps tags apart. -/
theorem keeps_apart (p : Broker.Policy) (own : List Nat) : p.Keeps (Apart own) where
  enqueue _ h := ⟨h.sound.enqueue _ _, h.below, h.nodup⟩
  handOver := by
    intro t name q c count hq hl h
    refine ⟨h.sound.handOver hq hl, ?_, ?_⟩
    · intro tag htag
      exact Nat.lt_of_lt_of_le (h.below tag htag) (Nat.le_add_right _ _)
    · have hmoved : (t.handOver name q c count).Sound := h.sound.handOver hq hl
      have hperm := (Broker.buffered_handOver hl name q count).map Delivery.tag
      refine (hperm.append_right own).nodup_iff.2 ?_
      obtain ⟨hbuffered, hown, hdisjoint⟩ := List.nodup_append.1 h.nodup
      have hnew := hperm.nodup_iff.1 hmoved.buffered_tags
      refine List.nodup_append.2 ⟨hnew, hown, ?_⟩
      intro tag htag tag' htag' heq
      rw [List.map_append] at htag
      rcases List.mem_append.1 htag with htag | htag
      · exact hdisjoint tag htag tag' htag' heq
      · -- What is handed over now has a tag that was not used before.
        obtain ⟨d, hd, rfl⟩ := List.mem_map.1 htag
        have hle := (Broker.tag_mem_deliveries hd).1
        have hlt := h.below tag' htag'
        omega
  settle he _ h :=
    ⟨h.sound.settle he _, by simpa using h.below, by simpa [Broker.buffered] using h.nodup⟩
  close h :=
    ⟨h.sound.close, by simpa [Tracked.close] using h.below,
      by simpa [Tracked.close, Broker.buffered] using h.nodup⟩
  take _ h :=
    ⟨h.sound.take _, by simpa [Tracked.take] using h.below,
      by simpa [Tracked.take, Broker.buffered] using h.nodup⟩
  quiet hb h := by
    refine ⟨h.sound.quiet hb, ?_, ?_⟩
    · intro tag htag
      exact Nat.lt_of_lt_of_le (h.below tag htag) hb.nextTag
    · exact h.nodup.sublist ((hb.buffered.map _).append (List.Sublist.refl _))

namespace Apart

variable {own own' : List Nat} {t : Tracked}

theorem perform (h : t.Apart own) (c : Broker.Call) : (t.perform c).Apart own :=
  (keeps_apart .any own).perform (Broker.Policy.any_allows _ c) h

theorem performAll (h : t.Apart own) (calls : List Broker.Call) :
    (t.performAll calls).Apart own :=
  (keeps_apart .any own).performAll (fun c _ b => Broker.Policy.any_allows b c) h

theorem sublist (h : t.Apart own) (hs : own'.Sublist own) : t.Apart own' where
  sound := h.sound
  below tag htag := h.below tag (hs.subset htag)
  nodup := h.nodup.sublist ((List.Sublist.refl _).append hs)

theorem perm (h : t.Apart own) (hp : own'.Perm own) : t.Apart own' where
  sound := h.sound
  below tag htag := h.below tag (hp.mem_iff.1 htag)
  nodup := (hp.append_left _).nodup_iff.2 h.nodup

/-- A delivery that is received is no longer in its stream. -/
theorem receive (h : t.Apart own) {stream : Nat} {d : Delivery} {b : Broker}
    (hr : t.broker.receive stream = (b, .delivery d)) (hq : Broker.Quiet t.broker b)
    (hperm : t.broker.buffered.Perm (d :: b.buffered)) :
    (t.perform (.receive stream)).Apart (d.tag :: own) := by
  have hb : t.perform (.receive stream) = t.setBroker b :=
    congrArg t.setBroker (congrArg Prod.fst hr)
  rw [hb]
  refine ⟨h.sound.quiet hq, ?_, ?_⟩
  · intro tag htag
    refine Nat.lt_of_lt_of_le ?_ hq.nextTag
    rcases List.mem_cons.1 htag with rfl | htag
    · obtain ⟨u, hu, hutag, -⟩ := h.sound.buffered_handed d (hperm.mem_iff.2 List.mem_cons_self)
      exact hutag ▸ h.sound.tags_below u hu
    · exact h.below tag htag
  · have hnodup := ((hperm.map Delivery.tag).append_right own).nodup_iff.1 h.nodup
    exact List.perm_middle.nodup_iff.2 hnodup

end Apart

end Tracked

/-! ### The tier -/

/-- The tags of the deliveries of a job. -/
def Worker.tags (w : Worker) : List Nat := w.batch.map fun p => p.handle.tag

namespace Station

/-- The tags of the deliveries that the tier has received and not forgotten. -/
def tags (s : Station) : List Nat :=
  s.inHand.map (fun d => d.1.tag) ++
    (s.aggregator.pending.items.map (fun p => p.handle.tag) ++ s.workers.flatMap Worker.tags)

theorem apart_attempt {s : Station} (h : s.tracked.Apart s.tags) (incident : Incident) :
    (s.toLine.attempt incident).tracked.Apart s.tags := by
  obtain ⟨calls, hcalls⟩ := s.toLine.exists_attempt_tracked incident
  rw [hcalls]
  exact h.performAll calls

theorem apart_receive {s : Station} (h : s.tracked.Apart s.tags) :
    s.receive.tracked.Apart s.receive.tags := by
  rw [receive]
  rcases s.toLine.receive_cases with ⟨r, d, -, hreceived, heq⟩ | heq
  · rw [heq]
    rcases s.broker.receive_cases r.stream with ⟨e, b, he, hq, hperm⟩ | ⟨-, hnone⟩
    · obtain rfl : e = d := by
        rw [he] at hreceived
        exact Received.delivery.inj hreceived
      refine (h.receive he hq hperm).perm ?_
      simp only [tags, List.map_append, Option.toList_some, List.map_cons, List.map_nil,
        List.append_assoc, List.cons_append, List.nil_append]
      exact List.perm_middle
    · exact absurd hreceived (hnone d)
  · rw [heq]
    simpa [tags] using h

theorem apart_ingest {s : Station} (h : s.tracked.Apart s.tags) {number : Nat}
    {d : Handle × Content} (hd : s.inHand[number]? = some d) :
    (s.act (.ingest number)).tracked.Apart (s.act (.ingest number)).tags := by
  obtain ⟨hlt, hget⟩ := List.getElem?_eq_some_iff.1 hd
  have hout := (List.getElem_cons_eraseIdx_perm hlt).map fun d : Handle × Content => d.1.tag
  rw [hget, List.map_cons] at hout
  rw [act, hd]
  dsimp only
  rw [ingest, Aggregator.ingest, ingestCalls]
  cases Submission.read d.2.payload with
  | ok submission =>
      -- The delivery goes from the hand to the end of the buffer.
      refine h.perm ?_
      simp only [tags, Buffer.push, List.map_append, List.map_cons, List.map_nil]
      refine List.Perm.trans ?_ (hout.append_right _)
      rw [List.append_assoc, ← List.append_assoc, List.cons_append, ← List.append_assoc _ _
        (List.flatMap _ _)]
      exact List.perm_middle
  | error e =>
      refine (h.performAll [.nack d.1 false]).sublist ?_
      exact ((List.eraseIdx_sublist _ _).map _).append (List.Sublist.refl _)

theorem apart_tick {s : Station} (h : s.tracked.Apart s.tags) (feed : Feed) (id : Uuid) :
    (s.tick feed id).tracked.Apart (s.tick feed id).tags := by
  rcases s.tick_cases feed id with heq | ⟨ch, beacon, -, heq⟩
  · rw [heq]
    exact h
  · rw [heq]
    refine h.perm ?_
    have hsplit := s.nextBatch_append (s.aggregator.prepare ch beacon id s.nextBatch)
    rw [assign] at hsplit ⊢
    simp only [tags, List.flatMap_append, List.flatMap_cons, List.flatMap_nil, List.append_nil]
    refine List.Perm.append_left _ ?_
    -- The head of the buffer goes behind the jobs.
    rw [← hsplit, List.map_append, List.append_assoc, ← List.append_assoc]
    exact List.perm_append_comm

theorem apart_advance {s : Station} (h : s.tracked.Apart s.tags) (number : Nat) :
    (s.advance number).tracked.Apart (s.advance number).tags := by
  cases hw : s.workers[number]? with
  | none =>
      rw [advance, hw]
      exact h
  | some w =>
      rw [advance_of_getElem? hw]
      obtain ⟨hlt, rfl⟩ := List.getElem?_eq_some_iff.1 hw
      -- A call changes how far a job is, but not its deliveries.
      have hsame : (s.workers.set number (s.workers[number].advance s.broker)).flatMap Worker.tags =
          s.workers.flatMap Worker.tags := by
        have hlt' : number < (s.workers.map Worker.tags).length := by simpa using hlt
        have hget : (s.workers[number].advance s.broker).tags =
            (s.workers.map Worker.tags)[number] := (List.getElem_map Worker.tags).symm
        rw [List.flatMap_def, List.flatMap_def, List.map_set, hget, List.set_getElem_self]
      refine (h.performAll _).perm ?_
      simp only [tags, hsame]
      exact List.Perm.refl _

/-- Whatever happens keeps the tags apart. -/
theorem apart_act {s : Station} (h : s.tracked.Apart s.tags) (e : Event) :
    (s.act e).tracked.Apart (s.act e).tags := by
  cases e with
  | call c => exact h.perform c
  | attempt incident => exact apart_attempt h incident
  | closeLink => exact h
  | detach =>
      refine h.sublist ?_
      exact (List.Sublist.refl _).append (List.sublist_append_right _ _)
  | receive => exact apart_receive h
  | ingest number =>
      cases hd : s.inHand[number]? with
      | none =>
          rw [act, hd]
          exact h
      | some d => exact apart_ingest h hd
  | tick feed id => exact apart_tick h feed id
  | advance number => exact apart_advance h number

/-- Every run keeps the tags apart. -/
theorem Reachable.apart {c : Config} {s : Station} (h : Reachable c s) :
    s.tracked.Apart s.tags := by
  induction h with
  | start =>
      refine ⟨Tracked.sound_empty, ?_, ?_⟩
      · simp [tags, ofConfig]
      · simp [tags, ofConfig, Broker.buffered]
  | next _ _ ih => exact apart_act ih _

/-- A delivery belongs to one job. -/
theorem eq_of_tag_eq {s : Station} (h : s.tracked.Apart s.tags) {k k' : Nat} {w w' : Worker}
    (hw : s.workers[k]? = some w) (hw' : s.workers[k']? = some w') {p p' : PendingSubmission}
    (hp : p ∈ w.batch) (hp' : p' ∈ w'.batch) (htag : p.handle.tag = p'.handle.tag) : k = k' := by
  have hown := (List.nodup_append.1 h.nodup).2.1
  have hwork := (List.nodup_append.1 hown).2.1
  have hmem : p.handle.tag ∈ w.tags := List.mem_map_of_mem hp
  have hmem' : p.handle.tag ∈ w'.tags := htag ▸ List.mem_map_of_mem hp'
  exact eq_of_mem_flatMap (List.nodup_append.1 hwork).2.1 hw hw' hmem hmem'

end Station

end HashCalendar
