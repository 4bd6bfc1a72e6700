/-
**Jobs in one go.**

A job of either tier publishes its messages and settles its deliveries.  When nobody calls in
between, the calls that it makes depend on the broker alone, since it stops publishing at the first
message that is not taken.  This module says which calls these are, and what settling does to
deliveries that are unacknowledged on an open connection: each of them is over in the way in which
it was to be settled.  All other deliveries stay unacknowledged, unless the connection closes.

Main definitions:

* `HashCalendar.Job`, `HashCalendar.Job.work` — a job of either tier, and carrying it out;
* `HashCalendar.Job.calls` — the calls that it makes;
* `HashCalendar.Tracked.settleAll` — settles deliveries one after the other;
* `HashCalendar.Tracked.CanSettle` — deliveries that can be settled.

Main results:

* `HashCalendar.Job.performAll_calls` — **the calls of a job carry it out**;
* `HashCalendar.Tracked.CanSettle.mem_settled`, `HashCalendar.Tracked.CanSettle.ackAll` — what can
  be settled is settled;
* `HashCalendar.Tracked.Moves.unacked_or_lost` — what nobody settles stays unacknowledged, or it is
  lost with its connection.
-/

import HashCalendar.Proofs.Aggregation.Runs
import HashCalendar.Proofs.Broker.Fetching
import HashCalendar.Proofs.Calendar.Runs

set_option relaxedAutoImplicit false
set_option autoImplicit false

namespace HashCalendar

/-! ### The calls of a batch -/

namespace Broker

/-- The calls by which messages are published, up to the first that is not taken. -/
def publishCalls (b : Broker) (ch : Channel) : List Outbound → List Call
  | [] => []
  | m :: ms =>
    .publish ch m ::
      match b.publish ch m with
      | (b, .ok ()) => publishCalls b ch ms
      | (_, .error _) => []

/-- The call by which a delivery is settled, if all messages of its batch were published, or if
not. -/
def settleCall (published : Bool) (h : Handle) : Call :=
  if published then .ack h else .nack h true

/-- The calls by which the messages of a batch are published and its deliveries are settled. -/
def batchCalls (b : Broker) (ch : Channel) (messages : List Outbound) (handles : List Handle) :
    List Call :=
  b.publishCalls ch messages ++ handles.map (settleCall (b.publishAll ch messages).2.isOk)

theorem mem_publishCalls {b : Broker} {ch : Channel} {ms : List Outbound} {c : Call}
    (h : c ∈ b.publishCalls ch ms) : ∃ m ∈ ms, c = .publish ch m := by
  induction ms generalizing b with
  | nil => cases h
  | cons m ms ih =>
      rw [publishCalls] at h
      rcases List.mem_cons.1 h with rfl | h
      · exact ⟨m, List.mem_cons_self, rfl⟩
      · cases hp : b.publish ch m with
        | mk b' result =>
            rw [hp] at h
            cases result with
            | ok u =>
                obtain ⟨m', hm', heq⟩ := ih h
                exact ⟨m', List.mem_cons_of_mem m hm', heq⟩
            | error e => cases h

theorem performAll_publishCalls (b : Broker) (ch : Channel) (ms : List Outbound) :
    b.performAll (b.publishCalls ch ms) = (b.publishAll ch ms).1 := by
  induction ms generalizing b with
  | nil => rfl
  | cons m ms ih =>
      rw [publishCalls, publishAll, performAll_cons, perform]
      cases hp : b.publish ch m with
      | mk b' result =>
          cases result with
          | ok u => exact ih b'
          | error e => rfl

theorem performAll_settleCalls (b : Broker) (handles : List Handle) (published : Bool) :
    b.performAll (handles.map (settleCall published)) = (b.settle handles published).1 := by
  cases published with
  | true =>
      change _ = (b.ackAll handles).1
      induction handles generalizing b with
      | nil => rfl
      | cons h hs ih =>
          rw [List.map_cons, performAll_cons, ackAll]
          cases ha : b.ack h with
          | mk b' result =>
              have hcall : b.perform (settleCall true h) = b' := congrArg Prod.fst ha
              rw [hcall, ih]
              cases result with
              | ok u => rfl
              | error e => rfl
  | false =>
      change _ = b.giveBackAll handles
      induction handles generalizing b with
      | nil => rfl
      | cons h hs ih => exact ih _

theorem performAll_batchCalls (b : Broker) (ch : Channel) (messages : List Outbound)
    (handles : List Handle) :
    b.performAll (b.batchCalls ch messages handles) =
      (b.publishAndSettle ch messages handles).1 := by
  rw [batchCalls, performAll_append, performAll_publishCalls, performAll_settleCalls]
  rfl

end Broker

/-! ### Jobs -/

/-- A job of one of the tiers. -/
inductive Job where
  | aggregation (job : AggregationJob)
  | finalize (job : FinalizeJob)

namespace Job

/-- The channel that a job publishes through. -/
def channel : Job → Channel
  | .aggregation job => job.channel
  | .finalize job => job.channel

/-- The deliveries that a job settles. -/
def handles : Job → List Handle
  | .aggregation job => job.handles
  | .finalize job => job.handles

/-- The messages that a job publishes, if it could be prepared. -/
def messages? : Job → Option (List Outbound)
  | .aggregation job => job.prepared.toOption.map Prod.snd
  | .finalize job => some job.messages

/-- Carries a job out; how its deliveries were settled. -/
def work (b : Broker) : Job → Broker × Outcome
  | .aggregation job => job.commit b
  | .finalize job => ((job.run b).1, (job.run b).2.1.settled)

/-- How far the work on a job is at its start. -/
def start (job : Job) : Progress :=
  match job.messages? with
  | some messages => .publishing messages
  | none => .returning job.handles

/-- The calls that a job makes when nobody calls in between. -/
def calls (b : Broker) (job : Job) : List Broker.Call :=
  match job.messages? with
  | some messages => b.batchCalls job.channel messages job.handles
  | none => job.handles.map (Broker.settleCall false)

theorem work_of_messages? {job : Job} {messages : List Outbound}
    (h : job.messages? = some messages) (b : Broker) :
    job.work b = b.publishAndSettle job.channel messages job.handles := by
  cases job with
  | aggregation job =>
      rw [work, AggregationJob.commit]
      rw [messages?] at h
      cases hp : job.prepared with
      | ok p =>
          rw [hp] at h
          cases h
          rfl
      | error e =>
          rw [hp] at h
          cases h
  | finalize job =>
      cases h
      exact Prod.ext (job.run_eq b).1 (job.run_eq b).2.1

/-- A job that could not be prepared gives its deliveries back. -/
theorem work_of_messages?_none {job : Job} (h : job.messages? = none) (b : Broker) :
    job.work b = b.settle job.handles false := by
  cases job with
  | aggregation job =>
      rw [work, AggregationJob.commit]
      rw [messages?] at h
      cases hp : job.prepared with
      | ok p =>
          rw [hp] at h
          cases h
      | error e => rfl
  | finalize job => cases h

/-- The calls of a job carry it out. -/
theorem performAll_calls (job : Job) (b : Broker) :
    b.performAll (job.calls b) = (job.work b).1 := by
  rw [calls]
  cases h : job.messages? with
  | some messages => rw [work_of_messages? h, Broker.performAll_batchCalls]
  | none => rw [work_of_messages?_none h, Broker.performAll_settleCalls]

theorem performAll_calls_broker (job : Job) (t : Tracked) :
    (t.performAll (job.calls t.broker)).broker = (job.work t.broker).1 := by
  rw [Tracked.performAll_broker, performAll_calls]

end Job

/-! ### Deliveries that nobody settles -/

/-- The handle finds the delivery that it belongs to. -/
theorem Broker.handle_of_unacked? {b : Broker} {h : Handle} {entry : Broker.Unacked}
    (hu : b.unacked? h.generation h.tag = some entry) : entry.handle = h := by
  rw [Unacked.handle, (unacked?_eq_some hu).2, tag_of_unacked? hu]

/-- The delivery that a call is to settle. -/
def Broker.Call.settles? : Broker.Call → Option Handle
  | .ack h => some h
  | .nack h _ => some h
  | _ => none

theorem Broker.settles?_settleCall (published : Bool) (h : Handle) :
    (settleCall published h).settles? = some h := by
  cases published with
  | true => rfl
  | false => rfl

/-- Deliveries are settled only if their handles allow it; all else may happen. -/
def Broker.Policy.settling (p : Handle → Prop) : Broker.Policy where
  arrive _ _ := True
  settle entry _ := p entry.handle
  take _ := True

theorem Broker.Policy.settling_allows {p : Handle → Prop} {c : Call}
    (h : ∀ handle ∈ c.settles?, p handle) (b : Broker) : (settling p).Allows b c := by
  have hentry : ∀ handle ∈ c.settles?, ∀ entry,
      b.unacked? handle.generation handle.tag = some entry → p entry.handle := by
    intro handle hhandle entry he
    rw [handle_of_unacked? he]
    exact h handle hhandle
  cases c with
  | ack handle => exact fun entry he => hentry handle rfl entry he
  | nack handle back => exact fun entry he => hentry handle rfl entry he
  | _ => exact trivial

namespace Tracked

/-- What a move does not settle stays unacknowledged, or it is lost with its connection. -/
theorem Move.unacked_or_lost {r : Broker.Rules} {t t' : Tracked} (h : Move r t t')
    (hs : t.Sound) {u : Broker.Unacked} (hu : u ∈ t.broker.unacked)
    (hr : ∀ fate, ¬ r.settle u fate) :
    u ∈ t'.broker.unacked ∨
      (u ∈ t'.ledger.lost ∧ t.broker.generation < t'.broker.generation) := by
  cases h with
  | handOver count hq hc hl => exact Or.inl (List.mem_append_left _ hu)
  | @settle generation tag entry fate he hsettle =>
      refine Or.inl ((mem_settle_unacked ..).2 ⟨hu, ?_⟩)
      intro htag
      -- It would be the delivery that is settled.
      have hentry := List.mem_of_find?_eq_some (Broker.unacked?_eq_some he).1
      have heq : u = entry := hs.eq_of_tag_eq (hs.mem_handed_of_unacked hu)
        (hs.mem_handed_of_unacked hentry) (htag.trans (Broker.tag_of_unacked? he).symm)
      exact hr fate (heq ▸ hsettle)
  | close =>
      refine Or.inr ⟨List.mem_append_right _ hu, ?_⟩
      rw [Tracked.close, Broker.close_generation]
      exact Nat.lt_succ_self _
  | @take name ht => exact Or.inl ((Broker.take_unacked t.broker name).symm ▸ hu)
  | @receive stream hl =>
      refine Or.inl ?_
      rw [setBroker_broker, t.broker.receive_eq stream]
      exact hu
  | _ => exact Or.inl hu

/-- Moves keep the ledger sound and let it grow. -/
theorem Moves.sound {r : Broker.Rules} {t t' : Tracked} (h : Moves r t t') (hs : t.Sound) :
    t'.Sound :=
  h.keep (fun hm => (keeps_sound r.toPolicy).move hm.free) hs

theorem Moves.grows {r : Broker.Rules} {t t' : Tracked} (h : Moves r t t') :
    t.ledger.Grows r.toPolicy t'.ledger :=
  h.keep (P := fun t' => t.ledger.Grows r.toPolicy t'.ledger)
    (fun hm => (Ledger.Grows.keeps r.toPolicy t.ledger).move hm.free) (.refl _ _)

theorem Moves.generation_le {r : Broker.Rules} {t t' : Tracked} (h : Moves r t t') :
    t.broker.generation ≤ t'.broker.generation :=
  h.keep (P := fun t' => t.broker.generation ≤ t'.broker.generation)
    (fun hm hle => Nat.le_trans hle hm.generation_le) (Nat.le_refl _)

/-- What moves do not settle stays unacknowledged, or it is lost with its connection. -/
theorem Moves.unacked_or_lost {r : Broker.Rules} {t t' : Tracked} (h : Moves r t t')
    (hs : t.Sound) {u : Broker.Unacked} (hu : u ∈ t.broker.unacked)
    (hr : ∀ fate, ¬ r.settle u fate) :
    u ∈ t'.broker.unacked ∨
      (u ∈ t'.ledger.lost ∧ t.broker.generation < t'.broker.generation) := by
  induction h with
  | refl => exact Or.inl hu
  | @tail mid last hmoves hmove ih =>
      rcases ih with hu' | ⟨hlost, hlt⟩
      · have hle := Moves.generation_le hmoves
        exact (hmove.unacked_or_lost (Moves.sound hmoves hs) hu' hr).imp_right
          fun ⟨hlost, hlt⟩ => ⟨hlost, Nat.lt_of_le_of_lt hle hlt⟩
      · have hgrows := Moves.grows (.single hmove)
        exact Or.inr ⟨hgrows.lost.mem hlost, Nat.lt_of_lt_of_le hlt hmove.generation_le⟩

/-! ### Settling deliveries one after the other -/

/-- Settles the deliveries of handles one after the other. -/
def settleAll (t : Tracked) (handles : List Handle) (fate : Fate) : Tracked :=
  handles.foldl (fun t h => t.settleHandle h fate) t

@[simp] theorem settleAll_nil (t : Tracked) (fate : Fate) : t.settleAll [] fate = t := rfl

@[simp] theorem settleAll_cons (t : Tracked) (h : Handle) (hs : List Handle) (fate : Fate) :
    t.settleAll (h :: hs) fate = (t.settleHandle h fate).settleAll hs fate := rfl

theorem performAll_settleCalls (t : Tracked) (handles : List Handle) (published : Bool) :
    t.performAll (handles.map (Broker.settleCall published)) =
      t.settleAll handles (if published then .acked else .returned) := by
  induction handles generalizing t with
  | nil => rfl
  | cons h hs ih =>
      rw [List.map_cons, performAll_cons, settleAll_cons, ih]
      cases published with
      | true => rfl
      | false => rfl

end Tracked

/-- Only the deliveries of handles are settled, all in one way. -/
def Broker.Policy.finish (fate : Fate) (handles : List Handle) : Broker.Policy where
  arrive _ _ := False
  settle entry fate' := fate' = fate ∧ entry.handle ∈ handles
  take _ := False

/-- The deliveries that were settled in a way. -/
def Ledger.settled (l : Ledger) : Fate → List Broker.Unacked
  | .acked => l.acked
  | .discarded => l.discarded
  | .returned => l.returned

theorem Ledger.settled_record (l : Ledger) (u : Broker.Unacked) (fate : Fate) :
    (l.record u fate).settled fate = l.settled fate ++ [u] := by
  cases fate <;> rfl

theorem Ledger.Grows.mem_settled {p : Broker.Policy} {l l' : Ledger} (h : l.Grows p l')
    {fate : Fate} {u : Broker.Unacked} (hu : u ∈ l.settled fate) : u ∈ l'.settled fate := by
  cases fate with
  | acked => exact h.acked.mem hu
  | discarded => exact h.discarded.mem hu
  | returned => exact h.returned.mem hu

/-- Within a policy that lets nothing be taken out, acknowledged or discarded, nothing is. -/
theorem Ledger.Grows.undone {p : Broker.Policy} {l l' : Ledger} (h : l.Grows p l')
    (hacked : ∀ u, ¬ p.settle u .acked) (hdiscarded : ∀ u, ¬ p.settle u .discarded)
    (htaken : ∀ name, ¬ p.take name) :
    l'.acked = l.acked ∧ l'.discarded = l.discarded ∧ l'.taken = l.taken :=
  ⟨h.acked.eq_of_forall_not hacked, h.discarded.eq_of_forall_not hdiscarded,
    h.taken.eq_of_forall_not fun q => htaken q.1⟩

theorem Ledger.mem_ended_of_settled {l : Ledger} {fate : Fate} {u : Broker.Unacked}
    (hu : u ∈ l.settled fate) : u ∈ l.ended := by
  rw [settled.eq_def] at hu
  cases fate with
  | acked => simp [ended, hu]
  | discarded => simp [ended, hu]
  | returned => simp [ended, hu]

/-- What is over is not unacknowledged. -/
theorem Tracked.Sound.not_mem_unacked {t : Tracked} (h : t.Sound) {u : Broker.Unacked}
    (hu : u ∈ t.ledger.ended) : u ∉ t.broker.unacked := by
  have hnodup := h.fates.nodup_iff.1 (List.Nodup.of_map _ h.handed_tags)
  exact fun hu' => (List.nodup_append.1 hnodup).2.2 u hu' u hu rfl

namespace Tracked

theorem moves_settleAll {r : Broker.Rules} {handles : List Handle} {fate : Fate}
    (h : ∀ entry : Broker.Unacked, entry.handle ∈ handles → r.settle entry fate) (t : Tracked) :
    Moves r t (t.settleAll handles fate) := by
  induction handles generalizing t with
  | nil => exact .refl
  | cons handle hs ih =>
      have hfirst : Moves r t (t.settleHandle handle fate) :=
        moves_settleHandle fun entry he =>
          h entry (Broker.handle_of_unacked? he ▸ List.mem_cons_self)
      exact hfirst.trans (ih (fun entry he => h entry (List.mem_cons_of_mem _ he)) _)

/-- Settling deliveries settles these only, and does nothing else to the ledger. -/
theorem moves_finish (t : Tracked) (handles : List Handle) (fate : Fate) :
    Moves (Broker.Policy.finish fate handles).free t (t.settleAll handles fate) :=
  moves_settleAll (r := (Broker.Policy.finish fate handles).free) (fun _ he => ⟨rfl, he⟩) t

/-- Settling one delivery settles no other. -/
theorem moves_finish_one (t : Tracked) (h : Handle) (fate : Fate) :
    Moves (Broker.Policy.finish fate [h]).free t (t.settleHandle h fate) :=
  t.moves_finish [h] fate

end Tracked

/-- The connection and the limits on publishing are the same. -/
structure Broker.SameConnection (b b' : Broker) : Prop where
  generation : b'.generation = b.generation
  reachable : b'.reachable = b.reachable
  budget : b'.budget = b.budget
  closeAfter : b'.closeAfter = b.closeAfter

namespace Broker.SameConnection

variable {b b' b'' : Broker}

theorem refl (b : Broker) : b.SameConnection b := ⟨rfl, rfl, rfl, rfl⟩

theorem trans (h : b.SameConnection b') (h' : b'.SameConnection b'') : b.SameConnection b'' where
  generation := h'.generation.trans h.generation
  reachable := h'.reachable.trans h.reachable
  budget := h'.budget.trans h.budget
  closeAfter := h'.closeAfter.trans h.closeAfter

theorem of_steady (h : b.Steady b') : b.SameConnection b' :=
  ⟨h.generation, h.reachable, h.budget, h.closeAfter⟩

theorem isOpen (h : b.SameConnection b') (generation : Nat) :
    b'.isOpen generation = b.isOpen generation := by
  rw [Broker.isOpen, Broker.isOpen, h.generation, h.reachable]

end Broker.SameConnection

namespace Tracked

theorem sameConnection_settle (t : Tracked) (tag : Nat) (entry : Broker.Unacked) (fate : Fate) :
    t.broker.SameConnection (t.settle tag entry fate).broker := by
  cases fate with
  | acked => exact ⟨rfl, rfl, rfl, rfl⟩
  | discarded => exact ⟨rfl, rfl, rfl, rfl⟩
  | returned => exact ⟨rfl, rfl, rfl, rfl⟩

theorem sameConnection_settleHandle (t : Tracked) (h : Handle) (fate : Fate) :
    t.broker.SameConnection (t.settleHandle h fate).broker := by
  rw [settleHandle]
  by_cases ho : t.broker.isOpen h.generation = true
  · rw [if_pos ho]
    cases t.broker.unacked? h.generation h.tag with
    | none => exact .refl _
    | some entry =>
        exact (t.sameConnection_settle h.tag entry fate).trans
          (.of_steady (steady_dispatch _ _).toSteady)
  · rw [if_neg ho]
    exact .refl _

theorem sameConnection_settleAll (t : Tracked) (handles : List Handle) (fate : Fate) :
    t.broker.SameConnection (t.settleAll handles fate).broker := by
  induction handles generalizing t with
  | nil => exact .refl _
  | cons h hs ih => exact (t.sameConnection_settleHandle h fate).trans (ih _)

/-! ### Deliveries that can be settled -/

/-- Deliveries that can be settled: they are unacknowledged, none of them is there twice, and their
connection is open. -/
structure CanSettle (t : Tracked) (handles : List Handle) : Prop where
  sound : t.Sound
  nodup : handles.Nodup
  isOpen : ∀ h ∈ handles, t.broker.isOpen h.generation = true
  held : ∀ h ∈ handles, ∃ u ∈ t.broker.unacked, u.handle = h

namespace CanSettle

variable {t : Tracked} {h : Handle} {handles : List Handle}

/-- A handle claims the delivery that it belongs to. -/
theorem unacked? (hc : t.CanSettle (h :: handles)) :
    ∃ u ∈ t.broker.unacked, u.handle = h ∧ t.broker.unacked? h.generation h.tag = some u := by
  obtain ⟨u, hu, rfl⟩ := hc.held h List.mem_cons_self
  exact ⟨u, hu, rfl, Broker.unacked?_of_mem hc.sound.unacked_tags hu⟩

/-- A delivery that is not settled stays unacknowledged. -/
theorem mem_unacked (hc : t.CanSettle (h :: handles)) (fate : Fate) {u : Broker.Unacked}
    (hu : u ∈ t.broker.unacked) (hne : u.handle ≠ h) :
    u ∈ (t.settleHandle h fate).broker.unacked := by
  have hspared : ∀ fate', ¬ (Broker.Policy.finish fate [h]).settle u fate' :=
    fun _ hsettle => hne (List.mem_singleton.1 hsettle.2)
  rcases (t.moves_finish_one h fate).unacked_or_lost hc.sound hu hspared with hu' | ⟨-, hlt⟩
  · exact hu'
  · rw [(t.sameConnection_settleHandle h fate).generation] at hlt
    exact absurd hlt (Nat.lt_irrefl _)

/-- After one of the deliveries was settled, the others can be. -/
theorem next (hc : t.CanSettle (h :: handles)) (fate : Fate) :
    (t.settleHandle h fate).CanSettle handles where
  sound := (t.moves_finish_one h fate).sound hc.sound
  nodup := (List.nodup_cons.1 hc.nodup).2
  isOpen h' hh' := by
    rw [(t.sameConnection_settleHandle h fate).isOpen]
    exact hc.isOpen h' (List.mem_cons_of_mem _ hh')
  held h' hh' := by
    obtain ⟨u, hu, rfl⟩ := hc.held h' (List.mem_cons_of_mem _ hh')
    refine ⟨u, hc.mem_unacked fate hu ?_, rfl⟩
    rintro rfl
    exact (List.nodup_cons.1 hc.nodup).1 hh'

/-- What can be settled is settled. -/
theorem mem_settled (hc : t.CanSettle handles) (fate : Fate) {u : Broker.Unacked}
    (hu : u ∈ t.broker.unacked) (hhandle : u.handle ∈ handles) :
    u ∈ (t.settleAll handles fate).ledger.settled fate := by
  induction handles generalizing t with
  | nil => cases hhandle
  | cons h hs ih =>
      rw [settleAll_cons]
      by_cases heq : u.handle = h
      · obtain ⟨v, hv, hvh, hclaim⟩ := hc.unacked?
        have huv : u = v := hc.sound.eq_of_tag_eq (hc.sound.mem_handed_of_unacked hu)
          (hc.sound.mem_handed_of_unacked hv) (congrArg Handle.tag (heq.trans hvh.symm))
        have hsettled : u ∈ (t.settleHandle h fate).ledger.settled fate := by
          rw [settleHandle, if_pos (hc.isOpen h List.mem_cons_self), hclaim]
          change u ∈ (t.ledger.record v fate).settled fate
          rw [Ledger.settled_record, huv]
          exact List.mem_append_right _ List.mem_cons_self
        exact ((t.settleHandle h fate).moves_finish hs fate).grows.mem_settled hsettled
      · exact ih (hc.next fate) (hc.mem_unacked fate hu heq)
          (List.mem_of_ne_of_mem heq hhandle)

/-- Acknowledging what can be settled goes well. -/
theorem ack (hc : t.CanSettle (h :: handles)) : (t.broker.ack h).2 = .ok () := by
  obtain ⟨u, -, -, hclaim⟩ := hc.unacked?
  rw [Broker.ack_eq_ok_iff, Broker.claimed?, if_pos (hc.isOpen h List.mem_cons_self), hclaim]
  rfl

/-- Every acknowledgement of what can be settled goes well. -/
theorem ackAll (hc : t.CanSettle handles) : (t.broker.ackAll handles).2 = handles.length := by
  induction handles generalizing t with
  | nil => rfl
  | cons h hs ih =>
      have hrest := ih (hc.next .acked)
      rw [settleHandle_acked_broker] at hrest
      have hack := hc.ack
      rw [Broker.ackAll]
      cases ha : t.broker.ack h with
      | mk b result =>
          rw [ha] at hack hrest
          cases hack
          exact congrArg (· + 1) hrest

end CanSettle

end Tracked

theorem Broker.isOpen_iff {b : Broker} {generation : Nat} :
    b.isOpen generation = true ↔ b.reachable = true ∧ generation = b.generation := by
  simp [Broker.isOpen]

/-- After any calls, distinct unacknowledged deliveries can be settled while the connection is
open. -/
theorem canSettle_trackedRun {calls : List Broker.Call} {generation : Nat} {handles : List Handle}
    (hopen : (trackedRun calls).broker.isOpen generation = true) (hnodup : handles.Nodup)
    (hheld : ∀ h ∈ handles, ∃ u ∈ (trackedRun calls).broker.unacked, u.handle = h) :
    (trackedRun calls).CanSettle handles := by
  refine ⟨sound_trackedRun calls, hnodup, ?_, hheld⟩
  intro h hh
  obtain ⟨u, hu, rfl⟩ := hheld h hh
  -- All that is unacknowledged belongs to the connection that there is.
  exact Broker.isOpen_iff.2
    ⟨(Broker.isOpen_iff.1 hopen).1, (current_trackedRun calls).unacked u hu⟩

end HashCalendar
