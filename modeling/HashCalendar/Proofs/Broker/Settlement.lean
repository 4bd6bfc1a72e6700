/-
**A delivery is settled at most once, and on its own connection.**

Consumers and unacknowledged messages belong to the connection that there is: closing it does away
with all of them.  No tag is used twice, neither on one connection nor on two.  So a handle settles
its delivery exactly if its connection is still there and nobody has settled the delivery before;
and a handle from before a closing of the connection settles nothing any more, least of all the
delivery under which its message is handed over anew.

Main definitions:

* `HashCalendar.Tracked.Current` — consumers and unacknowledged messages are of this connection;
* `HashCalendar.Broker.settled?`, `HashCalendar.Broker.settledTags` — the deliveries that calls
  settle.

Main results:

* `HashCalendar.Tracked.Current.move` — **every move keeps them so**;
* `HashCalendar.Broker.claimed?_isSome_iff` — which handles settle a delivery;
* `HashCalendar.Tracked.subperm_settledTags` — the ledger tells all that was settled;
* `HashCalendar.deliveries_settled_once_on_their_connection` — **a delivery is settled once, and
  never through an old handle**.
-/

import HashCalendar.Proofs.Broker.Growth
import HashCalendar.Proofs.Broker.Holding

set_option relaxedAutoImplicit false
set_option autoImplicit false

namespace HashCalendar

namespace Tracked

/-! ### All is of this connection -/

/-- Consumers and unacknowledged messages are of the connection that there is. -/
structure Current (t : Tracked) : Prop where
  consumer : ∀ name c, t.broker.consumer? name = some c → c.generation = t.broker.generation
  unacked : ∀ u ∈ t.broker.unacked, u.generation = t.broker.generation

namespace Current

variable {t t' : Tracked}

theorem empty : Current {} where
  consumer _ _ h := nomatch h
  unacked _ h := absurd h List.not_mem_nil

/-- On one connection it is enough that no consumer and no unacknowledged message is new. -/
theorem of_subset (h : t.Current) (hg : t'.broker.generation = t.broker.generation)
    (hc : ∀ name c, t'.broker.consumer? name = some c → t.broker.consumer? name = some c)
    (hu : t'.broker.unacked ⊆ t.broker.unacked) : t'.Current where
  consumer name c hn := (h.consumer name c (hc name c hn)).trans hg.symm
  unacked u hm := (h.unacked u (hu hm)).trans hg.symm

/-- Every move keeps consumers and unacknowledged messages of this connection. -/
theorem move {r : Broker.Rules} (hm : Move r t t') (h : t.Current) : t'.Current := by
  cases hm with
  | enqueue ha =>
      refine h.of_subset rfl ?_ (List.Subset.refl _)
      intro name c hc
      rwa [Tracked.enqueue, Broker.consumer?_enqueue] at hc
  | @handOver name q c count hq hc hl =>
      have hcurrent := h.consumer name c ((Broker.consumer?_of_queue? hq).trans hc)
      constructor
      case consumer =>
        intro n d hd
        rw [Tracked.handOver, Broker.consumer?_handOver] at hd
        exact h.consumer n d hd
      case unacked =>
        intro u hu
        rcases List.mem_append.1 hu with hu | hu
        · exact h.unacked u hu
        · obtain ⟨d, -, rfl⟩ := List.mem_map.1 hu
          exact hcurrent
  | @forget name q c hq hc hl =>
      refine h.of_subset rfl ?_ (List.Subset.refl _)
      intro n d hd
      rw [setBroker_broker, Broker.consumer?_forget] at hd
      by_cases hn : n = name
      · rw [if_pos hn] at hd
        cases hd
      · rwa [if_neg hn] at hd
  | settle he hs =>
      refine h.of_subset (settle_generation ..) ?_ fun u hu => ((mem_settle_unacked ..).1 hu).1
      intro name c hc
      rwa [consumer?_settle] at hc
  | close =>
      constructor
      case consumer =>
        intro name c hc
        rw [Tracked.close, Broker.consumer?_close] at hc
        cases hc
      case unacked =>
        intro u hu
        rw [Tracked.close, Broker.close_unacked] at hu
        cases hu
  | @take name ht =>
      refine h.of_subset ?_ ?_ ?_
      · rw [Tracked.take, Broker.take_eq]
      · intro n c hc
        rwa [Tracked.take, Broker.consumer?_take] at hc
      · exact (Broker.take_unacked t.broker name) ▸ List.Subset.refl _
  | limit budget closeAfter => exact h.of_subset rfl (fun _ _ => id) (List.Subset.refl _)
  | reach hr => exact h.of_subset rfl (fun _ _ => id) (List.Subset.refl _)
  | declare name =>
      refine h.of_subset rfl ?_ (List.Subset.refl _)
      intro n c hc
      rwa [setBroker_broker, Broker.consumer?_modify_ready _ name id fun _ => rfl] at hc
  | @register ch name hc ho =>
      rw [Broker.isOpen, Bool.and_eq_true, decide_eq_true_eq] at ho
      refine ⟨?_, h.unacked⟩
      intro n c hn
      rw [setBroker_broker, Broker.consumer?_register] at hn
      by_cases hname : n = name
      · rw [if_pos hname] at hn
        cases hn
        exact ho.2
      · rw [if_neg hname] at hn
        exact h.consumer n c hn
  | @receive stream hl =>
      have heq := t.broker.receive_eq stream
      refine h.of_subset ?_ ?_ ?_
      · rw [setBroker_broker, heq]
      · intro n c hc
        rwa [setBroker_broker, Broker.consumer?_of_queues (Broker.receive_queues _ _)] at hc
      · rw [setBroker_broker, heq]
        exact List.Subset.refl _
  | dropStream hl => exact h.of_subset rfl (fun _ _ => id) (List.Subset.refl _)

end Current

/-- No move goes back to an earlier connection. -/
theorem Move.generation_le {r : Broker.Rules} {t t' : Tracked} (h : Move r t t') :
    t.broker.generation ≤ t'.broker.generation := by
  cases h with
  | close => simp [Tracked.close]
  | settle he hs => exact Nat.le_of_eq (settle_generation ..).symm
  | @take name ht =>
      have hsame : (t.take name).broker.generation = t.broker.generation := by
        rw [Tracked.take, Broker.take_eq]
      exact Nat.le_of_eq hsame.symm
  | @receive stream hl =>
      have hsame : (t.broker.receive stream).1.generation = t.broker.generation := by
        rw [t.broker.receive_eq stream]
      exact Nat.le_of_eq hsame.symm
  | _ => exact Nat.le_refl _

/-- Any calls are moves within the policy that allows all. -/
theorem moves_any (t : Tracked) (calls : List Broker.Call) :
    Moves Broker.Policy.any.free t (t.performAll calls) :=
  moves_performAll fun c _ b => Broker.Policy.free_allows (Broker.Policy.any_allows b c)

theorem generation_le_performAll (t : Tracked) (calls : List Broker.Call) :
    t.broker.generation ≤ (t.performAll calls).broker.generation :=
  (moves_any t calls).keep (fun hm h => Nat.le_trans h hm.generation_le) (Nat.le_refl _)

end Tracked

theorem current_trackedRun (calls : List Broker.Call) : (trackedRun calls).Current :=
  (Tracked.moves_any {} calls).keep Tracked.Current.move .empty

namespace Broker

/-! ### Which handles settle a delivery -/

/-- The check of the connection of a delivery never fails where that of the channel succeeds. -/
theorem unacked?_eq_find? {b : Broker} (h : ∀ u ∈ b.unacked, u.generation = b.generation)
    (tag : Nat) : b.unacked? b.generation tag = b.unacked.find? fun u => u.tag = tag := by
  rw [unacked?]
  cases hfind : b.unacked.find? fun u => u.tag = tag with
  | none => rfl
  | some u => simp [h u (List.mem_of_find?_eq_some hfind)]

theorem claimed?_isSome_iff {b : Broker} (h : ∀ u ∈ b.unacked, u.generation = b.generation)
    (handle : Handle) : (b.claimed? handle).isSome = true ↔
      b.reachable = true ∧ handle.generation = b.generation ∧
        ∃ u ∈ b.unacked, u.tag = handle.tag := by
  rw [claimed?, isOpen]
  by_cases hr : b.reachable = true
  · by_cases hg : handle.generation = b.generation
    · simp [hr, hg, unacked?_eq_find? h]
    · simp [hg]
  · simp [hr]

/-- A handle settles its delivery exactly if it claims one, whichever way it is to be settled. -/
theorem ack_eq_ok_iff (b : Broker) (h : Handle) :
    (b.ack h).2 = .ok () ↔ (b.claimed? h).isSome = true := by
  rcases b.ack_cases h with ⟨hc, e, heq⟩ | ⟨entry, hc, heq⟩
  · simp [hc, heq]
  · simp [hc, heq]

theorem nack_eq_ok_iff (b : Broker) (h : Handle) (back : Bool) :
    (b.nack h back).2 = .ok () ↔ (b.claimed? h).isSome = true := by
  rcases b.nack_cases h back with ⟨hc, e, heq⟩ | ⟨entry, hc, heq⟩
  · simp [hc, heq]
  · simp [hc, heq]

/-- A handle of another connection changes nothing. -/
theorem ack_of_not_isOpen {b : Broker} {h : Handle} (ho : ¬ b.isOpen h.generation = true) :
    b.ack h = (b, .error .channelClosed) := by
  rw [ack, if_neg ho]

theorem nack_of_not_isOpen {b : Broker} {h : Handle} (ho : ¬ b.isOpen h.generation = true)
    (back : Bool) : b.nack h back = (b, .error .channelClosed) := by
  rw [nack, if_neg ho]

/-! ### What calls settle -/

/-- The tag of the delivery that a call settles, if it does. -/
def settled? (b : Broker) : Call → Option Nat
  | .ack h => if (b.ack h).2 = .ok () then some h.tag else none
  | .nack h back => if (b.nack h back).2 = .ok () then some h.tag else none
  | _ => none

/-- The tags of the deliveries that calls settle, one after the other. -/
def settledTags (b : Broker) : List Call → List Nat
  | [] => []
  | c :: cs => (b.settled? c).toList ++ (b.perform c).settledTags cs

end Broker

/-- A ledger that has grown tells of all that was over before. -/
theorem Ledger.Grows.ended_sublist {p : Broker.Policy} {l l' : Ledger} (h : l.Grows p l') :
    l.ended.Sublist l'.ended := by
  obtain ⟨acked, ha, -⟩ := h.acked
  obtain ⟨discarded, hd, -⟩ := h.discarded
  obtain ⟨returned, hr, -⟩ := h.returned
  obtain ⟨lost, hl, -⟩ := h.lost
  rw [Ledger.ended, Ledger.ended, ha, hd, hr, hl]
  exact (((List.sublist_append_left _ _).append (List.sublist_append_left _ _)).append
    (List.sublist_append_left _ _)).append (List.sublist_append_left _ _)

namespace Tracked

/-- Settling the delivery of a handle is written down. -/
theorem settleHandle_ended {t : Tracked} {h : Handle} {entry : Broker.Unacked}
    (hc : t.broker.claimed? h = some entry) (fate : Fate) :
    (t.settleHandle h fate).ledger.ended.Perm (entry :: t.ledger.ended) := by
  rw [Broker.claimed?] at hc
  rw [settleHandle]
  by_cases ho : t.broker.isOpen h.generation = true
  · rw [if_pos ho] at hc
    rw [if_pos ho, hc]
    exact settle_ended t h.tag entry fate
  · rw [if_neg ho] at hc
    cases hc

theorem subperm_settleHandle {t : Tracked} {h : Handle} {entry : Broker.Unacked}
    (hc : t.broker.claimed? h = some entry) (fate : Fate) :
    (h.tag :: t.ledger.ended.map Broker.Unacked.tag).Subperm
      ((t.settleHandle h fate).ledger.ended.map Broker.Unacked.tag) := by
  have hperm := (settleHandle_ended hc fate).map Broker.Unacked.tag
  rw [List.map_cons, Broker.tag_of_unacked? (Broker.unacked?_of_claimed? hc)] at hperm
  exact hperm.symm.subperm

/-- The ledger tells what a call settles. -/
theorem subperm_settled? (t : Tracked) (c : Broker.Call) :
    ((t.broker.settled? c).toList ++ t.ledger.ended.map Broker.Unacked.tag).Subperm
      ((t.perform c).ledger.ended.map Broker.Unacked.tag) := by
  have hgrows : (t.ledger.ended.map Broker.Unacked.tag).Subperm
      ((t.perform c).ledger.ended.map Broker.Unacked.tag) :=
    ((Ledger.Grows.perform (Broker.Policy.any_allows t.broker c)).ended_sublist.map _).subperm
  cases c with
  | ack h =>
      rw [Broker.settled?]
      rcases t.broker.ack_cases h with ⟨-, e, heq⟩ | ⟨entry, hc, heq⟩
      · rw [heq]
        exact hgrows
      · rw [heq, if_pos rfl]
        exact subperm_settleHandle hc .acked
  | nack h back =>
      rw [Broker.settled?]
      rcases t.broker.nack_cases h back with ⟨-, e, heq⟩ | ⟨entry, hc, heq⟩
      · rw [heq]
        exact hgrows
      · rw [heq, if_pos rfl]
        exact subperm_settleHandle hc (if back then .returned else .discarded)
  | _ => exact hgrows

/-- The ledger tells all that calls settle. -/
theorem subperm_settledTags (t : Tracked) (calls : List Broker.Call) :
    (t.broker.settledTags calls ++ t.ledger.ended.map Broker.Unacked.tag).Subperm
      ((t.performAll calls).ledger.ended.map Broker.Unacked.tag) := by
  induction calls generalizing t with
  | nil => exact List.Subperm.refl _
  | cons c cs ih =>
      have hrest := ih (t.perform c)
      rw [perform_broker] at hrest
      refine List.Subperm.trans ?_ hrest
      rw [Broker.settledTags, List.append_assoc]
      -- What the first call settles goes to the end of what the others settle.
      refine (List.perm_append_comm_assoc _ _ _).subperm.trans ?_
      exact (List.subperm_append_left _).2 (subperm_settled? t c)

end Tracked

namespace Broker

/-- No tag is settled twice: whatever was settled is over, and the tags of what is over differ. -/
theorem nodup_settledTags (calls : List Call) : (settledTags {} calls).Nodup := by
  have hsound := sound_trackedRun calls
  obtain ⟨tags, hperm, hsub⟩ := Tracked.subperm_settledTags {} calls
  have htags := (hsound.fates.map Unacked.tag).nodup_iff.1 hsound.handed_tags
  rw [List.map_append] at htags
  have hended := (List.nodup_append.1 htags).2.1
  exact (List.nodup_append.1 (hperm.nodup_iff.1 (hended.sublist hsub))).1

/-- Once the connection of a channel was closed, the channel stays closed. -/
theorem not_isOpen_performAll {before between : List Call} {generation : Nat}
    (hold : generation ≤ (performAll {} before).generation)
    (hclosed : (performAll {} before).generation < (performAll {} (before ++ between)).generation)
    (after : List Call) :
    ¬ (performAll {} (before ++ between ++ after)).isOpen generation = true := by
  have hlater := Tracked.generation_le_performAll (trackedRun (before ++ between)) after
  rw [Tracked.performAll_broker, trackedRun_broker, ← performAll_append] at hlater
  rw [isOpen, Bool.and_eq_true, decide_eq_true_eq]
  rintro ⟨-, heq⟩
  omega

end Broker

/-- **A delivery is settled once, and never through an old handle.**  After any calls to a new
broker, consumers and unacknowledged messages are of the connection that there is; the tags that
were handed out increase and are below the next one.  So a handle settles its delivery exactly if
the broker is reachable, the handle is of this connection and its tag is unacknowledged: where the
connection of the handle passes the check, that of the delivery always does.

Over all calls each tag is settled once at most.  A handle of a connection that was closed in the
meantime is refused, and nothing changes. -/
theorem deliveries_settled_once_on_their_connection (calls : List Broker.Call) :
    let b := Broker.performAll {} calls
    let l := (trackedRun calls).ledger
    (∀ name c, b.consumer? name = some c → c.generation = b.generation) ∧
    (∀ u ∈ b.unacked, u.generation = b.generation) ∧
    (l.handed.Pairwise fun u v => u.tag < v.tag) ∧
    (∀ u ∈ l.handed, u.tag < b.nextTag) ∧
    (∀ h : Handle, (b.ack h).2 = .ok () ↔
      b.reachable = true ∧ h.generation = b.generation ∧ ∃ u ∈ b.unacked, u.tag = h.tag) ∧
    (∀ (h : Handle) (back : Bool), (b.nack h back).2 = .ok () ↔
      b.reachable = true ∧ h.generation = b.generation ∧ ∃ u ∈ b.unacked, u.tag = h.tag) ∧
    (∀ (h : Handle), b.isOpen h.generation = true →
      b.unacked? h.generation h.tag = b.unacked.find? fun u => u.tag = h.tag) ∧
    (Broker.settledTags {} calls).Nodup ∧
    (∀ before between after h, calls = before ++ between ++ after →
      h.generation ≤ (Broker.performAll {} before).generation →
      (Broker.performAll {} before).generation <
        (Broker.performAll {} (before ++ between)).generation →
      b.ack h = (b, .error .channelClosed) ∧
        ∀ back, b.nack h back = (b, .error .channelClosed)) := by
  intro b l
  have hb : (trackedRun calls).broker = b := trackedRun_broker calls
  have hcurrent := current_trackedRun calls
  have hsound := sound_trackedRun calls
  have hunacked : ∀ u ∈ b.unacked, u.generation = b.generation := hb ▸ hcurrent.unacked
  refine ⟨hb ▸ hcurrent.consumer, hunacked, hsound.tags_increase, hb ▸ hsound.tags_below,
    ?_, ?_, ?_, ?_, ?_⟩
  · intro h
    exact (b.ack_eq_ok_iff h).trans (Broker.claimed?_isSome_iff hunacked h)
  · intro h back
    exact (b.nack_eq_ok_iff h back).trans (Broker.claimed?_isSome_iff hunacked h)
  · intro h ho
    rw [Broker.isOpen, Bool.and_eq_true, decide_eq_true_eq] at ho
    rw [ho.2]
    exact Broker.unacked?_eq_find? hunacked h.tag
  · exact Broker.nodup_settledTags calls
  · intro before between after h hcalls hold hclosed
    have ho : ¬ b.isOpen h.generation = true := by
      have hlater := Broker.not_isOpen_performAll hold hclosed after
      rwa [← hcalls] at hlater
    exact ⟨Broker.ack_of_not_isOpen ho, Broker.nack_of_not_isOpen ho⟩

/-- A message is handed over, the connection closes, and it is handed over again. -/
def handOverTwice : List Broker.Call :=
  [.inject "q" ⟨none, []⟩, .consume ⟨0, 0⟩ "q", .closeNow, .consume ⟨1, 0⟩ "q"]

/-- The second delivery can be acknowledged, and the handle of the first one is refused. -/
theorem first_handle_refused_second_accepted :
    let b := Broker.performAll {} handOverTwice
    b.unacked.map Broker.Unacked.tag = [2] ∧
    (b.ack ⟨1, 2⟩).2 = .ok () ∧
    handOverTwice = handOverTwice.take 2 ++ [.closeNow] ++ handOverTwice.drop 3 ∧
    (Broker.performAll {} (handOverTwice.take 2)).unacked.map Broker.Unacked.tag = [1] ∧
    (Broker.performAll {} (handOverTwice.take 2)).generation = 0 ∧
    (Broker.performAll {} (handOverTwice.take 2 ++ [.closeNow])).generation = 1 ∧
    b.ack ⟨0, 1⟩ = (b, .error .channelClosed) ∧
    ∀ back, b.nack ⟨0, 1⟩ back = (b, .error .channelClosed) := by
  obtain ⟨-, -, -, -, hack, -, -, -, hold⟩ :=
    deliveries_settled_once_on_their_connection handOverTwice
  exact ⟨by decide, (hack ⟨1, 2⟩).2 (by decide), rfl, by decide, by decide, by decide,
    hold (handOverTwice.take 2) [.closeNow] (handOverTwice.drop 3) ⟨0, 1⟩ rfl (by decide)
      (by decide)⟩

end HashCalendar
