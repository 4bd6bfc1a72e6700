/-
**A batch, call by call.**

Publishing and settling a batch takes many calls to the broker, and other components may call it in
between.  Here the work on a batch is cut up into its single calls.  When nobody calls in between,
the calls together do what publishing and settling the batch does at once.

Main definitions:

* `HashCalendar.Progress` — how far the work on a batch has got;
* `HashCalendar.Progress.call?`, `HashCalendar.Progress.next` — the next call, and how far the work
  has got after it;
* `HashCalendar.Progress.Leads` — several calls in a row.

Main results:

* `HashCalendar.Progress.leads_publishAndSettle` — **the calls in a row publish and settle the
  batch**.
-/

import HashCalendar.Batch.Settle
import HashCalendar.Proofs.Broker.Ledger
import Mathlib.Logic.Function.Iterate

set_option relaxedAutoImplicit false
set_option autoImplicit false

namespace HashCalendar

/-- What is related stays related when each side takes as many steps as the other. -/
theorem iterate_related {σ τ : Type} {R : σ → τ → Prop} {f : σ → σ} {g : τ → τ}
    (h : ∀ s u, R s u → R (f s) (g u)) {s : σ} {u : τ} (hsu : R s u) (n : Nat) :
    R (f^[n] s) (g^[n] u) := by
  induction n with
  | zero => exact hsu
  | succ n ih =>
      rw [Function.iterate_succ_apply', Function.iterate_succ_apply']
      exact h _ _ ih

/-- How far the work on a batch has got. -/
inductive Progress where
  /-- Messages are still to be published. -/
  | publishing (left : List Outbound)
  /-- All messages were published, and deliveries are still to be acknowledged, after `count` of
  them for which it went well. -/
  | acking (left : List Handle) (count : Nat)
  /-- A message was not taken, and deliveries are still to be given back. -/
  | returning (left : List Handle)
  | settled (outcome : Outcome)
  deriving DecidableEq, Repr

namespace Progress

/-- The next call to the broker. -/
def call? (ch : Channel) : Progress → Option Broker.Call
  | .publishing (m :: _) => some (.publish ch m)
  | .acking (h :: _) _ => some (.ack h)
  | .returning (h :: _) => some (.nack h true)
  | _ => none

/-- How far the work has got after the next call. -/
def next (ch : Channel) (handles : List Handle) (b : Broker) : Progress → Progress
  | .publishing [] => .acking handles 0
  | .publishing (m :: ms) =>
    match (b.publish ch m).2 with
    | .ok () => .publishing ms
    | .error _ => .returning handles
  | .acking [] count =>
    .settled
      (if count = handles.length then .acked count
        else .abandoned count (handles.length - count))
  | .acking (h :: hs) count =>
    match (b.ack h).2 with
    | .ok () => .acking hs (count + 1)
    | .error _ => .acking hs count
  | .returning [] => .settled (.rejected handles.length)
  | .returning (_ :: hs) => .returning hs
  | .settled outcome => .settled outcome

/-- The next call, made at once. -/
def advance (ch : Channel) (handles : List Handle) : Broker × Progress → Broker × Progress
  | (b, p) => (b.performAll (p.call? ch).toList, p.next ch handles b)

/-- Several calls in a row lead from one state of the broker and the work to another. -/
def Leads (ch : Channel) (handles : List Handle) (u v : Broker × Progress) : Prop :=
  ∃ n, (advance ch handles)^[n] u = v

section Runs

variable {ch : Channel} {handles : List Handle}

theorem Leads.refl (u : Broker × Progress) : Leads ch handles u u := ⟨0, rfl⟩

theorem Leads.step {u v w : Broker × Progress} (h : advance ch handles u = v)
    (hv : Leads ch handles v w) : Leads ch handles u w := by
  obtain ⟨n, hn⟩ := hv
  exact ⟨n + 1, by rw [Function.iterate_succ_apply, h, hn]⟩

theorem Leads.trans {u v w : Broker × Progress} (h : Leads ch handles u v)
    (hv : Leads ch handles v w) : Leads ch handles u w := by
  obtain ⟨n, hn⟩ := h
  obtain ⟨m, hm⟩ := hv
  exact ⟨m + n, by rw [Function.iterate_add_apply, hn, hm]⟩

/-! ### Publishing, acknowledging and giving back -/

theorem leads_publishAll (b : Broker) (ms : List Outbound) :
    Leads ch handles (b, .publishing ms)
      ((b.publishAll ch ms).1,
        if (b.publishAll ch ms).2.isOk then .acking handles 0 else .returning handles) := by
  induction ms generalizing b with
  | nil => exact .step rfl (.refl _)
  | cons m ms ih =>
      rw [Broker.publishAll]
      cases hp : b.publish ch m with
      | mk b' result =>
          have hcall : b.perform (.publish ch m) = b' := congrArg Prod.fst hp
          cases result with
          | ok u =>
              refine .step ?_ (ih b')
              simp [advance, call?, next, hp, hcall]
          | error e =>
              refine .step ?_ (.refl _)
              simp [advance, call?, next, hp, hcall, Except.isOk, Except.toBool]

theorem leads_ackAll (b : Broker) (hs : List Handle) (count : Nat) :
    Leads ch handles (b, .acking hs count)
      ((b.ackAll hs).1,
        .settled
          (if count + (b.ackAll hs).2 = handles.length then .acked (count + (b.ackAll hs).2)
            else .abandoned (count + (b.ackAll hs).2)
              (handles.length - (count + (b.ackAll hs).2)))) := by
  induction hs generalizing b count with
  | nil => exact .step rfl (.refl _)
  | cons h hs ih =>
      rw [Broker.ackAll]
      cases ha : b.ack h with
      | mk b' result =>
          have hcall : b.perform (.ack h) = b' := congrArg Prod.fst ha
          cases result with
          | ok u =>
              -- The count so far and the count to come are added up the other way round.
              have hnext := ih b' (count + 1)
              simp only [Nat.add_assoc, Nat.add_comm 1] at hnext
              refine .step ?_ hnext
              simp [advance, call?, next, ha, hcall]
          | error e =>
              refine .step ?_ (ih b' count)
              simp [advance, call?, next, ha, hcall]

theorem leads_giveBackAll (b : Broker) (hs : List Handle) :
    Leads ch handles (b, .returning hs)
      (b.giveBackAll hs, .settled (.rejected handles.length)) := by
  induction hs generalizing b with
  | nil => exact .step rfl (.refl _)
  | cons h hs ih => exact .step rfl (ih _)

/-- The calls in a row settle the deliveries of a batch. -/
theorem leads_settle (b : Broker) (published : Bool) :
    Leads ch handles
      (b, if published then .acking handles 0 else .returning handles)
      ((b.settle handles published).1, .settled (b.settle handles published).2) := by
  cases published with
  | true =>
      have h := @leads_ackAll ch handles b handles 0
      simpa [Broker.settle] using h
  | false => exact leads_giveBackAll b handles

/-- The calls in a row publish the messages of a batch and settle its deliveries. -/
theorem leads_publishAndSettle (b : Broker) (ms : List Outbound) :
    Leads ch handles (b, .publishing ms)
      ((b.publishAndSettle ch ms handles).1, .settled (b.publishAndSettle ch ms handles).2) :=
  (leads_publishAll b ms).trans (leads_settle _ _)

end Runs

end Progress

end HashCalendar
