/-
**What a refused call costs.**

A call through a channel may be refused, for several reasons each.  A refusal should leave the
broker as it was, and it nearly always does: only the limit on publishing is charged before the
queue of a message is looked up, so that a publish to a queue that was never declared uses up the
place of one that could have been confirmed.

Main definitions:

* `HashCalendar.Broker.Request`, `HashCalendar.Broker.serve` — the calls that may be refused, and
  what becomes of the broker;
* `HashCalendar.Broker.Strays` — a publish that is charged to the limit and refused all the same;
* `HashCalendar.Broker.answers` — what the publishes in a run are answered.

Main results:

* `HashCalendar.Broker.serve_of_not_strays` — **a refused call changes nothing, unless it is a
  publish that strays**;
* `HashCalendar.Broker.budget_performAll` — **what is confirmed and what strays use up the limit**;
* `HashCalendar.refused_calls_cost_at_most_one_publish` — both, for every broker.
-/

import HashCalendar.Proofs.Broker.Ledger

set_option relaxedAutoImplicit false
set_option autoImplicit false

namespace HashCalendar

namespace Broker

/-! ### Calls that may be refused -/

/-- A call that may be refused. -/
inductive Request where
  | openChannel (uri : String)
  | declareQueue (ch : Channel) (queue : String)
  | setPrefetch (ch : Channel) (count : Nat)
  | consume (ch : Channel) (queue : String)
  | publish (ch : Channel) (m : Outbound)
  | ack (h : Handle)
  | nack (h : Handle) (back : Bool)
  deriving DecidableEq, Repr

/-- Why a call was refused, if it was. -/
def refusal? {α : Type} : Except Error α → Option Error
  | .ok _ => none
  | .error e => some e

/-- The broker after a call that may be refused, and why it was refused. -/
def serve (b : Broker) : Request → Broker × Option Error
  | .openChannel uri => (b, refusal? (b.openChannel uri))
  | .declareQueue ch queue => (b.declareQueue ch queue).map id refusal?
  | .setPrefetch ch count => (b, refusal? (b.setPrefetch ch count))
  | .consume ch queue => (b.consume ch queue).map id refusal?
  | .publish ch m => (b.publish ch m).map id refusal?
  | .ack h => (b.ack h).map id refusal?
  | .nack h back => (b.nack h back).map id refusal?

/-- A publish through an open channel to a queue that was never declared, while there is a limit
that leaves room for one more: `left` are left after it. -/
def Strays (b : Broker) (left : Nat) : Request → Prop
  | .publish ch m =>
    b.isOpen ch.generation = true ∧ b.budget = some (left + 1) ∧ b.queue? m.queue = none
  | _ => False

/-! ### What a refusal costs -/

/-- A publish that strays is charged to the limit, and refused. -/
theorem serve_of_strays {b : Broker} {left : Nat} {r : Request} (h : b.Strays left r) :
    ∃ queue, b.serve r = ({ b with budget := some left }, some (.unknownQueue queue)) := by
  cases r with
  | publish ch m =>
      obtain ⟨ho, hb, hq⟩ := h
      have hrejected : b.budget ≠ some 0 := by simp [hb]
      rcases b.publish_answers ch m with
        ⟨ho', -⟩ | ⟨-, hb', -⟩ | ⟨-, -, -, hp⟩ | ⟨-, -, hq', -⟩
      · simp [ho] at ho'
      · exact absurd hb' hrejected
      · refine ⟨m.queue, ?_⟩
        simp [serve, hp, hb, refusal?]
      · simp [hq] at hq'
  | _ => exact h.elim

/-- Without a limit there is nothing to charge. -/
theorem charge_of_none {b : Broker} (h : b.budget = none) :
    ({ b with budget := none } : Broker) = b := by
  rw [← h]

/-- A refused call changes nothing, unless it is a publish that strays. -/
theorem serve_of_not_strays {b : Broker} {r : Request} {e : Error} (h : (b.serve r).2 = some e)
    (hr : ∀ left, ¬ b.Strays left r) : (b.serve r).1 = b := by
  cases r with
  | openChannel uri => rfl
  | setPrefetch ch count => rfl
  | declareQueue ch queue =>
      rw [serve, declareQueue] at h ⊢
      by_cases ho : b.isOpen ch.generation = true
      · rw [if_pos ho] at h
        cases h
      · rw [if_neg ho]
        rfl
  | consume ch queue =>
      rw [serve, consume] at h ⊢
      by_cases ho : b.isOpen ch.generation = true
      · rw [if_pos ho] at h ⊢
        cases hq : b.queue? queue with
        | none => rfl
        | some q =>
            rw [hq] at h
            cases h
      · rw [if_neg ho]
        rfl
  | publish ch m =>
      rw [serve] at h ⊢
      rcases b.publish_answers ch m with
        ⟨-, hp⟩ | ⟨-, -, hp⟩ | ⟨ho, hb, hq, hp⟩ | ⟨-, -, -, hp⟩
      · rw [hp]
        rfl
      · rw [hp]
        rfl
      · rw [hp]
        cases hbudget : b.budget with
        | none => exact charge_of_none hbudget
        | some n =>
            cases n with
            | zero => exact absurd hbudget hb
            | succ left => exact absurd ⟨ho, hbudget, hq⟩ (hr left)
      · rw [hp] at h
        cases h
  | ack handle =>
      rw [serve] at h ⊢
      rcases b.ack_cases handle with ⟨-, e', heq⟩ | ⟨entry, -, heq⟩
      · rw [heq]
        rfl
      · rw [heq] at h
        cases h
  | nack handle back =>
      rw [serve] at h ⊢
      rcases b.nack_cases handle back with ⟨-, e', heq⟩ | ⟨entry, -, heq⟩
      · rw [heq]
        rfl
      · rw [heq] at h
        cases h

/-! ### Only publishing uses the limit up -/

@[simp] theorem dispatch_budget (b : Broker) (name : String) :
    (b.dispatch name).budget = b.budget := by
  rcases b.dispatch_cases name with h | ⟨q, c, -, -, -, -, h⟩ | ⟨q, c, -, -, -, h⟩
  · rw [h]
  · rw [h]
    rfl
  · rw [h]
    rfl

@[simp] theorem close_budget (b : Broker) : b.close.budget = b.budget := by
  rw [close, foldr_requeue_eq]

@[simp] theorem countDown_budget (b : Broker) : b.countDown.budget = b.budget := by
  rcases b.countDown_cases with ⟨closeAfter, h⟩ | ⟨closeAfter, h⟩
  · rw [h, close_budget]
  · rw [h]

@[simp] theorem dropUnacked_budget (b : Broker) (tag : Nat) :
    (b.dropUnacked tag).budget = b.budget := rfl

/-- Whether a call leaves the limit on publishing to the publishes. -/
def Call.keepsLimit : Call → Bool
  | .rejectAfter _ => false
  | .acceptAll => false
  | _ => true

/-- What a call is answered, if it is a publish. -/
def answer? (b : Broker) : Call → Option (Except Error Unit)
  | .publish ch m => some (b.publish ch m).2
  | _ => none

/-- What the publishes among calls are answered, one after the other. -/
def answers (b : Broker) : List Call → List (Except Error Unit)
  | [] => []
  | c :: cs => (b.answer? c).toList ++ (b.perform c).answers cs

/-- How many answers are confirmations. -/
def confirmed (answers : List (Except Error Unit)) : Nat := answers.countP Except.isOk

/-- Whether an answer says that there is no such queue. -/
def isAstray : Except Error Unit → Bool
  | .error (.unknownQueue _) => true
  | _ => false

/-- How many publishes were answered that there is no such queue. -/
def astray (answers : List (Except Error Unit)) : Nat := answers.countP isAstray

@[simp] theorem confirmed_append (as bs : List (Except Error Unit)) :
    confirmed (as ++ bs) = confirmed as + confirmed bs := List.countP_append

@[simp] theorem astray_append (as bs : List (Except Error Unit)) :
    astray (as ++ bs) = astray as + astray bs := List.countP_append

/-- Any other call than a publish leaves the limit as it is. -/
theorem budget_perform_of_answer?_none {b : Broker} {c : Call} (hc : c.keepsLimit = true)
    (h : b.answer? c = none) : (b.perform c).budget = b.budget := by
  cases c with
  | inject queue content => exact dispatch_budget _ _
  | take queue => rw [perform, take_eq]
  | closeNow => exact close_budget b
  | closeAfterPublishes count =>
      rw [perform, closeAfterPublishes]
      by_cases h0 : count = 0
      · rw [if_pos h0, close_budget]
      · rw [if_neg h0]
  | setReachable reachable => rfl
  | rejectAfter count => cases hc
  | acceptAll => cases hc
  | declareQueue ch queue =>
      rw [perform, declareQueue]
      by_cases ho : b.isOpen ch.generation = true
      · rw [if_pos ho]
        rfl
      · rw [if_neg ho]
  | consume ch queue =>
      rw [perform, consume]
      by_cases ho : b.isOpen ch.generation = true
      · rw [if_pos ho]
        cases b.queue? queue with
        | none => rfl
        | some q => exact dispatch_budget _ _
      · rw [if_neg ho]
  | publish ch m => cases h
  | ack handle =>
      rw [perform]
      rcases b.ack_cases handle with ⟨-, e, heq⟩ | ⟨entry, -, heq⟩
      · rw [heq]
      · rw [heq, dispatch_budget, dropUnacked_budget]
  | nack handle back =>
      rw [perform]
      rcases b.nack_cases handle back with ⟨-, e, heq⟩ | ⟨entry, -, heq⟩
      · rw [heq]
      · rw [heq, dispatch_budget]
        cases back with
        | false => rfl
        | true => rfl
  | receive stream =>
      rw [perform, receive]
      split
      · rfl
      · rfl
  | dropStream stream => rfl

/-- One call uses up of the limit what it is confirmed or goes astray with. -/
theorem budget_perform {b : Broker} {c : Call} {n : Nat} (hc : c.keepsLimit = true)
    (hn : b.budget = some n) :
    confirmed (b.answer? c).toList + astray (b.answer? c).toList ≤ n ∧
      (b.perform c).budget =
        some (n - (confirmed (b.answer? c).toList + astray (b.answer? c).toList)) := by
  cases ha : b.answer? c with
  | none =>
      have hsame := budget_perform_of_answer?_none hc ha
      rw [hsame, hn]
      simp [confirmed, astray]
  | some answer =>
      cases c with
      | publish ch m =>
          cases ha
          rw [perform]
          rcases b.publish_answers ch m with
            ⟨-, h⟩ | ⟨-, hb, h⟩ | ⟨-, hb, -, h⟩ | ⟨-, hb, -, h⟩
          · simp [h, hn, confirmed, astray, isAstray, Except.isOk, Except.toBool]
          · simp [h, hn, confirmed, astray, isAstray, Except.isOk, Except.toBool]
          · have hpos : 0 < n := Nat.pos_of_ne_zero fun h0 => hb (h0 ▸ hn)
            simp [h, hn, confirmed, astray, isAstray, Except.isOk, Except.toBool]
            omega
          · have hpos : 0 < n := Nat.pos_of_ne_zero fun h0 => hb (h0 ▸ hn)
            simp [h, hn, confirmed, astray, isAstray, Except.isOk, Except.toBool, enqueue, modify]
            omega
      | _ => cases ha

/-- What is confirmed and what goes astray use up the limit, and nothing else does. -/
theorem budget_performAll {b : Broker} {n : Nat} {calls : List Call}
    (hc : ∀ c ∈ calls, c.keepsLimit = true) (hn : b.budget = some n) :
    confirmed (b.answers calls) + astray (b.answers calls) ≤ n ∧
      (b.performAll calls).budget =
        some (n - (confirmed (b.answers calls) + astray (b.answers calls))) := by
  induction calls generalizing b n with
  | nil => simp [answers, confirmed, astray, hn]
  | cons c cs ih =>
      obtain ⟨hle, hbudget⟩ := budget_perform (hc c List.mem_cons_self) hn
      obtain ⟨hle', hbudget'⟩ := ih (fun d hd => hc d (List.mem_cons_of_mem c hd)) hbudget
      rw [performAll_cons, hbudget', answers, confirmed_append, astray_append]
      refine ⟨by omega, ?_⟩
      congr 1
      omega

/-- A publish through an open channel is rejected exactly if nothing is left of the limit. -/
theorem publish_rejected_iff {b : Broker} {ch : Channel} {m : Outbound}
    (ho : b.isOpen ch.generation = true) :
    (b.publish ch m).2 = .error (.rejected m.queue) ↔ b.budget = some 0 := by
  rcases b.publish_answers ch m with ⟨hc, -⟩ | ⟨-, hb, h⟩ | ⟨-, hb, -, h⟩ | ⟨-, hb, -, h⟩
  · rw [ho] at hc
    cases hc
  · simp [h, hb]
  · simp [h, hb]
  · simp [h, hb]

/-- Once a publish has been rejected the limit is used up, and it stays so. -/
theorem eq_of_rejected_mem_answers {b : Broker} {n : Nat} {calls : List Call}
    (hc : ∀ c ∈ calls, c.keepsLimit = true) (hn : b.budget = some n)
    (h : ∃ queue, .error (.rejected queue) ∈ b.answers calls) :
    confirmed (b.answers calls) + astray (b.answers calls) = n := by
  induction calls generalizing b n with
  | nil =>
      obtain ⟨queue, h⟩ := h
      cases h
  | cons c cs ih =>
      obtain ⟨queue, h⟩ := h
      have hcs : ∀ d ∈ cs, d.keepsLimit = true := fun d hd => hc d (List.mem_cons_of_mem c hd)
      obtain ⟨hle, hbudget⟩ := budget_perform (hc c List.mem_cons_self) hn
      obtain ⟨hle', -⟩ := budget_performAll hcs hbudget
      rw [answers] at h
      rw [answers, confirmed_append, astray_append]
      rcases List.mem_append.1 h with h | h
      · -- It was this publish, so nothing was left to begin with.
        have hzero : n = 0 := by
          cases c with
          | publish ch m =>
              have hanswer : (b.publish ch m).2 = .error (.rejected queue) := by
                simpa [answer?, eq_comm] using h
              rcases b.publish_answers ch m with
                ⟨-, hp⟩ | ⟨-, hb, -⟩ | ⟨-, -, -, hp⟩ | ⟨-, -, -, hp⟩
              · simp [hp] at hanswer
              · simpa [hn] using hb
              · simp [hp] at hanswer
              · simp [hp] at hanswer
          | _ => cases h
        omega
      · have hrest := ih hcs hbudget ⟨queue, h⟩
        omega

end Broker

open Broker in
/-- **A refused call costs at most the place of one publish.**  For every broker:

* a call that is refused leaves the broker exactly as it is, unless it is a publish that strays:
  through an open channel, while the limit leaves room, but to a queue that was never declared;
* a publish that strays is charged to the limit and changes nothing else;
* when `n` further publishes are allowed, then in any run in which the limit is not set anew the
  publishes that are confirmed and those that stray are `n` together at most, and the rest is what
  is left;
* the next publish through an open channel is rejected exactly if nothing is left;
* once a publish was rejected, the confirmed ones and those that strayed are `n` together, so that
  exactly `n` were confirmed if and only if none strayed. -/
theorem refused_calls_cost_at_most_one_publish (b : Broker) :
    (∀ r e, (b.serve r).2 = some e → (∀ left, ¬ b.Strays left r) → (b.serve r).1 = b) ∧
    (∀ r left, b.Strays left r →
      ∃ queue, b.serve r = ({ b with budget := some left }, some (.unknownQueue queue))) ∧
    ∀ n calls, (∀ c ∈ calls, c.keepsLimit = true) →
      let answers := (b.rejectAfter n).answers calls
      let b' := (b.rejectAfter n).performAll calls
      confirmed answers + astray answers ≤ n ∧
      b'.budget = some (n - (confirmed answers + astray answers)) ∧
      (∀ (ch : Channel) (m : Outbound), b'.isOpen ch.generation = true →
        ((b'.publish ch m).2 = .error (.rejected m.queue) ↔
          confirmed answers + astray answers = n)) ∧
      ((∃ queue, .error (.rejected queue) ∈ answers) →
        (confirmed answers = n ↔ astray answers = 0)) := by
  refine ⟨fun r e => serve_of_not_strays, fun r left => serve_of_strays, ?_⟩
  intro n calls hc answers b'
  obtain ⟨hle, hbudget⟩ : confirmed answers + astray answers ≤ n ∧
      b'.budget = some (n - (confirmed answers + astray answers)) := budget_performAll hc rfl
  refine ⟨hle, hbudget, ?_, ?_⟩
  · intro ch m ho
    rw [publish_rejected_iff ho, hbudget, Option.some_inj]
    omega
  · intro hrejected
    have hall : confirmed answers + astray answers = n :=
      eq_of_rejected_mem_answers hc rfl hrejected
    omega

/-- A queue is declared, and one more publish is allowed. -/
def allowOne : List Broker.Call := [.declareQueue ⟨0, 0⟩ "q", .rejectAfter 1]

/-- A publish to a queue that is not there, and then one to the queue that is. -/
def publishAstray : List Broker.Call :=
  [.publish ⟨0, 0⟩ ⟨"nowhere", ⟨none, []⟩⟩, .publish ⟨0, 0⟩ ⟨"q", ⟨none, []⟩⟩]

/-- A refused publish does change the broker: of one publish that was allowed, none is confirmed
before the next is rejected. -/
theorem none_confirmed_of_one_allowed :
    let b := Broker.performAll {} allowOne
    (b.serve (.publish ⟨0, 0⟩ ⟨"nowhere", ⟨none, []⟩⟩)).2 = some (.unknownQueue "nowhere") ∧
    (b.serve (.publish ⟨0, 0⟩ ⟨"nowhere", ⟨none, []⟩⟩)).1 ≠ b ∧
    b.answers publishAstray = [.error (.unknownQueue "nowhere"), .error (.rejected "q")] ∧
    Broker.confirmed (b.answers publishAstray) = 0 := by
  decide

/-- The publish that strayed is the one that was allowed.  A call that is refused for another
reason changes nothing. -/
theorem publish_astray_takes_the_place :
    let b := Broker.performAll {} allowOne
    (b.serve (.ack ⟨0, 1⟩)).1 = b ∧
    (∃ queue, b.serve (.publish ⟨0, 0⟩ ⟨"nowhere", ⟨none, []⟩⟩) =
      ({ b with budget := some 0 }, some (.unknownQueue queue))) ∧
    (Broker.confirmed ((b.rejectAfter 1).answers publishAstray) = 1 ↔
      Broker.astray ((b.rejectAfter 1).answers publishAstray) = 0) := by
  obtain ⟨hsame, hstrays, hlimit⟩ :=
    refused_calls_cost_at_most_one_publish (Broker.performAll {} allowOne)
  refine ⟨hsame (.ack ⟨0, 1⟩) (.unknownTag 1) (by decide) (fun _ => id), ?_, ?_⟩
  · exact hstrays (.publish ⟨0, 0⟩ ⟨"nowhere", ⟨none, []⟩⟩) 0 ⟨by decide, by decide, by decide⟩
  · exact (hlimit 1 publishAstray (by decide)).2.2.2 ⟨"q", by decide⟩

end HashCalendar
