/-
**The ledger grows.**

Calls only add to the ledger.  What they add is within the policy that they are within: this tells
which messages may have arrived in the meantime, and which deliveries may be over.  For the calls
that a component makes itself the additions are known exactly.

Main definitions:

* `HashCalendar.Adds` — a list with further items of a kind;
* `HashCalendar.Ledger.Grows` — a ledger after calls within a policy.

Main results:

* `HashCalendar.Ledger.Grows.perform` — **a call adds to the ledger within its policy**;
* `HashCalendar.Tracked.publish_cases` — publishing adds the message if it is confirmed, and else
  nothing.
-/

import HashCalendar.Proofs.Broker.Moves

set_option relaxedAutoImplicit false
set_option autoImplicit false

namespace HashCalendar

/-! ### Lists that grow -/

/-- A list with further items, all of one kind, at its end. -/
def Adds {α : Type} (P : α → Prop) (xs ys : List α) : Prop :=
  ∃ more, ys = xs ++ more ∧ ∀ a ∈ more, P a

namespace Adds

variable {α : Type} {P Q : α → Prop} {xs ys zs : List α} {a : α}

theorem refl (P : α → Prop) (xs : List α) : Adds P xs xs := ⟨[], by simp, by simp⟩

theorem trans (h : Adds P xs ys) (h' : Adds P ys zs) : Adds P xs zs := by
  obtain ⟨more, rfl, hm⟩ := h
  obtain ⟨more', rfl, hm'⟩ := h'
  refine ⟨more ++ more', by simp, ?_⟩
  intro a ha
  rcases List.mem_append.1 ha with ha | ha
  · exact hm a ha
  · exact hm' a ha

theorem append (xs : List α) {more : List α} (h : ∀ a ∈ more, P a) : Adds P xs (xs ++ more) :=
  ⟨more, rfl, h⟩

theorem concat (xs : List α) (h : P a) : Adds P xs (xs ++ [a]) :=
  append xs (by simpa using h)

theorem mem (h : Adds P xs ys) (ha : a ∈ xs) : a ∈ ys := by
  obtain ⟨more, rfl, -⟩ := h
  exact List.mem_append_left _ ha

theorem mem_or (h : Adds P xs ys) (ha : a ∈ ys) : a ∈ xs ∨ P a := by
  obtain ⟨more, rfl, hm⟩ := h
  exact (List.mem_append.1 ha).imp_right (hm a)

theorem getElem? (h : Adds P xs ys) {i : Nat} (hi : xs[i]? = some a) : ys[i]? = some a := by
  obtain ⟨more, rfl, -⟩ := h
  exact (List.getElem?_append_left (List.getElem?_eq_some_iff.1 hi).1).trans hi

theorem getElem?_or (h : Adds P xs ys) {i : Nat} (hi : ys[i]? = some a) :
    xs[i]? = some a ∨ P a := by
  obtain ⟨more, rfl, hm⟩ := h
  by_cases hlt : i < xs.length
  · exact Or.inl ((List.getElem?_append_left hlt).symm.trans hi)
  · rw [List.getElem?_append_right (by omega)] at hi
    exact Or.inr (hm a (List.mem_of_getElem? hi))

end Adds

/-- Where no item may be added, none is. -/
theorem Adds.eq_of_forall_not {α : Type} {P : α → Prop} {xs ys : List α} (h : Adds P xs ys)
    (hP : ∀ a, ¬ P a) : ys = xs := by
  obtain ⟨more, rfl, hm⟩ := h
  cases more with
  | nil => exact List.append_nil xs
  | cons a more => exact absurd (hm a List.mem_cons_self) (hP a)

/-! ### Ledgers that grow -/

/-- A ledger after calls within a policy. -/
structure Ledger.Grows (p : Broker.Policy) (l l' : Ledger) : Prop where
  arrived : Adds (fun a => p.arrive a.1 a.2) l.arrived l'.arrived
  handed : Adds (fun _ => True) l.handed l'.handed
  acked : Adds (fun u => p.settle u .acked) l.acked l'.acked
  discarded : Adds (fun u => p.settle u .discarded) l.discarded l'.discarded
  returned : Adds (fun u => p.settle u .returned) l.returned l'.returned
  lost : Adds (fun _ => True) l.lost l'.lost
  taken : Adds (fun q => p.take q.1) l.taken l'.taken

namespace Ledger.Grows

variable {p : Broker.Policy} {l l' : Ledger}

theorem refl (p : Broker.Policy) (l : Ledger) : l.Grows p l where
  arrived := .refl _ _
  handed := .refl _ _
  acked := .refl _ _
  discarded := .refl _ _
  returned := .refl _ _
  lost := .refl _ _
  taken := .refl _ _

/-- The moves within a policy let the ledger grow within it. -/
theorem keeps (p : Broker.Policy) (l : Ledger) : p.Keeps fun t => l.Grows p t.ledger where
  enqueue ha h := { h with arrived := h.arrived.trans (.concat _ ha) }
  handOver _ _ h := { h with handed := h.handed.trans (.append _ fun _ _ => trivial) }
  settle := by
    intro t _ tag entry fate _ hs h
    cases fate with
    | acked => exact { h with acked := h.acked.trans (.concat _ hs) }
    | discarded => exact { h with discarded := h.discarded.trans (.concat _ hs) }
    | returned => exact { h with returned := h.returned.trans (.concat _ hs) }
  close h := { h with lost := h.lost.trans (.append _ fun _ _ => trivial) }
  take := by
    intro t name ht h
    refine { h with taken := h.taken.trans (.append _ ?_) }
    intro q hq
    obtain ⟨m, -, rfl⟩ := List.mem_map.1 hq
    exact ht
  quiet _ h := h

/-- A call adds to the ledger within its policy. -/
theorem perform {t : Tracked} {c : Broker.Call} (ha : p.Allows t.broker c) :
    t.ledger.Grows p (t.perform c).ledger :=
  (keeps p t.ledger).perform ha (refl p t.ledger)

theorem performAll {t : Tracked} {calls : List Broker.Call}
    (ha : ∀ c ∈ calls, ∀ b, p.Allows b c) : t.ledger.Grows p (t.performAll calls).ledger :=
  (keeps p t.ledger).performAll ha (refl p t.ledger)

/-- Whatever is called, the ledger only grows. -/
theorem performAll_any (t : Tracked) (calls : List Broker.Call) :
    t.ledger.Grows .any (t.performAll calls).ledger :=
  performAll fun c _ b => Broker.Policy.any_allows b c

end Ledger.Grows

/-! ### The additions of single calls -/

namespace Broker

theorem tag_of_unacked? {b : Broker} {generation tag : Nat} {entry : Unacked}
    (h : b.unacked? generation tag = some entry) : entry.tag = tag := by
  simpa using List.find?_some (unacked?_eq_some h).1

namespace Policy

/-- Only messages may arrive. -/
def bring : Policy where
  arrive _ _ := True
  settle _ _ := False
  take _ := False

/-- Only the delivery of one tag may be settled, and only in one way. -/
def only (fate : Fate) (tag : Nat) : Policy where
  arrive _ _ := False
  settle entry fate' := fate' = fate ∧ entry.tag = tag
  take _ := False

theorem only_allows_ack (b : Broker) (h : Handle) : (only .acked h.tag).Allows b (.ack h) :=
  fun _ he => ⟨rfl, tag_of_unacked? he⟩

theorem only_allows_nack (b : Broker) (h : Handle) (back : Bool) :
    (only (if back then .returned else .discarded) h.tag).Allows b (.nack h back) :=
  fun _ he => ⟨rfl, tag_of_unacked? he⟩

end Policy

end Broker

namespace Tracked

@[simp] theorem countDown_arrived (t : Tracked) :
    t.countDown.ledger.arrived = t.ledger.arrived := by
  rw [countDown]
  cases t.broker.closeAfter with
  | none => rfl
  | some left =>
      dsimp only
      by_cases h : left ≤ 1
      · rw [if_pos h]
        rfl
      · rw [if_neg h]
        rfl

/-- Publishing adds the message if it is confirmed, and else nothing. -/
theorem publish_cases (t : Tracked) (ch : Channel) (m : Outbound) :
    ((t.broker.publish ch m).2 = .ok () ∧
        (t.publish ch m).ledger.arrived = t.ledger.arrived ++ [(m.queue, m.content)]) ∨
      ∃ e, (t.broker.publish ch m).2 = .error e ∧
        (t.publish ch m).ledger.arrived = t.ledger.arrived := by
  rw [publish, Broker.publish]
  by_cases ho : t.broker.isOpen ch.generation = true
  · rw [if_pos ho, if_pos ho]
    by_cases hb : t.broker.budget = some 0
    · rw [if_pos hb, if_pos hb]
      exact Or.inr ⟨_, rfl, rfl⟩
    · rw [if_neg hb, if_neg hb]
      dsimp only [setBroker_broker]
      cases Broker.queue? { t.broker with budget := t.broker.budget.map (· - 1) } m.queue with
      | none => exact Or.inr ⟨_, rfl, rfl⟩
      | some q => exact Or.inl ⟨rfl, countDown_arrived _⟩
  · rw [if_neg ho, if_neg ho]
    exact Or.inr ⟨_, rfl, rfl⟩

end Tracked

end HashCalendar
