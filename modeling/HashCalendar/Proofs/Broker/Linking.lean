/-
**Connecting, call by call.**

An attempt to connect is a list of calls to the broker: queues are declared, one of them is
consumed, and in between the connection may get lost or come back.  None of the calls adds or
settles a message.

Main results:

* `HashCalendar.Link.attempt_eq_performAll` — **an attempt does what its calls do**;
* `HashCalendar.Link.allows_of_mem_calls` — every policy allows its calls;
* `HashCalendar.Link.attempt_cases` — **an attempt fails, or the queue has a new consumer**.
-/

import HashCalendar.Broker.Link
import HashCalendar.Proofs.Broker.Moves

set_option relaxedAutoImplicit false
set_option autoImplicit false

namespace HashCalendar

namespace Broker

/-- Declaring queues through a closed channel does nothing. -/
theorem performAll_declareQueue_of_closed {b : Broker} {ch : Channel}
    (h : ¬ b.isOpen ch.generation = true) (names : List String) :
    b.performAll (names.map (.declareQueue ch)) = b := by
  induction names with
  | nil => rfl
  | cons name names ih =>
      have hcall : b.perform (.declareQueue ch name) = b := by
        rw [perform, declareQueue, if_neg h]
      rw [List.map_cons, performAll_cons, hcall, ih]

theorem declareAll_fst (b : Broker) (ch : Channel) (names : List String) :
    (b.declareAll ch names).1 = b.performAll (names.map (.declareQueue ch)) := by
  induction names generalizing b with
  | nil => rfl
  | cons name names ih =>
      rw [declareAll, List.map_cons, performAll_cons, perform]
      by_cases h : b.isOpen ch.generation = true
      · rw [declareQueue, if_pos h]
        exact ih _
      · rw [declareQueue, if_neg h]
        exact (performAll_declareQueue_of_closed h names).symm

/-- The calls by which a channel is prepared. -/
def prepareCalls (b : Broker) (settings : Link.Settings) (incident : Incident) : List Call :=
  let b := if incident = .recovered then b.setReachable true else b
  (if incident = .recovered then [.setReachable true] else []) ++
    if incident = .refused then []
    else match b.openChannel settings.uri with
      | .error _ => []
      | .ok ch =>
        (if incident = .lostAfterOpening then [.closeNow] else []) ++
          (settings.consumes :: settings.declares).map (.declareQueue ch)

theorem performAll_ite {P : Prop} [Decidable P] (b : Broker) (c : Call) :
    b.performAll (if P then [c] else []) = if P then b.perform c else b := by
  by_cases h : P
  · rw [if_pos h, if_pos h]
    rfl
  · rw [if_neg h, if_neg h]
    rfl

theorem eq_of_mem_ite {P : Prop} [Decidable P] {c d : Call} (h : c ∈ if P then [d] else []) :
    c = d := by
  by_cases hP : P
  · rw [if_pos hP] at h
    exact List.mem_singleton.1 h
  · rw [if_neg hP] at h
    cases h

/-- A call by which a channel is prepared: it neither feeds anybody nor moves a message, but the
connection may get lost. -/
def Call.Prepares : Call → Prop
  | .setReachable reachable => reachable = true
  | .closeNow => True
  | .declareQueue _ _ => True
  | _ => False

theorem Call.Prepares.allows {c : Call} (h : c.Prepares) (p : Policy) (b : Broker) :
    p.Allows b c := by
  cases c with
  | setReachable reachable => exact trivial
  | closeNow => exact trivial
  | declareQueue ch queue => exact trivial
  | _ => exact h.elim

theorem prepares_of_mem_prepareCalls {b : Broker} {settings : Link.Settings} {incident : Incident}
    {c : Call} (hc : c ∈ b.prepareCalls settings incident) : c.Prepares := by
  rw [prepareCalls] at hc
  rcases List.mem_append.1 hc with hc | hc
  · rw [eq_of_mem_ite hc]
    rfl
  · by_cases hr : incident = .refused
    · rw [if_pos hr] at hc
      cases hc
    · rw [if_neg hr] at hc
      cases hopen : openChannel (if incident = .recovered then b.setReachable true else b)
          settings.uri with
      | error e =>
          rw [hopen] at hc
          cases hc
      | ok ch =>
          rw [hopen] at hc
          rcases List.mem_append.1 hc with hc | hc
          · rw [eq_of_mem_ite hc]
            exact trivial
          · obtain ⟨name, -, rfl⟩ := List.mem_map.1 hc
            exact trivial

theorem prepareChannel_fst (b : Broker) (settings : Link.Settings) (incident : Incident) :
    (b.prepareChannel settings incident).1 = b.performAll (b.prepareCalls settings incident) := by
  rw [prepareChannel, prepareCalls, performAll_append, performAll_ite]
  simp only [perform]
  -- From here on it does not matter whether the broker was made reachable first.
  generalize (if incident = .recovered then b.setReachable true else b) = b₀
  by_cases hr : incident = .refused
  · rw [if_pos hr, if_pos hr]
    rfl
  · rw [if_neg hr, if_neg hr]
    cases b₀.openChannel settings.uri with
    | error e => rfl
    | ok ch =>
        dsimp only
        rw [performAll_append, performAll_ite, perform, ← declareAll_fst]
        cases Broker.declareAll _ ch (settings.consumes :: settings.declares) with
        | mk b₁ result =>
            cases result with
            | ok u => rfl
            | error e => rfl

end Broker

/-- A queue that is consumed gets a new consumer, or nothing changes. -/
theorem Tracked.consume_cases (t : Tracked) (ch : Channel) (name : String) :
    (∃ e, (t.broker.consume ch name).2 = .error e ∧ t.consume ch name = t) ∨
      ((t.broker.consume ch name).2 = .ok t.broker.streams.length ∧
        t.broker.isOpen ch.generation = true ∧
        t.consume ch name = (t.setBroker (t.broker.register ch name)).dispatch name) := by
  rw [consume, Broker.consume]
  by_cases ho : t.broker.isOpen ch.generation = true
  · rw [if_pos ho, if_pos ho]
    cases t.broker.queue? name with
    | none => exact Or.inl ⟨_, rfl, rfl⟩
    | some q => exact Or.inr ⟨rfl, ho, rfl⟩
  · rw [if_neg ho, if_neg ho]
    exact Or.inl ⟨_, rfl, rfl⟩

namespace Link

/-- The calls of an attempt to connect. -/
def calls (b : Broker) (link : Link) (incident : Incident) : List Broker.Call :=
  b.prepareCalls link.settings incident ++
    match (b.prepareChannel link.settings incident).2 with
    | .error _ => []
    | .ok ch =>
      (if incident = .lostBeforeConsuming then [.closeNow] else []) ++
        [.consume ch link.settings.consumes]

/-- An attempt does what its calls do. -/
theorem attempt_eq_performAll (b : Broker) (link : Link) (incident : Incident) :
    (link.attempt b incident).1 = b.performAll (link.calls b incident) := by
  rw [attempt, calls, Broker.performAll_append, ← Broker.prepareChannel_fst]
  cases b.prepareChannel link.settings incident with
  | mk b₁ result =>
      cases result with
      | error e => rfl
      | ok ch =>
          dsimp only
          rw [Broker.performAll_append, Broker.performAll_ite]
          simp only [Broker.perform, Broker.performAll_cons, Broker.performAll_nil]
          cases Broker.consume _ ch link.settings.consumes with
          | mk b₂ result =>
              cases result with
              | ok stream => rfl
              | error e => rfl

/-- The calls of an attempt that prepares a channel: those before it starts to consume, and the
consuming. -/
theorem calls_of_ok {b : Broker} {link : Link} {incident : Incident} {ch : Channel}
    (h : (b.prepareChannel link.settings incident).2 = .ok ch) :
    ∃ calls : List Broker.Call, (∀ c ∈ calls, c.Prepares) ∧
      link.calls b incident = calls ++ [.consume ch link.settings.consumes] ∧
      b.performAll calls =
        if incident = .lostBeforeConsuming then (b.prepareChannel link.settings incident).1.close
        else (b.prepareChannel link.settings incident).1 := by
  refine ⟨b.prepareCalls link.settings incident ++
    (if incident = .lostBeforeConsuming then [.closeNow] else []), ?_, ?_, ?_⟩
  · intro c hc
    rcases List.mem_append.1 hc with hc | hc
    · exact Broker.prepares_of_mem_prepareCalls hc
    · rw [Broker.eq_of_mem_ite hc]
      exact trivial
  · rw [calls, h]
    exact (List.append_assoc _ _ _).symm
  · rw [Broker.performAll_append, Broker.performAll_ite, ← Broker.prepareChannel_fst]
    rfl

/-- The calls of an attempt that prepares no channel. -/
theorem calls_of_error {b : Broker} {link : Link} {incident : Incident} {e : Broker.Error}
    (h : (b.prepareChannel link.settings incident).2 = .error e) :
    link.calls b incident = b.prepareCalls link.settings incident := by
  rw [calls, h]
  exact List.append_nil _

/-- The calls of an attempt neither bring nor settle nor take messages. -/
theorem allows_of_mem_calls {b : Broker} {link : Link} {incident : Incident} {c : Broker.Call}
    (hc : c ∈ link.calls b incident) (p : Broker.Policy) (b' : Broker) : p.Allows b' c := by
  cases hprepared : (b.prepareChannel link.settings incident).2 with
  | error e =>
      rw [calls_of_error hprepared] at hc
      exact (Broker.prepares_of_mem_prepareCalls hc).allows p b'
  | ok ch =>
      obtain ⟨calls, hprepares, heq, -⟩ := calls_of_ok hprepared
      rw [heq] at hc
      rcases List.mem_append.1 hc with hc | hc
      · exact (hprepares c hc).allows p b'
      · rw [List.mem_singleton.1 hc]
        exact trivial

/-- An attempt fails, after calls that only prepare, or it gets its queue a new consumer, whose
connection is that of the new channel. -/
theorem attempt_cases (t : Tracked) (link : Link) (incident : Incident) :
    ∃ calls : List Broker.Call, (∀ c ∈ calls, c.Prepares) ∧
      ((∃ e, (link.attempt t.broker incident).2.2 = .error e ∧
          ((link.attempt t.broker incident).2.1 = link ∨
            (link.attempt t.broker incident).2.1 = link.close) ∧
          t.performAll (link.calls t.broker incident) = t.performAll calls) ∨
        ∃ ch, (link.attempt t.broker incident).2 =
            ({ link with channel := some ch },
              .ok ⟨ch.generation, (t.performAll calls).broker.streams.length⟩) ∧
          (t.performAll calls).broker.isOpen ch.generation = true ∧
          t.performAll (link.calls t.broker incident) =
            ((t.performAll calls).setBroker ((t.performAll calls).broker.register ch
              link.settings.consumes)).dispatch link.settings.consumes) := by
  cases hprepare : t.broker.prepareChannel link.settings incident with
  | mk b result =>
      have hresult : (t.broker.prepareChannel link.settings incident).2 = result := by rw [hprepare]
      cases result with
      | error e =>
          refine ⟨t.broker.prepareCalls link.settings incident,
            fun c hc => Broker.prepares_of_mem_prepareCalls hc, Or.inl ⟨e, ?_, Or.inl ?_, ?_⟩⟩
          · rw [attempt, hprepare]
          · rw [attempt, hprepare]
          · rw [calls_of_error hresult]
      | ok ch =>
          obtain ⟨calls, hprepares, heq, hb⟩ := calls_of_ok hresult
          rw [hprepare, ← Tracked.performAll_broker] at hb
          refine ⟨calls, hprepares, ?_⟩
          rw [attempt, hprepare, heq, Tracked.performAll_append]
          dsimp only at hb ⊢
          rw [← hb]
          have hcases := (t.performAll calls).consume_cases ch link.settings.consumes
          cases hconsume : (t.performAll calls).broker.consume ch link.settings.consumes with
          | mk b' result' =>
              rw [hconsume] at hcases
              rcases hcases with ⟨e, rfl, hsame⟩ | ⟨rfl, ho, hnew⟩
              · exact Or.inl ⟨e, rfl, Or.inr rfl, hsame⟩
              · exact Or.inr ⟨ch, rfl, ho, hnew⟩

/-- Where no time may pass, connecting is a single attempt. -/
theorem connect_nil (b : Broker) (link : Link) :
    Link.connect b link [] 0 =
      match link.attempt b .nothing with
      | (b, link, .ok receiver) => (b, link, ⟨some receiver, 1, 0⟩)
      | (b, link, .error _) => (b, link, ⟨none, 1, 0⟩) := by
  have hbudget : (if link.settings.wait = 0 then ([] : List Incident).length + 1
      else 0 / link.settings.wait + 1) = 1 := by simp
  have hone : Link.connect b link [] 0 = connectWithin 0 1 0 [] b link :=
    congrArg (connectWithin 0 · 0 [] b link) hbudget
  rw [hone, connectWithin]
  cases h : link.attempt b .nothing with
  | mk b' rest =>
      cases rest with
      | mk link' result =>
          cases result with
          | ok receiver => simp [h]
          | error e => simp [h, connectWithin]

end Link

end HashCalendar
