/-
**A component at its broker.**

What a component has to do with its broker is the same for both tiers: it keeps a link, makes
attempts to connect, and receives deliveries while it has a receiver.  Others call the broker as
well.

Main definitions:

* `HashCalendar.Line` — a component's end of the line to its broker;
* `HashCalendar.Line.attempt`, `HashCalendar.Line.receive` — an attempt to connect, and receiving.

Main results:

* `HashCalendar.Line.attempt_of_error`, `HashCalendar.Line.attempt_of_ok` — an attempt does to the
  broker what the link does;
* `HashCalendar.Line.attempt_cases` — **all that an attempt can do**;
* `HashCalendar.Line.Feeds.attempt`, `HashCalendar.Line.Feeds.receive` — the broker feeds the
  component, over every attempt and whenever it receives.
-/

import HashCalendar.Proofs.Broker.Feeding
import HashCalendar.Proofs.Broker.Linking

set_option relaxedAutoImplicit false
set_option autoImplicit false

namespace HashCalendar

/-- A component's end of the line to its broker. -/
structure Line where
  tracked : Tracked := {}
  link : Link
  receiver : Option Receiver := none

namespace Line

/-- The broker at the other end. -/
def broker (l : Line) : Broker := l.tracked.broker

/-- An attempt to connect; nobody listens to the old stream any more once there is a new one. -/
def attempt (l : Line) (incident : Incident) : Line :=
  let connected := l.tracked.performAll (l.link.calls l.broker incident)
  let (_, link, result) := l.link.attempt l.broker incident
  match result with
  | .error _ => { l with tracked := connected, link }
  | .ok r =>
    { tracked := connected.performAll (l.receiver.map fun old => .dropStream old.stream).toList
      link
      receiver := some r }

/-- Receives a delivery, if there is one. -/
def receive (l : Line) : Line × Option (Handle × Content) :=
  match l.receiver with
  | none => (l, none)
  | some r =>
    match (l.broker.receive r.stream).2 with
    | .delivery d =>
      ({ l with tracked := l.tracked.perform (.receive r.stream) },
        some (r.handle d, d.message.content))
    | _ => (l, none)

/-- The line after a call. -/
def perform (l : Line) (c : Broker.Call) : Line := { l with tracked := l.tracked.perform c }

/-- The line after several calls. -/
def performAll (l : Line) (calls : List Broker.Call) : Line :=
  { l with tracked := l.tracked.performAll calls }

@[simp] theorem perform_broker (l : Line) (c : Broker.Call) :
    (l.perform c).broker = l.broker.perform c :=
  Tracked.perform_broker l.tracked c

@[simp] theorem performAll_broker (l : Line) (calls : List Broker.Call) :
    (l.performAll calls).broker = l.broker.performAll calls :=
  Tracked.performAll_broker l.tracked calls

/-- A failed attempt to connect does to the broker what the link does. -/
theorem attempt_of_error {l : Line} {incident : Incident} {b : Broker} {link : Link}
    {e : Broker.Error} (h : l.link.attempt l.broker incident = (b, link, .error e)) :
    (l.attempt incident).broker = b ∧ (l.attempt incident).link = link ∧
      (l.attempt incident).receiver = l.receiver := by
  have hb := Link.attempt_eq_performAll l.broker l.link incident
  rw [h] at hb
  rw [attempt, h]
  exact ⟨(Tracked.performAll_broker _ _).trans hb.symm, rfl, rfl⟩

/-- An attempt to connect does to the broker what the link does, and drops the old stream. -/
theorem attempt_of_ok {l : Line} {incident : Incident} {b : Broker} {link : Link}
    {r : Receiver} (h : l.link.attempt l.broker incident = (b, link, .ok r)) :
    (l.attempt incident).broker = (l.receiver.elim b fun old => b.dropStream old.stream) ∧
      (l.attempt incident).link = link ∧ (l.attempt incident).receiver = some r := by
  have hb := Link.attempt_eq_performAll l.broker l.link incident
  rw [h] at hb
  have hconnected : (l.tracked.performAll (l.link.calls l.broker incident)).broker = b :=
    (Tracked.performAll_broker _ _).trans hb.symm
  rw [attempt, h]
  refine ⟨(Tracked.performAll_broker _ _).trans ?_, rfl, rfl⟩
  rw [hconnected]
  cases l.receiver with
  | none => rfl
  | some old => rfl

/-- An attempt fails after calls that only prepare, and the link is without a channel if it was so
before; or the queue has a new consumer, and the component a new receiver and a channel of the same
connection. -/
theorem attempt_cases (l : Line) (incident : Incident) :
    ∃ calls : List Broker.Call, (∀ c ∈ calls, c.Prepares) ∧
      ((∃ link, (link = l.link ∨ link = l.link.close) ∧
          l.attempt incident = { l.performAll calls with link }) ∨
        ∃ ch, (l.performAll calls).broker.isOpen ch.generation = true ∧
          l.attempt incident =
            { tracked := ((((l.performAll calls).tracked.setBroker
                ((l.performAll calls).broker.register ch l.link.settings.consumes)).dispatch
                  l.link.settings.consumes).performAll
                    (l.receiver.map fun old => .dropStream old.stream).toList)
              link := { l.link with channel := some ch }
              receiver :=
                some ⟨ch.generation, (l.performAll calls).broker.streams.length⟩ }) := by
  obtain ⟨calls, hprepares, hcases⟩ := l.link.attempt_cases l.tracked incident
  refine ⟨calls, hprepares, ?_⟩
  rw [attempt, broker]
  cases hattempt : l.link.attempt l.tracked.broker incident with
  | mk b rest =>
      obtain ⟨link, result⟩ := rest
      rw [hattempt] at hcases
      rcases hcases with ⟨e, rfl, hlink, hsame⟩ | ⟨ch, hok, ho, hnew⟩
      · refine Or.inl ⟨link, hlink, ?_⟩
        dsimp only
        rw [hsame]
        rfl
      · cases hok
        refine Or.inr ⟨ch, ho, ?_⟩
        dsimp only
        rw [hnew]
        rfl

theorem receive_of_delivery {l : Line} {r : Receiver} {d : Delivery} (hr : l.receiver = some r)
    (hd : (l.broker.receive r.stream).2 = .delivery d) :
    l.receive = (l.perform (.receive r.stream), some (r.handle d, d.message.content)) := by
  rw [receive, hr]
  dsimp only
  rw [hd, perform, hr]

/-- What is received is the first delivery that waits in the stream of the receiver. -/
theorem receive_cases (l : Line) :
    (∃ r d, l.receiver = some r ∧ (l.broker.receive r.stream).2 = .delivery d ∧
        l.receive = (l.perform (.receive r.stream), some (r.handle d, d.message.content))) ∨
      l.receive = (l, none) := by
  rw [receive]
  cases hr : l.receiver with
  | none => exact Or.inr rfl
  | some r =>
      dsimp only
      cases hd : (l.broker.receive r.stream).2 with
      | delivery d => exact Or.inl ⟨r, d, rfl, hd, by rw [perform, hr]⟩
      | empty => exact Or.inr rfl
      | closed => exact Or.inr rfl

@[simp] theorem receive_link (l : Line) : l.receive.1.link = l.link := by
  rcases l.receive_cases with ⟨r, d, -, -, heq⟩ | heq
  · rw [heq, perform]
  · rw [heq]

@[simp] theorem receive_receiver (l : Line) : l.receive.1.receiver = l.receiver := by
  rcases l.receive_cases with ⟨r, d, -, -, heq⟩ | heq
  · rw [heq, perform]
  · rw [heq]

/-- An attempt is a number of calls to the broker. -/
theorem exists_attempt_tracked (l : Line) (incident : Incident) :
    ∃ calls, (l.attempt incident).tracked = l.tracked.performAll calls := by
  rw [attempt]
  cases l.link.attempt l.broker incident with
  | mk b rest =>
      obtain ⟨link, result⟩ := rest
      cases result with
      | error e => exact ⟨_, rfl⟩
      | ok r => exact ⟨_, (Tracked.performAll_append _ _ _).symm⟩

@[simp] theorem attempt_settings (l : Line) (incident : Incident) :
    (l.attempt incident).link.settings = l.link.settings := by
  obtain ⟨calls, -, ⟨link, rfl | rfl, heq⟩ | ⟨ch, -, heq⟩⟩ := l.attempt_cases incident
  · rw [heq]
  · rw [heq, Link.close]
  · rw [heq]

/-! ### The component is fed -/

/-- The broker feeds the component from the queue of its link.  The tags of what the component has
received are given. -/
def Feeds (own : List Nat) (l : Line) : Prop :=
  l.tracked.Feeding l.link.settings.consumes l.receiver own

namespace Feeds

variable {l : Line} {own own' : List Nat}

theorem subset (h : l.Feeds own) (hs : own' ⊆ own) : l.Feeds own' := Tracked.Feeding.subset h hs

theorem performAll (h : l.Feeds own) (calls : List Broker.Call) : (l.performAll calls).Feeds own :=
  Tracked.Feeding.performAll h calls

theorem attempt (h : l.Feeds own) (incident : Incident) : (l.attempt incident).Feeds own := by
  obtain ⟨calls, -, ⟨link, hlink, heq⟩ | ⟨ch, -, heq⟩⟩ := l.attempt_cases incident
  · have hsettings : link.settings = l.link.settings := by
      rcases hlink with rfl | rfl
      · rfl
      · rfl
    rw [heq, Feeds, hsettings]
    exact h.performAll calls
  · rw [heq]
    have hregistered := Tracked.Feeding.register (h.performAll calls) ch
    exact (hregistered.dispatch _).performAll _

/-- What is received is a delivery of the queue of the link, and its tag was not received before. -/
theorem receive (h : l.Feeds own) {r : Receiver} {d : Delivery} (hr : l.receiver = some r)
    (hd : (l.broker.receive r.stream).2 = .delivery d) :
    (l.perform (.receive r.stream)).Feeds (d.tag :: own) ∧
      ∃ u ∈ l.tracked.ledger.handed, u.tag = d.tag ∧ u.message = d.message ∧
        u.queue = l.link.settings.consumes ∧ u.generation = r.generation := by
  rw [Feeds, hr] at h
  have hreceived := Tracked.Feeding.receive h hd
  refine ⟨?_, hreceived.2⟩
  rw [Feeds, perform, hr]
  exact hreceived.1

end Feeds

end Line

end HashCalendar
