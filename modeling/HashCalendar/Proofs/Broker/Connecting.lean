/-
**Connecting, step by step.**

An attempt to connect takes several calls to the broker, and others may call it in between.  Here an
attempt is cut up into its steps: a channel is opened, queues are declared on it, it is shared, and
only then consuming starts.  A step that fails ends the attempt.  When nobody calls in between, the
steps together are the attempt.  At the end of a connection the channel is given up, and nobody
listens to the old stream any more.

Main definitions:

* `HashCalendar.Contact` — how far a component has got with connecting;
* `HashCalendar.Line.connect` — the next step;
* `HashCalendar.Line.hangUp` — the end of a connection.

Main results:

* `HashCalendar.Line.connect_cases` — **all that a step can do**;
* `HashCalendar.Line.exists_iterate_connect` — **the steps in a row are an attempt**.
-/

import HashCalendar.Proofs.Batch.Steps
import HashCalendar.Proofs.Broker.Line

set_option relaxedAutoImplicit false
set_option autoImplicit false

namespace HashCalendar

/-- How far a component has got with connecting. -/
inductive Contact where
  /-- It has no channel. -/
  | away
  /-- It has opened a channel, on which queues are still to be declared. -/
  | declaring (ch : Channel) (left : List String)
  /-- It has shared its channel, and is about to consume. -/
  | sharing (ch : Channel)
  | receiving
  deriving DecidableEq, Repr

namespace Line

/-- The next step of connecting.  The channel is shared before consuming starts, and no longer
shared if it cannot start. -/
def connect (l : Line) : Contact → Contact × Line
  | .away =>
    match l.broker.openChannel l.link.settings.uri with
    | .error _ => (.away, l)
    | .ok ch => (.declaring ch (l.link.settings.consumes :: l.link.settings.declares), l)
  | .declaring ch (name :: names) =>
    match (l.broker.declareQueue ch name).2 with
    | .error _ => (.away, l.perform (.declareQueue ch name))
    | .ok () => (.declaring ch names, l.perform (.declareQueue ch name))
  | .declaring ch [] =>
    match l.broker.setPrefetch ch l.link.settings.prefetch with
    | .error _ => (.away, l)
    | .ok ch => (.sharing ch, { l with link := { l.link with channel := some ch } })
  | .sharing ch =>
    let consumed := l.perform (.consume ch l.link.settings.consumes)
    match (l.broker.consume ch l.link.settings.consumes).2 with
    | .error _ => (.away, { consumed with link := l.link.close })
    | .ok stream => (.receiving, { consumed with receiver := some ⟨ch.generation, stream⟩ })
  | .receiving => (.receiving, l)

/-- The end of a connection. -/
def hangUp (l : Line) : Line where
  tracked := l.tracked.performAll (l.receiver.map fun r => .dropStream r.stream).toList
  link := l.link.close
  receiver := none

theorem hangUp_broker (l : Line) :
    l.hangUp.broker = l.receiver.elim l.broker fun r => l.broker.dropStream r.stream := by
  rw [hangUp]
  cases l.receiver with
  | none => rfl
  | some r => rfl

/-- A step of connecting only prepares, and then the component does not receive yet, or it has just
shared a channel and gets its queue a new consumer on the connection of that channel. -/
theorem connect_cases (l : Line) {k : Contact} (hk : k ≠ .receiving) :
    (∃ calls link, (∀ c ∈ calls, Broker.Call.Prepares c) ∧ link.settings = l.link.settings ∧
        (l.connect k).1 ≠ .receiving ∧
        (∀ ch, (l.connect k).1 = .sharing ch → link.channel = some ch) ∧
        (l.connect k).2 = { l.performAll calls with link }) ∨
      ∃ ch, k = .sharing ch ∧ l.broker.isOpen ch.generation = true ∧
        l.connect k =
          (.receiving,
            { l with
              tracked :=
                (l.tracked.setBroker (l.broker.register ch l.link.settings.consumes)).dispatch
                  l.link.settings.consumes
              receiver := some ⟨ch.generation, l.broker.streams.length⟩ }) := by
  cases k with
  | away =>
      refine Or.inl ⟨[], l.link, by simp, rfl, ?_⟩
      rw [connect]
      cases l.broker.openChannel l.link.settings.uri with
      | error e => exact ⟨by simp, by simp, rfl⟩
      | ok ch => exact ⟨by simp, by simp, rfl⟩
  | declaring ch left =>
      cases left with
      | nil =>
          rw [connect]
          cases l.broker.setPrefetch ch l.link.settings.prefetch with
          | error e => exact Or.inl ⟨[], l.link, by simp, rfl, by simp, by simp, rfl⟩
          | ok ch =>
              refine Or.inl ⟨[], { l.link with channel := some ch }, by simp, rfl, by simp, ?_, rfl⟩
              rintro _ ⟨⟩
              rfl
      | cons name names =>
          refine Or.inl ⟨[.declareQueue ch name], l.link, ?_, rfl, ?_⟩
          · intro c hc
            rw [List.mem_singleton.1 hc]
            exact trivial
          · rw [connect]
            cases (l.broker.declareQueue ch name).2 with
            | error e => exact ⟨by simp, by simp, rfl⟩
            | ok u => exact ⟨by simp, by simp, rfl⟩
  | sharing ch =>
      rw [connect, perform, Tracked.perform]
      rcases l.tracked.consume_cases ch l.link.settings.consumes with
        ⟨e, herror, hsame⟩ | ⟨hok, ho, hnew⟩
      · refine Or.inl ⟨[], l.link.close, by simp, rfl, ?_⟩
        rw [broker, herror, hsame]
        exact ⟨by simp, by simp, rfl⟩
      · refine Or.inr ⟨ch, rfl, ho, ?_⟩
        rw [broker, hok, hnew]
  | receiving => exact absurd rfl hk

@[simp] theorem connect_settings (l : Line) (k : Contact) :
    (l.connect k).2.link.settings = l.link.settings := by
  by_cases hk : k = .receiving
  · subst hk
    rfl
  · rcases l.connect_cases hk with ⟨calls, link, -, hlink, -, -, heq⟩ | ⟨ch, -, -, heq⟩
    · rw [heq]
      exact hlink
    · rw [heq]

/-! ### The steps in a row -/

/-- The next step, made at once. -/
def step (x : Contact × Line) : Contact × Line := x.2.connect x.1

/-- Declaring a queue does not close a channel. -/
theorem isOpen_perform_declareQueue (l : Line) (ch : Channel) (name : String) (generation : Nat) :
    (l.perform (.declareQueue ch name)).broker.isOpen generation = l.broker.isOpen generation := by
  rw [perform_broker, Broker.perform, Broker.declareQueue]
  by_cases h : l.broker.isOpen ch.generation = true
  · rw [if_pos h]
    rfl
  · rw [if_neg h]

/-- On an open channel all queues get declared. -/
theorem iterate_step_declaring {l : Line} {ch : Channel} (ho : l.broker.isOpen ch.generation = true)
    (names : List String) :
    step^[names.length] (.declaring ch names, l) =
        (.declaring ch [], l.performAll (names.map (.declareQueue ch))) ∧
      l.broker.declareAll ch names =
        ((l.performAll (names.map (.declareQueue ch))).broker, .ok ()) ∧
      (l.performAll (names.map (.declareQueue ch))).broker.isOpen ch.generation = true := by
  induction names generalizing l with
  | nil => exact ⟨rfl, rfl, ho⟩
  | cons name names ih =>
      have hdeclared : l.broker.declareQueue ch name =
          ((l.perform (.declareQueue ch name)).broker, .ok ()) := by
        rw [perform_broker, Broker.perform, Broker.declareQueue, if_pos ho]
      have hopen := (isOpen_perform_declareQueue l ch name ch.generation).trans ho
      obtain ⟨hsteps, hall, hstill⟩ := ih hopen
      refine ⟨?_, ?_, hstill⟩
      · rw [List.length_cons, Function.iterate_succ_apply, step, connect, hdeclared]
        exact hsteps
      · rw [Broker.declareAll, hdeclared]
        exact hall

/-- An attempt to connect to an unreachable broker does nothing. -/
theorem attempt_of_unreachable {l : Line} (h : ¬ l.broker.reachable = true) :
    l.attempt .nothing = l := by
  have hrefuses : l.broker.openChannel l.link.settings.uri =
      .error (.unreachable l.link.settings.uri) := if_neg h
  have hprepare : l.broker.prepareChannel l.link.settings .nothing =
      (l.broker, .error (.unreachable l.link.settings.uri)) := by
    simp only [Broker.prepareChannel, reduceCtorEq, if_false, hrefuses]
  have hcalls : l.link.calls l.broker .nothing = [] := by
    simp only [Link.calls, Broker.prepareCalls, hprepare, reduceCtorEq, if_false, hrefuses,
      List.nil_append]
  rw [attempt, Link.attempt, hprepare, hcalls]
  rfl

section Reachable

variable (l : Line)

/-- The channel that a broker opens. -/
def opened : Channel := { generation := l.broker.generation }

/-- The channel that is shared. -/
def prepared : Channel := { l.opened with prefetch := l.link.settings.prefetch }

/-- The queues that are declared. -/
def declares : List String := l.link.settings.consumes :: l.link.settings.declares

/-- The line when all queues have been declared and the channel is shared. -/
def shared : Line :=
  { l.performAll (l.declares.map (.declareQueue l.opened)) with
    link := { l.link with channel := some l.prepared } }

end Reachable

/-- Before an attempt consumes it takes the steps up to there. -/
theorem iterate_step_sharing {l : Line} (h : l.broker.reachable = true) :
    step^[l.declares.length + 2] (.away, l) = (.sharing l.prepared, l.shared) ∧
      l.broker.prepareChannel l.link.settings .nothing = (l.shared.broker, .ok l.prepared) := by
  have hopens : l.broker.openChannel l.link.settings.uri = .ok l.opened := if_pos h
  have ho : l.broker.isOpen l.opened.generation = true := by simp [Broker.isOpen, opened, h]
  obtain ⟨hsteps, hall, hstill⟩ := iterate_step_declaring ho l.declares
  have hprefetch : l.shared.broker.setPrefetch l.opened l.link.settings.prefetch =
      .ok l.prepared := if_pos hstill
  constructor
  · have hfirst : step (.away, l) = (.declaring l.opened l.declares, l) := by
      rw [step, connect, hopens]
      rfl
    rw [Function.iterate_succ_apply', Function.iterate_succ_apply, hfirst, hsteps, step, connect]
    exact hprefetch ▸ rfl
  · simp only [Broker.prepareChannel, reduceCtorEq, if_false, hopens]
    rw [← declares, hall]
    exact congrArg (Prod.mk _) hprefetch

/-- The steps in a row are an attempt during which nothing happens to the connection. -/
theorem exists_iterate_connect {l : Line} (hr : l.receiver = none) :
    ∃ n, step^[n] (.away, l) =
      (if (l.attempt .nothing).receiver = none then .away else .receiving, l.attempt .nothing) := by
  by_cases hreachable : l.broker.reachable = true
  · obtain ⟨hsteps, hprepare⟩ := iterate_step_sharing hreachable
    have hcalls : l.link.calls l.broker .nothing =
        l.declares.map (.declareQueue l.opened) ++
          [.consume l.prepared l.link.settings.consumes] := by
      have hopens : l.broker.openChannel l.link.settings.uri = .ok l.opened := if_pos hreachable
      simp only [Link.calls, Broker.prepareCalls, hprepare, reduceCtorEq, if_false, hopens,
        List.nil_append]
      rfl
    refine ⟨l.declares.length + 3, ?_⟩
    rw [Function.iterate_succ_apply', hsteps, attempt, Link.attempt, hprepare, hcalls,
      Tracked.performAll_append, step, connect]
    simp only [reduceCtorEq, if_false, show l.shared.link.settings = l.link.settings from rfl]
    cases l.shared.broker.consume l.prepared l.link.settings.consumes with
    | mk b result =>
        cases result with
        | error e =>
            dsimp only
            rw [if_pos hr]
            rfl
        | ok stream =>
            dsimp only
            rw [hr]
            rfl
  · exact ⟨0, by rw [attempt_of_unreachable hreachable, if_pos hr]; rfl⟩

end Line

end HashCalendar
