/-
**Services that keep apart.**

The two services share a broker with nobody but the outside, which brings messages, takes finished
ones away and lets connections fail.  If their queues are different, neither gets in the way of the
other: the stream of a service ends only with its connection.  And from a queue that neither of them
consumes nothing is ever handed over.

Main definitions:

* `HashCalendar.Tandem.Permits`, `HashCalendar.Tandem.Reachable` — what may happen next to the
  services at their broker, and the states that a run may get to;
* `HashCalendar.Line.Beside` — two components at one broker that keep apart.

Main results:

* `HashCalendar.Line.Acts.moves` — a service keeps apart from whoever has another queue and another
  stream;
* `HashCalendar.Line.Beside.act` — **two components with different queues go on to keep apart**;
* `HashCalendar.Tandem.Reachable.lasts` — **the stream of a service lasts as long as its
  connection**;
* `HashCalendar.Tandem.Reachable.untouched` — **what neither service consumes is not handed over**.
-/

import HashCalendar.Proofs.Pipeline.Tandem

set_option relaxedAutoImplicit false
set_option autoImplicit false

namespace HashCalendar

/-! ### What a service does beside another -/

namespace Line

variable {τ : Type} {e : ServiceEvent τ} {k k' : Contact} {l l' m : Line}

@[simp] theorem Acts.settings (ha : l.Acts k e k' l') : l'.link.settings = l.link.settings := by
  cases ha with
  | call c => rfl
  | connect => exact l.connect_settings k
  | receive => exact congrArg Link.settings l.receive_link
  | aside calls h => rfl
  | lose => rfl

/-- A service keeps apart from whoever has another queue and another stream. -/
theorem Acts.moves (ha : l.Acts k e k' l') (he : ∀ c, e = .call c → c.IsOutside)
    {queue : String} {receiver : Option Receiver} (hqueue : l.link.settings.consumes ≠ queue)
    (hstream : ∀ r r', l.receiver = some r → receiver = some r' → r.stream ≠ r'.stream) :
    Tracked.Moves (.apart queue receiver) l.tracked l'.tracked := by
  have haside : ∀ {l : Line} {calls : List Broker.Call}, (∀ c ∈ calls, c.IsAside) →
      Tracked.Moves (.apart queue receiver) l.tracked (l.performAll calls).tracked :=
    fun h => Tracked.moves_performAll fun c hc b => (h c hc).apart queue receiver b
  cases ha with
  | call c => exact Tracked.moves_perform ((he c rfl).isAside.apart queue receiver _)
  | connect =>
      by_cases hk : k = .receiving
      · subst hk
        exact .refl
      · rcases l.connect_cases hk with ⟨calls, link, hcalls, -, -, -, heq⟩ | ⟨ch, -, ho, heq⟩
        · rw [heq]
          exact haside fun c hc => (hcalls c hc).isAside
        · rw [heq]
          exact (Relation.ReflTransGen.single (.register hqueue ho)).trans
            (Tracked.moves_dispatch _ _)
  | receive =>
      rcases l.receive_cases with ⟨r, d, hr, -, heq⟩ | heq
      · have hallows : (Broker.Rules.apart queue receiver).Allows l.broker (.receive r.stream) :=
          fun r' hr' => hstream r r' hr hr'
        rw [heq]
        exact Tracked.moves_perform hallows
      · rw [heq]
  | aside calls h => exact haside h
  | lose =>
      refine Tracked.moves_performAll fun c hc b => ?_
      obtain ⟨r, hr, rfl⟩ := Option.map_eq_some_iff.1 (Option.mem_toList.1 hc)
      exact fun r' hr' => hstream r r' hr hr'

/-- A service has the receiver that it had before, or a new one with a new stream. -/
theorem Acts.receiver (ha : l.Acts k e k' l') {r : Receiver} (hr : l'.receiver = some r) :
    l.receiver = some r ∨ l.broker.streams.length ≤ r.stream := by
  cases ha with
  | call c => exact Or.inl hr
  | connect =>
      by_cases hk : k = .receiving
      · subst hk
        exact Or.inl hr
      · rcases l.connect_cases hk with ⟨calls, link, -, -, -, -, heq⟩ | ⟨ch, -, -, heq⟩
        · rw [heq] at hr
          exact Or.inl hr
        · rw [heq] at hr
          cases hr
          exact Or.inr (Nat.le_refl _)
  | receive =>
      rcases l.receive_cases with ⟨r', d, -, -, heq⟩ | heq
      · rw [heq] at hr
        exact Or.inl hr
      · rw [heq] at hr
        exact Or.inl hr
  | aside calls h => exact Or.inl hr
  | lose => cases hr

/-- The receiver of a component, if it has one, lasts as long as its connection. -/
def ReceiverLasts (l : Line) : Prop :=
  ∀ r, l.receiver = some r → l.tracked.Lasts l.link.settings.consumes r

/-- Whatever a service does, its own receiver lasts as long as its connection. -/
theorem ReceiverLasts.act (h : l.ReceiverLasts) (ha : l.Acts k e k' l')
    (he : ∀ c, e = .call c → c.IsOutside) : l'.ReceiverLasts := by
  have haside : ∀ {calls : List Broker.Call}, (∀ c ∈ calls, c.IsAside) → ∀ r,
      l.receiver = some r → (l.tracked.performAll calls).Lasts l.link.settings.consumes r :=
    fun hcalls r hr => (h r hr).moves <|
      Tracked.moves_performAll fun c hc b => (hcalls c hc).apart _ _ b
  cases ha with
  | call c => exact fun r hr => (h r hr).moves (Tracked.moves_perform ((he c rfl).isAside.apart ..))
  | connect =>
      by_cases hk : k = .receiving
      · subst hk
        exact h
      · rcases l.connect_cases hk with ⟨calls, link, hcalls, hlink, -, -, heq⟩ | ⟨ch, -, ho, heq⟩
        · rw [heq, ReceiverLasts, hlink]
          exact haside fun c hc => (hcalls c hc).isAside
        · rw [heq]
          rintro r ⟨⟩
          exact (Tracked.Lasts.register ho).moves (Tracked.moves_dispatch _ _)
  | receive =>
      rcases l.receive_cases with ⟨r', d, -, -, heq⟩ | heq
      · rw [heq]
        exact fun r hr => (h r hr).receive r'.stream
      · rw [heq]
        exact h
  | aside calls hcalls => exact haside hcalls
  | lose => exact fun r hr => nomatch hr

/-- Two components at one broker keep apart: they consume different queues, and while they have
receivers, these last and have different streams. -/
structure Beside (l m : Line) : Prop where
  shared : m.tracked = l.tracked
  queues : l.link.settings.consumes ≠ m.link.settings.consumes
  streams : ∀ r r', l.receiver = some r → m.receiver = some r' → r.stream ≠ r'.stream
  lasts : l.ReceiverLasts
  lasts' : m.ReceiverLasts

/-- A component at another state of its broker. -/
def withTracked (l : Line) (t : Tracked) : Line := { l with tracked := t }

namespace Beside

theorem symm (h : l.Beside m) : m.Beside l where
  shared := h.shared.symm
  queues := h.queues.symm
  streams r r' hr hr' := (h.streams r' r hr' hr).symm
  lasts := h.lasts'
  lasts' := h.lasts

/-- Calls aside keep nobody from keeping apart. -/
theorem performAll (h : l.Beside m) {calls : List Broker.Call} (hcalls : ∀ c ∈ calls, c.IsAside) :
    (l.performAll calls).Beside (m.withTracked (l.tracked.performAll calls)) where
  shared := rfl
  queues := h.queues
  streams := h.streams
  lasts r hr := (h.lasts r hr).moves <|
    Tracked.moves_performAll fun c hc b => (hcalls c hc).apart _ _ b
  lasts' r hr := by
    have hlasts := h.lasts' r hr
    rw [h.shared] at hlasts
    exact hlasts.moves (Tracked.moves_performAll fun c hc b => (hcalls c hc).apart _ _ b)

/-- Two components with different queues go on to keep apart. -/
theorem act (h : l.Beside m) (ha : l.Acts k e k' l') (he : ∀ c, e = .call c → c.IsOutside) :
    l'.Beside (m.withTracked l'.tracked) where
  shared := rfl
  queues := by
    rw [ha.settings]
    exact h.queues
  streams r r' hr hr' := by
    rcases ha.receiver hr with hr | hnew
    · exact h.streams r r' hr hr'
    · -- The stream of the other component was there before.
      have hlasts := h.lasts' r' hr'
      rw [h.shared] at hlasts
      exact (Nat.ne_of_lt (Nat.lt_of_lt_of_le hlasts.known hnew)).symm
  lasts := h.lasts.act ha he
  lasts' r hr := by
    have hlasts := h.lasts' r hr
    rw [h.shared] at hlasts
    refine hlasts.moves (ha.moves he h.queues fun r₁ r₂ hr₁ hr₂ => ?_)
    obtain rfl := Option.some.inj hr₂
    exact h.streams r₁ r hr₁ hr

end Beside

end Line

/-! ### Both services and the outside -/

/-- The queue that a tier consumes. -/
def Config.Queues.consumedBy (queues : Config.Queues) : Tier → String
  | .aggregation => queues.aggregatorIn
  | .calendar => queues.calendarIn

/-- The scheduler makes calls aside. -/
theorem Scheduler.isAside_of_mem_calls (s : Scheduler) (channel : Option Channel) (id : Uuid) :
    ∀ c ∈ s.calls channel id, c.IsAside := by
  intro c hc
  cases channel with
  | none => cases hc
  | some ch =>
      rw [calls] at hc
      cases hrequest : s.request id s.window.items with
      | ok request =>
          rw [hrequest] at hc
          rw [List.mem_singleton.1 hc]
          exact trivial
      | error e =>
          rw [hrequest] at hc
          cases hc

/-- Whether an event may happen to a service that shares its broker with the outside only.  While it
is connected and has nothing in hand it waits for deliveries and ticks. -/
def ServiceEvent.InTurn {τ : Type} (contact : Contact) (l : Line)
    (inHand : List (Handle × Content)) : ServiceEvent τ → Prop
  | .call c => c.IsOutside
  | .connect => contact ≠ .receiving
  | .receive => contact = .receiving ∧ inHand = []
  | .ingest => True
  | .tick _ => contact = .receiving ∧ inHand = []
  | .advance _ => True
  | .lose => contact = .receiving ∧ inHand = [] ∧ l.hasEnded = true

theorem ServiceEvent.InTurn.isOutside {τ : Type} {contact : Contact} {l : Line}
    {inHand : List (Handle × Content)} {e : ServiceEvent τ} (h : e.InTurn contact l inHand) :
    ∀ c, e = .call c → c.IsOutside := by
  rintro c rfl
  exact h

namespace Tandem

/-- How far a service has got with connecting. -/
def contact (s : Tandem) : Tier → Contact
  | .aggregation => s.aggregation.contact
  | .calendar => s.calendar.contact

/-- What a service has received and not taken in yet. -/
def inHand (s : Tandem) : Tier → List (Handle × Content)
  | .aggregation => s.aggregation.inHand
  | .calendar => s.calendar.inHand

/-- Whether an event may happen.  The scheduler works in the loop of the calendar tier. -/
def Permits (s : Tandem) : Event → Prop
  | .aggregation e =>
    e.InTurn (s.contact .aggregation) (s.line .aggregation) (s.inHand .aggregation)
  | .calendar e => e.InTurn (s.contact .calendar) (s.line .calendar) (s.inHand .calendar)
  | .record => s.contact .calendar = .receiving ∧ s.inHand .calendar = []
  | .anchor _ => s.contact .calendar = .receiving ∧ s.inHand .calendar = []

/-- The states that a run may get to. -/
def Reachable (c : Config) : Tandem → Prop := Reaches Permits act (ofConfig c)

variable {c : Config} {s : Tandem}

theorem Reachable.exists_run (h : Reachable c s) : ∃ events, s = run c events := by
  induction h with
  | start => exact ⟨[], rfl⟩
  | @next s e _ he ih =>
      obtain ⟨events, rfl⟩ := ih
      exact ⟨events ++ [e], (run_concat c events e).symm⟩

theorem Reachable.isShared (h : Reachable c s) : s.IsShared := by
  obtain ⟨events, rfl⟩ := h.exists_run
  exact (exists_runs c events).1

theorem Reachable.settings (h : Reachable c s) (tier : Tier) :
    (s.line tier).link.settings.consumes = c.queues.consumedBy tier := by
  induction h with
  | start =>
      cases tier with
      | aggregation => rfl
      | calendar => rfl
  | @next s e _ he ih =>
      refine Eq.trans ?_ ih
      cases e with
      | aggregation e =>
          cases tier with
          | aggregation =>
              exact congrArg Link.Settings.consumes (s.aggregation.act_settings e)
          | calendar => rfl
      | calendar e =>
          cases tier with
          | aggregation => rfl
          | calendar => exact congrArg Link.Settings.consumes (s.calendar.act_settings e)
      | record =>
          rw [act]
          cases s.blocks with
          | nil => rfl
          | cons block blocks => cases tier <;> rfl
      | anchor id => cases tier <;> rfl

/-- A run does a number of calls. -/
theorem exists_reaches_tracked {s' : Tandem} (hs : s.IsShared) (h : Reaches Permits act s s') :
    s'.IsShared ∧ ∃ calls, s'.tracked = s.tracked.performAll calls := by
  induction h with
  | start => exact ⟨hs, [], rfl⟩
  | @next s' e _ he ih =>
      obtain ⟨hshared, calls, hcalls⟩ := ih
      obtain ⟨more, hmore⟩ := exists_act_tracked hshared e
      exact ⟨(exists_act hshared e).1, calls ++ more,
        by rw [hmore, hcalls, Tracked.performAll_append]⟩

theorem Reachable.exists_tracked (h : Reachable c s) :
    ∃ calls, s.tracked = Tracked.performAll {} calls :=
  (exists_reaches_tracked (isShared_ofConfig c) h).2

theorem Reachable.sound (h : Reachable c s) : s.tracked.Sound := by
  obtain ⟨calls, hcalls⟩ := h.exists_tracked
  rw [hcalls]
  exact sound_trackedRun calls

theorem Reachable.namesDiffer (h : Reachable c s) : s.broker.NamesDiffer := by
  obtain ⟨calls, hcalls⟩ := h.exists_tracked
  have hempty : Broker.NamesDiffer {} := List.nodup_nil
  rw [broker, hcalls]
  exact Tracked.namesDiffer_performAll hempty calls

/-! ### Streams -/

/-- Services with different queues keep apart whatever happens. -/
theorem beside_act (h : (s.line .aggregation).Beside (s.line .calendar)) {e : Event}
    (he : s.Permits e) : ((s.act e).line .aggregation).Beside ((s.act e).line .calendar) := by
  cases e with
  | aggregation e => exact h.act (s.aggregation.acts_act e) he.isOutside
  | calendar e => exact (h.symm.act (s.calendar.acts_act e) he.isOutside).symm
  | record =>
      rw [act]
      cases s.blocks with
      | nil => exact h
      | cons block blocks => exact h
  | anchor id => exact h.performAll (s.scheduler.isAside_of_mem_calls s.calendar.link.channel id)

/-- Services with different queues keep apart. -/
theorem Reachable.beside (h : Reachable c s)
    (hqueues : c.queues.aggregatorIn ≠ c.queues.calendarIn) :
    (s.line .aggregation).Beside (s.line .calendar) := by
  induction h with
  | start => exact ⟨rfl, hqueues, nofun, nofun, nofun⟩
  | next h he ih => exact beside_act ih he

/-- The stream of a service lasts as long as its connection. -/
theorem Reachable.lasts (h : Reachable c s)
    (hqueues : c.queues.aggregatorIn ≠ c.queues.calendarIn) (tier : Tier) :
    (s.line tier).ReceiverLasts := by
  cases tier with
  | aggregation => exact (h.beside hqueues).lasts
  | calendar => exact (h.beside hqueues).lasts'

/-! ### Queues that neither service consumes -/

/-- Whatever happens keeps apart from a queue that neither service consumes. -/
theorem moves_act (h : s.IsShared) {e : Event} (he : s.Permits e) {queue : String}
    (hqueue : ∀ tier, (s.line tier).link.settings.consumes ≠ queue) :
    Tracked.Moves (.apart queue none) s.tracked (s.act e).tracked := by
  cases e with
  | aggregation e =>
      exact (s.aggregation.acts_act e).moves he.isOutside (hqueue .aggregation) nofun
  | calendar e =>
      rw [tracked, ← h]
      exact (s.calendar.acts_act e).moves he.isOutside (hqueue .calendar) nofun
  | record =>
      rw [act]
      cases s.blocks with
      | nil => exact .refl
      | cons block blocks => exact .refl
  | anchor id =>
      exact Tracked.moves_performAll fun c hc b =>
        (s.scheduler.isAside_of_mem_calls s.calendar.link.channel id c hc).apart queue none b

/-- What neither service consumes is not handed over. -/
theorem Reachable.untouched (h : Reachable c s) {queue : String}
    (hqueue : ∀ tier, c.queues.consumedBy tier ≠ queue) : s.tracked.Untouched queue := by
  induction h with
  | start => exact .empty queue
  | @next s e h he ih =>
      have hs : Reachable c s := h
      refine ih.moves (moves_act hs.isShared he fun tier => ?_)
      rw [hs.settings]
      exact hqueue tier

end Tandem

end HashCalendar
