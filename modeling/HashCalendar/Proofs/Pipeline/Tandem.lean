/-
**Both services at one broker.**

The two services and the scheduler share one broker, and their steps follow each other in any order.
Blocks go from the calendar tier to the scheduler one by one, and the scheduler publishes through
the channel that the calendar tier shares.

Whatever one of them does to the broker is, for the others, calls that somebody makes.  So the part
of each service in a run of both is a run of its own, and what is true of every such run is true
here.

Main definitions:

* `HashCalendar.Line.Acts` — what each event of a service does to its line;
* `HashCalendar.Line.Evolves` — what an event of a service may do to its line;
* `HashCalendar.Tandem` — the two services and the scheduler at their broker;
* `HashCalendar.Tandem.Event`, `HashCalendar.Tandem.act` — what may happen, and what comes of it;
* `HashCalendar.Tandem.run` — all of them after a number of events.

Main results:

* `HashCalendar.AggregationService.acts_act`, `HashCalendar.CalendarService.acts_act` — all that an
  event does to the line of a service;
* `HashCalendar.Tandem.exists_runs` — **in a run of both services each of them takes a run of its
  own**.
-/

import HashCalendar.Pipeline.Workbench
import HashCalendar.Proofs.Anchor.Windows
import HashCalendar.Proofs.Broker.Apart
import HashCalendar.Proofs.Pipeline.Loops
import Mathlib.Data.List.Induction

set_option relaxedAutoImplicit false
set_option autoImplicit false

namespace HashCalendar

/-! ### The line of a service -/

/-- What each event of a service does to its line: the service takes the next step of connecting,
receives or hangs up, or all that is called is aside. -/
inductive Line.Acts {τ : Type} (k : Contact) (l : Line) :
    ServiceEvent τ → Contact → Line → Prop where
  | call (c : Broker.Call) : Acts k l (.call c) k (l.perform c)
  | connect : Acts k l .connect (l.connect k).1 (l.connect k).2
  | receive : Acts k l .receive k l.receive.1
  | aside {e : ServiceEvent τ} (calls : List Broker.Call) (h : ∀ c ∈ calls, c.IsAside) :
      Acts k l e k (l.performAll calls)
  | lose : Acts k l .lose .away l.hangUp

/-- What an event of a service may do to its line: calls are made, the service takes the next step
of connecting, or it hangs up. -/
inductive Line.Evolves (k : Contact) (l : Line) : Contact → Line → Prop where
  | calls (calls : List Broker.Call) : Evolves k l k (l.performAll calls)
  | connect : Evolves k l (l.connect k).1 (l.connect k).2
  | hangUp : Evolves k l .away l.hangUp

namespace Line

theorem Evolves.refl (k : Contact) (l : Line) : l.Evolves k k l := .calls []

/-- Where nothing is called, the line stays as it is. -/
theorem Acts.refl {τ : Type} (k : Contact) (l : Line) (e : ServiceEvent τ) : l.Acts k e k l :=
  .aside [] (by simp)

theorem evolves_receive (k : Contact) (l : Line) : l.Evolves k k l.receive.1 := by
  rcases l.receive_cases with ⟨r, d, -, -, heq⟩ | heq
  · rw [heq]
    exact .calls [.receive r.stream]
  · rw [heq]
    exact .refl k l

theorem Acts.evolves {τ : Type} {k k' : Contact} {l l' : Line} {e : ServiceEvent τ}
    (h : l.Acts k e k' l') : l.Evolves k k' l' := by
  cases h with
  | call c => exact .calls [c]
  | connect => exact .connect
  | receive => exact l.evolves_receive k
  | aside calls h => exact .calls calls
  | lose => exact .hangUp

/-- A step of connecting is a number of calls to the broker. -/
theorem exists_connect_tracked (l : Line) (k : Contact) :
    ∃ calls, (l.connect k).2.tracked = l.tracked.performAll calls := by
  cases k with
  | away =>
      refine ⟨[], ?_⟩
      rw [connect]
      cases l.broker.openChannel l.link.settings.uri with
      | error e => rfl
      | ok ch => rfl
  | declaring ch left =>
      cases left with
      | nil =>
          refine ⟨[], ?_⟩
          rw [connect]
          cases l.broker.setPrefetch ch l.link.settings.prefetch with
          | error e => rfl
          | ok ch => rfl
      | cons name names =>
          refine ⟨[.declareQueue ch name], ?_⟩
          rw [connect]
          cases (l.broker.declareQueue ch name).2 with
          | error e => rfl
          | ok u => rfl
  | sharing ch =>
      refine ⟨[.consume ch l.link.settings.consumes], ?_⟩
      rw [connect]
      cases (l.broker.consume ch l.link.settings.consumes).2 with
      | error e => rfl
      | ok stream => rfl
  | receiving => exact ⟨[], rfl⟩

/-- What an event does to the broker is a number of calls. -/
theorem Evolves.exists_tracked {k k' : Contact} {l l' : Line} (h : l.Evolves k k' l') :
    ∃ calls, l'.tracked = l.tracked.performAll calls := by
  cases h with
  | calls calls => exact ⟨calls, rfl⟩
  | connect => exact l.exists_connect_tracked k
  | hangUp => exact ⟨_, rfl⟩

end Line

/-! ### The services -/

/-- The next call of a job is aside. -/
theorem Progress.isAside_of_mem_call? (p : Progress) (ch : Channel) :
    ∀ c ∈ (p.call? ch).toList, c.IsAside := by
  intro c hc
  rw [Option.mem_toList] at hc
  cases p with
  | publishing left =>
      cases left with
      | nil => cases hc
      | cons m ms =>
          cases hc
          exact trivial
  | acking left count =>
      cases left with
      | nil => cases hc
      | cons h hs =>
          cases hc
          exact trivial
  | returning left =>
      cases left with
      | nil => cases hc
      | cons h hs =>
          cases hc
          exact trivial
  | settled outcome => cases hc

/-- The calls by which a submission is taken in are aside. -/
theorem Station.isAside_of_mem_ingestCalls (handle : Handle) (content : Content) :
    ∀ c ∈ ingestCalls handle content, c.IsAside := by
  rw [ingestCalls]
  cases Submission.read content.payload with
  | ok submission => simp
  | error e => simp [Broker.Call.IsAside]

/-- The calls by which a message is taken in are aside. -/
theorem CalendarStation.isAside_of_mem_ingestCalls (handle : Handle) (content : Content) :
    ∀ c ∈ ingestCalls handle content, c.IsAside := by
  rw [ingestCalls]
  cases Inbound.read content with
  | ok inbound =>
      cases inbound with
      | aggregateRoot m => simp
      | anchorTx body => simp [Broker.Call.IsAside]
  | error e => simp [Broker.Call.IsAside]

namespace AggregationService

/-- The service at another state of its broker. -/
def withTracked (s : AggregationService) (t : Tracked) : AggregationService :=
  { s with tracked := t }

/-- What others call is a number of events of the service. -/
theorem withTracked_performAll (s : AggregationService) (calls : List Broker.Call) :
    s.withTracked (s.tracked.performAll calls) =
      (calls.map ServiceEvent.call).foldl act s := by
  induction calls generalizing s with
  | nil => rfl
  | cons c cs ih => exact ih (s.act (.call c))

/-- All that an event does to the line of the service. -/
theorem acts_act (s : AggregationService) (e : ServiceEvent (Feed × Uuid)) :
    s.toLine.Acts s.contact e (s.act e).contact (s.act e).toLine := by
  cases e with
  | call c => exact .call c
  | connect => exact .connect
  | receive => exact .receive
  | ingest =>
      rw [act, Station.act]
      cases s.inHand[0]? with
      | none => exact .refl _ _ _
      | some d => exact .aside _ (Station.isAside_of_mem_ingestCalls d.1 d.2)
  | tick t =>
      rw [act]
      rcases s.toStation.tick_cases t.1 t.2 with heq | ⟨ch, beacon, -, heq⟩
      · rw [heq]
        exact .refl _ _ _
      · rw [heq]
        exact .refl _ _ _
  | advance number =>
      rw [act, Station.advance]
      cases s.workers[number]? with
      | none => exact .refl _ _ _
      | some w => exact .aside _ (w.progress.isAside_of_mem_call? _)
  | lose => exact .lose

theorem evolves_act (s : AggregationService) (e : ServiceEvent (Feed × Uuid)) :
    s.toLine.Evolves s.contact (s.act e).contact (s.act e).toLine := (s.acts_act e).evolves

end AggregationService

/-- The blocks that a job has emitted: there is one at most. -/
def CalendarStation.blocksOf (s : CalendarStation) (number : Nat) : List Block :=
  (s.finalizers[number]?.bind Finalizer.block?).toList

namespace CalendarService

/-- The service at another state of its broker. -/
def withTracked (s : CalendarService) (t : Tracked) : CalendarService := { s with tracked := t }

/-- What others call is a number of events of the service. -/
theorem withTracked_performAll (s : CalendarService) (calls : List Broker.Call) :
    s.withTracked (s.tracked.performAll calls) =
      (calls.map ServiceEvent.call).foldl act s := by
  induction calls generalizing s with
  | nil => rfl
  | cons c cs ih => exact ih (s.act (.call c))

/-- All that an event does to the line of the service. -/
theorem acts_act (s : CalendarService) (e : ServiceEvent CalendarTick) :
    s.toLine.Acts s.contact e (s.act e).contact (s.act e).toLine := by
  cases e with
  | call c => exact .call c
  | connect => exact .connect
  | receive => exact .receive
  | ingest =>
      rw [act, CalendarStation.act]
      cases s.inHand[0]? with
      | none => exact .refl _ _ _
      | some d => exact .aside _ (CalendarStation.isAside_of_mem_ingestCalls d.1 d.2)
  | tick t =>
      cases t with
      | build id =>
          refine .aside (s.tickCalls id) ?_
          rw [CalendarStation.tickCalls_eq_nil]
          simp
      | finalize => exact .refl _ _ _
  | advance number =>
      rw [act, CalendarStation.advance]
      cases s.finalizers[number]? with
      | none => exact .refl _ _ _
      | some w => exact .aside _ (w.progress.isAside_of_mem_call? _)
  | lose => exact .lose

theorem evolves_act (s : CalendarService) (e : ServiceEvent CalendarTick) :
    s.toLine.Evolves s.contact (s.act e).contact (s.act e).toLine := (s.acts_act e).evolves

/-- The block that an event makes the service emit: the last call of a job does. -/
def emitted? (s : CalendarService) : ServiceEvent CalendarTick → Option Block
  | .advance number =>
    match s.finalizers[number]? with
    | none => none
    | some w => if w.block?.isSome then none else (w.advance s.broker).block?
  | _ => none

/-- What a job has emitted after its next call it had emitted before, or it emits it with this
call. -/
theorem blocksOf_act_advance (s : CalendarService) (number : Nat) :
    (s.act (.advance number)).blocksOf number =
      s.blocksOf number ++ (s.emitted? (.advance number)).toList := by
  rw [act, CalendarStation.blocksOf, CalendarStation.blocksOf, emitted?]
  cases hw : s.finalizers[number]? with
  | none =>
      rw [CalendarStation.advance, hw]
      simp [hw]
  | some w =>
      rw [CalendarStation.advance_of_getElem? hw]
      dsimp only
      rw [List.getElem?_set_self (List.getElem?_eq_some_iff.1 hw).1]
      cases hblock : w.block? with
      | none => simp [hblock]
      | some block =>
          obtain ⟨outcome, hdone⟩ := w.exists_outcome_of_block hblock
          simp [w.advance_of_settled hdone, hblock]

end CalendarService

/-! ### Both services -/

/-- The two services and the scheduler at their broker. -/
structure Tandem where
  aggregation : AggregationService
  calendar : CalendarService
  /-- Blocks on their way to the scheduler. -/
  blocks : List Block := []
  scheduler : Scheduler

namespace Tandem

/-- Both services at a new broker, before they ever connected. -/
def ofConfig (c : Config) : Tandem where
  aggregation := .ofConfig c
  calendar := .ofConfig c
  scheduler := { config := c.anchoring, queue := c.queues.anchorOut }

/-- What happened to the broker. -/
def tracked (s : Tandem) : Tracked := s.aggregation.tracked

/-- The broker of both services. -/
def broker (s : Tandem) : Broker := s.tracked.broker

/-- The line of a service. -/
def line (s : Tandem) : Tier → Line
  | .aggregation => s.aggregation.toLine
  | .calendar => s.calendar.toLine

/-- The jobs of a service as tasks. -/
def tasks (s : Tandem) : Tier → List Task
  | .aggregation => s.aggregation.tasks
  | .calendar => s.calendar.tasks

/-- What may happen.  Calls that neither a service nor the scheduler makes are events of any of the
services. -/
inductive Event where
  | aggregation (e : ServiceEvent (Feed × Uuid))
  | calendar (e : ServiceEvent CalendarTick)
  /-- The scheduler gets the next block. -/
  | record
  /-- The scheduler works at a tick. -/
  | anchor (id : Uuid)

/-- A job of a service makes its next call. -/
def Event.advance : Tier → Nat → Event
  | .aggregation, number => .aggregation (.advance number)
  | .calendar, number => .calendar (.advance number)

/-- What comes of an event. -/
def act (s : Tandem) : Event → Tandem
  | .aggregation e =>
    let aggregation := s.aggregation.act e
    { s with aggregation, calendar := s.calendar.withTracked aggregation.tracked }
  | .calendar e =>
    let calendar := s.calendar.act e
    { s with
      aggregation := s.aggregation.withTracked calendar.tracked
      calendar
      blocks := s.blocks ++ (s.calendar.emitted? e).toList }
  | .record =>
    match s.blocks with
    | [] => s
    | block :: blocks => { s with blocks, scheduler := s.scheduler.record block }
  | .anchor id =>
    let tracked := s.tracked.performAll (s.scheduler.calls s.calendar.link.channel id)
    { s with
      aggregation := s.aggregation.withTracked tracked
      calendar := s.calendar.withTracked tracked
      scheduler := (s.scheduler.tick s.broker s.calendar.link.channel id).2.1 }

/-- Both services after a number of events. -/
def run (c : Config) (events : List Event) : Tandem := events.foldl act (ofConfig c)

@[simp] theorem run_concat (c : Config) (events : List Event) (e : Event) :
    run c (events ++ [e]) = (run c events).act e := by
  rw [run, List.foldl_append]
  rfl

/-- A tick of the scheduler does to the broker what the scheduler does. -/
theorem act_anchor_broker (s : Tandem) (id : Uuid) :
    (s.act (.anchor id)).broker =
      (s.scheduler.tick s.broker s.calendar.link.channel id).1 := by
  rw [Scheduler.tick_broker]
  exact Tracked.performAll_broker _ _

/-! ### Each service by itself -/

/-- The services are at the same broker. -/
def IsShared (s : Tandem) : Prop := s.calendar.tracked = s.aggregation.tracked

theorem IsShared.line_tracked {s : Tandem} (h : s.IsShared) (tier : Tier) :
    (s.line tier).tracked = s.tracked := by
  cases tier with
  | aggregation => rfl
  | calendar => exact h

theorem IsShared.line_broker {s : Tandem} (h : s.IsShared) (tier : Tier) :
    (s.line tier).broker = s.broker := congrArg Tracked.broker (h.line_tracked tier)

theorem isShared_ofConfig (c : Config) : (ofConfig c).IsShared := rfl

/-- The calls of others are events of both services. -/
theorem exists_others {s : Tandem} (h : s.IsShared) (calls : List Broker.Call) :
    (∃ es : List (ServiceEvent _), s.aggregation.withTracked (s.tracked.performAll calls) =
        es.foldl AggregationService.act s.aggregation) ∧
      ∃ es : List (ServiceEvent _), s.calendar.withTracked (s.tracked.performAll calls) =
        es.foldl CalendarService.act s.calendar := by
  have hcalendar : s.tracked = s.calendar.tracked := h.symm
  refine ⟨⟨_, s.aggregation.withTracked_performAll calls⟩, ?_⟩
  rw [hcalendar]
  exact ⟨_, s.calendar.withTracked_performAll calls⟩

/-- What an event does to the broker is a number of calls. -/
theorem exists_act_tracked {s : Tandem} (h : s.IsShared) (e : Event) :
    ∃ calls, (s.act e).tracked = s.tracked.performAll calls := by
  cases e with
  | aggregation e => exact (s.aggregation.evolves_act e).exists_tracked
  | calendar e =>
      obtain ⟨calls, hcalls⟩ := (s.calendar.evolves_act e).exists_tracked
      exact ⟨calls, hcalls.trans (congrArg (Tracked.performAll · calls) h)⟩
  | record =>
      refine ⟨[], ?_⟩
      rw [act]
      cases s.blocks with
      | nil => rfl
      | cons block blocks => rfl
  | anchor id => exact ⟨_, rfl⟩

/-- Whatever happens, the services stay at the same broker, and for each of them it is a number of
events of its own. -/
theorem exists_act {s : Tandem} (h : s.IsShared) (e : Event) :
    (s.act e).IsShared ∧
      (∃ es : List (ServiceEvent _),
        (s.act e).aggregation = es.foldl AggregationService.act s.aggregation) ∧
      ∃ es : List (ServiceEvent _),
        (s.act e).calendar = es.foldl CalendarService.act s.calendar := by
  cases e with
  | aggregation e =>
      -- For the other service this event is the calls that it makes.
      obtain ⟨calls, hcalls⟩ := exists_act_tracked h (.aggregation e)
      replace hcalls : (s.aggregation.act e).tracked = s.tracked.performAll calls := hcalls
      refine ⟨rfl, ⟨[e], rfl⟩, ?_⟩
      rw [act, hcalls]
      exact (exists_others h calls).2
  | calendar e =>
      obtain ⟨calls, hcalls⟩ := exists_act_tracked h (.calendar e)
      replace hcalls : (s.calendar.act e).tracked = s.tracked.performAll calls := hcalls
      refine ⟨rfl, ?_, ⟨[e], rfl⟩⟩
      rw [act, hcalls]
      exact (exists_others h calls).1
  | record =>
      rw [act]
      cases s.blocks with
      | nil => exact ⟨h, ⟨[], rfl⟩, ⟨[], rfl⟩⟩
      | cons block blocks => exact ⟨h, ⟨[], rfl⟩, ⟨[], rfl⟩⟩
  | anchor id => exact ⟨rfl, exists_others h _⟩

/-- **Each service runs by itself.**  In every run of both services they are at the same broker, and
each of them is where a run of its own has brought it. -/
theorem exists_runs (c : Config) (events : List Event) :
    (run c events).IsShared ∧
      (∃ es, (run c events).aggregation = AggregationService.run c es) ∧
      ∃ es, (run c events).calendar = CalendarService.run c es := by
  induction events using List.reverseRecOn with
  | nil => exact ⟨rfl, ⟨[], rfl⟩, ⟨[], rfl⟩⟩
  | append_singleton events e ih =>
      obtain ⟨hshared, ⟨as, has⟩, ⟨bs, hbs⟩⟩ := ih
      obtain ⟨hshared', ⟨as', has'⟩, ⟨bs', hbs'⟩⟩ := exists_act hshared e
      rw [run_concat]
      refine ⟨hshared', ⟨as ++ as', ?_⟩, ⟨bs ++ bs', ?_⟩⟩
      · rw [has', has, AggregationService.run, AggregationService.run, List.foldl_append]
      · rw [hbs', hbs, CalendarService.run, CalendarService.run, List.foldl_append]

end Tandem

end HashCalendar
