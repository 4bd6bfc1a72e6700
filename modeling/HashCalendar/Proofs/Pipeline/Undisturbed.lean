/-
**What the services do undisturbed.**

Of the many runs of both services some are picked out here: those in which one service acts at a
time, while nobody else calls.  It connects, receives the first message of its queue and takes it
in; it carries out a job; and when its connection is closed, it takes in what is left in its stream
and gets away.

Main definitions:

* `HashCalendar.Tandem.Event.at` — an event that both services know, as one of a tier;
* `HashCalendar.Tandem.setEnd` — the services with another end of the line for one of them;
* `HashCalendar.Tandem.withAggregation`, `HashCalendar.Tandem.withCalendar` — the services with
  another state of one of them.

Main results:

* `HashCalendar.Tandem.reaches_consuming` — **a service that is away can get its queue**;
* `HashCalendar.Tandem.exists_fetched` — **the first message that is ready can get into its hand**;
* `HashCalendar.Tandem.exists_away` — **a service whose connection is closed can get away**;
* `HashCalendar.Tandem.exists_committed`, `HashCalendar.Tandem.exists_finalized` — **a job can be
  carried out with nothing happening in between**.
-/

import HashCalendar.Proofs.Broker.Fetching
import HashCalendar.Proofs.Pipeline.Separation

set_option relaxedAutoImplicit false
set_option autoImplicit false

namespace HashCalendar

namespace Tandem

/-- An event that both services know, as one of a tier. -/
def Event.at (tier : Tier) (e : (τ : Type) → ServiceEvent τ) : Event :=
  match tier with
  | .aggregation => .aggregation (e _)
  | .calendar => .calendar (e _)

/-- The services when a tier has got so far with connecting, at another end of its line. -/
def setEnd (s : Tandem) (tier : Tier) (x : Contact × Line) : Tandem :=
  match tier with
  | .aggregation =>
    { s with
      aggregation :=
        { toStation := { s.aggregation.toStation with toLine := x.2 }
          contact := x.1 }
      calendar := s.calendar.withTracked x.2.tracked }
  | .calendar =>
    { s with
      aggregation := s.aggregation.withTracked x.2.tracked
      calendar :=
        { toCalendarStation := { s.calendar.toCalendarStation with toLine := x.2 }
          contact := x.1 } }

/-- The services with another state of the aggregation tier. -/
def withAggregation (s : Tandem) (aggregation : AggregationService) : Tandem :=
  { s with aggregation, calendar := s.calendar.withTracked aggregation.tracked }

/-- The services with another state of the calendar tier, and blocks on their way to the
scheduler. -/
def withCalendar (s : Tandem) (calendar : CalendarService) (blocks : List Block) : Tandem :=
  { s with aggregation := s.aggregation.withTracked calendar.tracked, calendar, blocks }

variable (s : Tandem) (tier : Tier)

section SetEnd

variable (x y : Contact × Line)

@[simp] theorem setEnd_setEnd : (s.setEnd tier x).setEnd tier y = s.setEnd tier y := by
  cases tier <;> rfl

@[simp] theorem line_setEnd : (s.setEnd tier x).line tier = x.2 := by cases tier <;> rfl

@[simp] theorem contact_setEnd : (s.setEnd tier x).contact tier = x.1 := by cases tier <;> rfl

@[simp] theorem inHand_setEnd (tier' : Tier) :
    (s.setEnd tier x).inHand tier' = s.inHand tier' := by
  cases tier <;> cases tier' <;> rfl

theorem isShared_setEnd : (s.setEnd tier x).IsShared := by cases tier <;> rfl

@[simp] theorem tracked_setEnd : (s.setEnd tier x).tracked = x.2.tracked := by cases tier <;> rfl

end SetEnd

/-- Taking the next step of connecting, receiving and taking in emit no block. -/
theorem act_calendar {e : ServiceEvent CalendarTick} (h : s.calendar.emitted? e = none) :
    s.act (.calendar e) =
      { s with
        aggregation := s.aggregation.withTracked (s.calendar.act e).tracked
        calendar := s.calendar.act e } := by
  rw [act, h]
  simp

theorem setEnd_self (h : s.IsShared) : s.setEnd tier (s.contact tier, s.line tier) = s := by
  obtain ⟨aggregation, calendar, blocks, scheduler⟩ := s
  have h : calendar.tracked = aggregation.tracked := h
  cases tier with
  | aggregation =>
      have hself : calendar.withTracked aggregation.tracked = calendar := by
        rw [← h]
        rfl
      exact congrArg (Tandem.mk aggregation · blocks scheduler) hself
  | calendar =>
      have hself : aggregation.withTracked calendar.tracked = aggregation := by
        rw [h]
        rfl
      exact congrArg (Tandem.mk · calendar blocks scheduler) hself

theorem act_connect :
    s.act (.at tier fun _ => .connect) =
      s.setEnd tier ((s.line tier).connect (s.contact tier)) := by
  cases tier with
  | aggregation => rfl
  | calendar => exact s.act_calendar rfl

/-! ### Connecting -/

variable {s}

/-- A service can take any number of steps of connecting. -/
theorem reaches_step (h : s.IsShared) (n : Nat) :
    Reaches Permits act s (s.setEnd tier (Line.step^[n] (s.contact tier, s.line tier))) := by
  induction n with
  | zero =>
      rw [Function.iterate_zero_apply, setEnd_self s tier h]
      exact .start
  | succ n ih =>
      rw [Function.iterate_succ_apply']
      generalize Line.step^[n] (s.contact tier, s.line tier) = x at ih
      by_cases hx : x.1 = .receiving
      · -- It has connected already.
        have hsame : Line.step x = x := by
          obtain ⟨k, l⟩ := x
          cases hx
          rfl
        rwa [hsame]
      · have hnext := ih.next (e := .at tier fun _ => .connect) (by
          cases tier with
          | aggregation => exact hx
          | calendar => exact hx)
        rwa [act_connect, line_setEnd, contact_setEnd, setEnd_setEnd] at hnext

/-- A service that is away and has no receiver can make an attempt to connect. -/
theorem reaches_attempt (h : s.IsShared) (haway : s.contact tier = .away)
    (hr : (s.line tier).receiver = none) :
    Reaches Permits act s
      (s.setEnd tier
        (if ((s.line tier).attempt .nothing).receiver = none then .away else .receiving,
          (s.line tier).attempt .nothing)) := by
  obtain ⟨n, hn⟩ := Line.exists_iterate_connect hr
  have hsteps := reaches_step tier h n
  rwa [haway, hn] at hsteps

/-- A service that is away can get its queue, if the broker is reachable. -/
theorem reaches_consuming (h : s.IsShared) (haway : s.contact tier = .away)
    (hreachable : s.broker.reachable = true) :
    Reaches Permits act s (s.setEnd tier (.receiving, (s.line tier).consuming)) := by
  have hline : (s.line tier).broker.reachable = true := by rwa [h.line_broker]
  have hsteps := reaches_step tier h ((s.line tier).declares.length + 3)
  rwa [haway, Line.iterate_step_receiving hline] at hsteps

/-! ### Receiving and taking in -/

/-- The calls by which a tier takes in a delivery. -/
def ingestCalls : Tier → Handle → Content → List Broker.Call
  | .aggregation => Station.ingestCalls
  | .calendar => CalendarStation.ingestCalls

variable (s)

theorem act_receive :
    (s.act (.at tier fun _ => .receive)).line tier = (s.line tier).receive.1 ∧
      (s.act (.at tier fun _ => .receive)).inHand tier =
        s.inHand tier ++ (s.line tier).receive.2.toList ∧
      (s.act (.at tier fun _ => .receive)).contact tier = s.contact tier := by
  cases tier with
  | aggregation => exact ⟨rfl, rfl, rfl⟩
  | calendar => exact ⟨rfl, rfl, rfl⟩

variable {s} in
theorem act_ingest {handle : Handle} {content : Content}
    (h : s.inHand tier = [(handle, content)]) :
    (s.act (.at tier fun _ => .ingest)).line tier =
        (s.line tier).performAll (ingestCalls tier handle content) ∧
      (s.act (.at tier fun _ => .ingest)).inHand tier = [] ∧
      (s.act (.at tier fun _ => .ingest)).contact tier = s.contact tier := by
  cases tier with
  | aggregation =>
      have hact : s.aggregation.toStation.act (.ingest 0) =
          { s.aggregation.toStation.ingest handle content with inHand := [] } := by
        rw [Station.act, show s.aggregation.inHand = _ from h]
        rfl
      exact ⟨congrArg Station.toLine hact, congrArg Station.inHand hact, rfl⟩
  | calendar =>
      have hact : s.calendar.toCalendarStation.act (.ingest 0) =
          { s.calendar.toCalendarStation.ingest handle content with inHand := [] } := by
        rw [CalendarStation.act, show s.calendar.inHand = _ from h]
        rfl
      exact ⟨congrArg CalendarStation.toLine hact, congrArg CalendarStation.inHand hact, rfl⟩

variable {s} in
theorem tracked_ingest (h : s.IsShared) {handle : Handle} {content : Content}
    (hhand : s.inHand tier = [(handle, content)]) :
    (s.act (.at tier fun _ => .ingest)).tracked =
      s.tracked.performAll (ingestCalls tier handle content) := by
  rw [← (exists_act h _).1.line_tracked tier, (act_ingest tier hhand).1, Line.performAll,
    h.line_tracked]

theorem act_lose :
    (s.act (.at tier fun _ => .lose)).line tier = (s.line tier).hangUp ∧
      (s.act (.at tier fun _ => .lose)).inHand tier = s.inHand tier ∧
      (s.act (.at tier fun _ => .lose)).contact tier = .away := by
  cases tier with
  | aggregation => exact ⟨rfl, rfl, rfl⟩
  | calendar => exact ⟨rfl, rfl, rfl⟩

/-- A delivery is taken in without a call, or it is settled. -/
theorem ingestCalls_cases (handle : Handle) (content : Content) :
    ingestCalls tier handle content = [] ∨
      ∃ fate, ∀ t : Tracked,
        t.performAll (ingestCalls tier handle content) = t.settleHandle handle fate := by
  cases tier with
  | aggregation =>
      rw [ingestCalls, Station.ingestCalls]
      cases Submission.read content.payload with
      | ok submission => exact Or.inl rfl
      | error e => exact Or.inr ⟨.discarded, fun _ => rfl⟩
  | calendar =>
      rw [ingestCalls, CalendarStation.ingestCalls]
      cases Inbound.read content with
      | ok inbound =>
          cases inbound with
          | aggregateRoot m => exact Or.inl rfl
          | anchorTx body => exact Or.inr ⟨.acked, fun _ => rfl⟩
      | error e => exact Or.inr ⟨.discarded, fun _ => rfl⟩

theorem permits_receive (hcontact : s.contact tier = .receiving) (hhand : s.inHand tier = []) :
    s.Permits (.at tier fun _ => .receive) := by
  cases tier with
  | aggregation => exact ⟨hcontact, hhand⟩
  | calendar => exact ⟨hcontact, hhand⟩

theorem permits_ingest : s.Permits (.at tier fun _ => .ingest) := by
  cases tier with
  | aggregation => exact trivial
  | calendar => exact trivial

theorem permits_lose (hcontact : s.contact tier = .receiving) (hhand : s.inHand tier = [])
    (hended : (s.line tier).hasEnded = true) : s.Permits (.at tier fun _ => .lose) := by
  cases tier with
  | aggregation => exact ⟨hcontact, hhand, hended⟩
  | calendar => exact ⟨hcontact, hhand, hended⟩

/-- The services when one of them has connected and received. -/
def fetched : Tandem :=
  (s.setEnd tier (.receiving, (s.line tier).consuming)).act (.at tier fun _ => .receive)

variable {s}

theorem reaches_fetched (h : s.IsShared) (haway : s.contact tier = .away)
    (hhand : s.inHand tier = []) (hreachable : s.broker.reachable = true) :
    Reaches Permits act s (s.fetched tier) :=
  (reaches_consuming tier h haway hreachable).next <|
    permits_receive _ tier (contact_setEnd ..) ((inHand_setEnd ..).trans hhand)

/-- A service that has connected and received has the first message that was ready in its hand, and
can settle it. -/
theorem exists_fetched {m : Message} {rest : List Message} (h : s.IsShared)
    (hhand : s.inHand tier = []) (hreachable : s.broker.reachable = true)
    (hunacked : s.broker.unacked = [])
    (hready : s.broker.ready (s.line tier).link.settings.consumes = m :: rest) :
    (s.fetched tier).IsShared ∧ s.tracked.Steady (s.fetched tier).tracked ∧
      (s.fetched tier).contact tier = .receiving ∧
      ∃ handle u, (s.fetched tier).inHand tier = [(handle, m.content)] ∧
        handle.generation = (s.line tier).prepared.generation ∧
        (s.fetched tier).broker.isOpen handle.generation = true ∧
        (s.fetched tier).broker.unacked? handle.generation handle.tag = some u ∧
        u.message = m := by
  let s₁ := s.setEnd tier (.receiving, (s.line tier).consuming)
  have hshared₁ : s₁.IsShared := isShared_setEnd ..
  have hshared : (s.fetched tier).IsShared := (exists_act hshared₁ _).1
  obtain ⟨hline, hhand', hcontact⟩ := s₁.act_receive tier
  have htracked := h.line_tracked tier
  rw [← h.line_broker tier] at hreachable hunacked hready
  obtain ⟨tag, hreceive, hclaim⟩ := Line.receive_consuming hunacked hready
  rw [line_setEnd, hreceive] at hline hhand'
  have hsteady := Tracked.steady_receive (s.line tier).consuming.tracked
    (s.line tier).broker.streams.length
  have hfetched : (s.fetched tier).tracked =
      (s.line tier).consuming.tracked.perform (.receive (s.line tier).broker.streams.length) := by
    rw [← hshared.line_tracked tier]
    exact congrArg Line.tracked hline
  rw [← hfetched] at hsteady
  have hall := (s.line tier).steady_consuming.trans hsteady
  refine ⟨hshared, htracked ▸ hall, hcontact.trans (contact_setEnd ..),
    ⟨(s.line tier).broker.generation, tag⟩, _, ?_, rfl, ?_,
    Broker.unacked?_of_prefix hsteady.unacked hclaim, rfl⟩
  · rw [show (s.fetched tier).inHand tier = _ from hhand', inHand_setEnd, hhand]
    rfl
  · refine (hall.isOpen _).trans ?_
    rw [Broker.isOpen, show (s.line tier).tracked.broker.reachable = true from hreachable]
    exact decide_eq_true rfl

/-! ### Getting away -/

section Away

variable {r : Receiver}

/-- A service whose stream has ended can get away. -/
theorem exists_away_of_waiting_nil (h : s.IsShared) (hcontact : s.contact tier = .receiving)
    (hhand : s.inHand tier = []) (hr : (s.line tier).receiver = some r)
    (hfed : s.broker.isFed r.stream = false) (hwaiting : s.broker.waiting r.stream = []) :
    ∃ s' streams, Reaches Permits act s s' ∧ s'.contact tier = .away ∧ s'.inHand tier = [] ∧
      s'.tracked = s.tracked.setBroker { s.broker with streams } := by
  have hended : (s.line tier).hasEnded = true := by
    rw [Line.hasEnded, hr, Line.broker, h.line_tracked]
    rcases s.broker.receive_waiting r.stream with ⟨d, rest, -, hw, -⟩ | ⟨-, -, hnone⟩
    · cases hwaiting.symm.trans hw
    · simp [show s.tracked.broker = s.broker from rfl, hnone, hfed]
  obtain ⟨hline, hhand', haway⟩ := s.act_lose tier
  have htracked : (s.act (.at tier fun _ => .lose)).tracked =
      s.tracked.setBroker (s.broker.dropStream r.stream) := by
    rw [← (exists_act h _).1.line_tracked tier, hline, Line.hangUp, hr, h.line_tracked]
    rfl
  exact ⟨_, _, Reaches.start.next (permits_lose s tier hcontact hhand hended), haway,
    hhand'.trans hhand, htracked⟩

/-- The next delivery that waits in the stream is received, which changes nothing but the stream. -/
theorem act_receive_of_waiting {d : Delivery} {rest : List Delivery} (h : s.IsShared)
    (hhand : s.inHand tier = []) (hr : (s.line tier).receiver = some r)
    (hwaiting : s.broker.waiting r.stream = d :: rest) :
    (s.act (.at tier fun _ => .receive)).inHand tier = [(r.handle d, d.message.content)] ∧
      ((s.act (.at tier fun _ => .receive)).line tier).receiver = some r ∧
      (s.act (.at tier fun _ => .receive)).tracked =
        s.tracked.setBroker (s.broker.receive r.stream).1 ∧
      (s.broker.receive r.stream).1.waiting r.stream = rest := by
  obtain ⟨hd, hrest⟩ : (s.broker.receive r.stream).2 = .delivery d ∧
      (s.broker.receive r.stream).1.waiting r.stream = rest := by
    rcases s.broker.receive_waiting r.stream with ⟨e, more, he, hw, hmore⟩ | ⟨-, hw, -⟩
    · cases hwaiting.symm.trans hw
      exact ⟨he, (hmore _).trans (if_pos rfl)⟩
    · cases hwaiting.symm.trans hw
  have hreceive := Line.receive_of_delivery hr ((h.line_broker tier).symm ▸ hd)
  obtain ⟨hline, hhand', -⟩ := s.act_receive tier
  rw [hreceive] at hline hhand'
  rw [hhand] at hhand'
  refine ⟨hhand', ?_, ?_, hrest⟩
  · rw [hline]
    exact hr
  · rw [← (exists_act h _).1.line_tracked tier, hline, Line.perform, h.line_tracked]
    rfl

/-- What came through a closed connection is taken in without a change to the broker. -/
theorem tracked_ingest_of_closed {handle : Handle} {content : Content} (h : s.IsShared)
    (hhand : s.inHand tier = [(handle, content)])
    (hclosed : s.broker.isOpen handle.generation = false) :
    (s.act (.at tier fun _ => .ingest)).tracked = s.tracked := by
  rw [tracked_ingest tier h hhand]
  rcases ingestCalls_cases tier handle content with hnil | ⟨fate, hsettle⟩
  · rw [hnil]
    rfl
  · exact (hsettle _).trans (Tracked.settleHandle_of_closed hclosed fate)

/-- Through a closed connection the next delivery of a stream is taken in, which changes nothing but
the stream. -/
theorem exists_takenIn {d : Delivery} {rest : List Delivery} (h : s.IsShared)
    (hcontact : s.contact tier = .receiving) (hhand : s.inHand tier = [])
    (hr : (s.line tier).receiver = some r) (hclosed : s.broker.isOpen r.generation = false)
    (hwaiting : s.broker.waiting r.stream = d :: rest) :
    ∃ s' streams, Reaches Permits act s s' ∧ s'.IsShared ∧ s'.contact tier = .receiving ∧
      s'.inHand tier = [] ∧ (s'.line tier).receiver = some r ∧
      s'.tracked = s.tracked.setBroker { s.broker with streams } ∧
      s'.broker.waiting r.stream = rest := by
  obtain ⟨hhand₁, hr₁, htracked₁, hrest⟩ := act_receive_of_waiting tier h hhand hr hwaiting
  have hcontact₁ := (s.act_receive tier).2.2
  have hshared₁ := (exists_act h (.at tier fun _ => .receive)).1
  have hreaches₁ : Reaches Permits act s (s.act (.at tier fun _ => .receive)) :=
    Reaches.start.next (permits_receive s tier hcontact hhand)
  generalize s.act (.at tier fun _ => .receive) = s₁ at *
  have hbroker := s.broker.receive_eq r.stream
  have hclosed₁ : s₁.broker.isOpen r.generation = false := by
    rw [broker, htracked₁, hbroker]
    exact hclosed
  obtain ⟨hline₂, hhand₂, hcontact₂⟩ := act_ingest tier hhand₁
  have htracked₂ := (tracked_ingest_of_closed tier hshared₁ hhand₁ hclosed₁).trans htracked₁
  refine ⟨s₁.act (.at tier fun _ => .ingest), (s.broker.receive r.stream).1.streams,
    hreaches₁.next (permits_ingest s₁ tier), (exists_act hshared₁ _).1,
    hcontact₂.trans (hcontact₁.trans hcontact), hhand₂, ?_, ?_, ?_⟩
  · rw [hline₂]
    exact hr₁
  · rw [htracked₂, hbroker]
  · rw [broker, htracked₂]
    exact hrest

/-- A service whose connection is closed can take in what is left in its stream and get away. -/
theorem exists_away (h : s.IsShared) (hcontact : s.contact tier = .receiving)
    (hhand : s.inHand tier = []) (hr : (s.line tier).receiver = some r)
    (hclosed : s.broker.isOpen r.generation = false) (hfed : s.broker.isFed r.stream = false) :
    ∃ s' streams, Reaches Permits act s s' ∧ s'.contact tier = .away ∧ s'.inHand tier = [] ∧
      s'.tracked = s.tracked.setBroker { s.broker with streams } := by
  generalize hwaiting : s.broker.waiting r.stream = waiting
  induction waiting generalizing s with
  | nil => exact exists_away_of_waiting_nil tier h hcontact hhand hr hfed hwaiting
  | cons d rest ih =>
      obtain ⟨s₁, streams₁, hreaches₁, hshared₁, hcontact₁, hhand₁, hr₁, htracked₁, hrest⟩ :=
        exists_takenIn tier h hcontact hhand hr hclosed hwaiting
      have hbroker₁ : s₁.broker = { s.broker with streams := streams₁ } :=
        congrArg Tracked.broker htracked₁
      obtain ⟨s', streams, hreaches, haway, hhand', htracked'⟩ := ih hshared₁ hcontact₁ hhand₁ hr₁
        (by rw [hbroker₁]; exact hclosed) (by rw [hbroker₁]; exact hfed) hrest
      refine ⟨s', streams, hreaches₁.trans hreaches, haway, hhand', htracked'.trans ?_⟩
      rw [hbroker₁, htracked₁]
      rfl

end Away

/-! ### Carrying out a job -/

section Jobs

variable {number : Nat}

/-- A job can make any number of calls. -/
theorem reaches_advance (s : Tandem) (number n : Nat) :
    Reaches Permits act s ((fun s => s.act (.advance tier number))^[n] s) := by
  refine Reaches.iterate (fun s => ?_) s n
  cases tier with
  | aggregation => exact trivial
  | calendar => exact trivial

/-- The services when a job of the aggregation tier has brought its tier to a given state. -/
def withCommitting (s : Tandem) (station : Station) : Tandem :=
  s.withAggregation { s.aggregation with toStation := station }

/-- The services when a job of the calendar tier has brought its tier to a given state: the block
that it has emitted is on its way behind those from before. -/
def withFinalizing (s : Tandem) (number : Nat) (station : CalendarStation) : Tandem :=
  s.withCalendar { s.calendar with toCalendarStation := station }
    (s.blocks ++ station.blocksOf number)

theorem act_withFinalizing (s : Tandem) (number : Nat) (station : CalendarStation) :
    s.withFinalizing number (station.act (.advance number)) =
      (s.withFinalizing number station).act (.advance .calendar number) := by
  have hblocks := CalendarService.blocksOf_act_advance
    { s.calendar with toCalendarStation := station } number
  rw [← List.append_right_inj s.blocks, ← List.append_assoc] at hblocks
  exact congrArg (s.withCalendar _) hblocks

/-- The aggregation tier can carry out a job, and nothing but the job and the broker changes. -/
theorem exists_committed {w : Worker} (h : s.IsShared)
    (hw : s.aggregation.workers[number]? = some w) (hstart : w.progress = w.job.start) :
    ∃ t w', Reaches Permits act s
        (s.withCommitting (s.aggregation.working number t w')) ∧
      t.broker = (w.job.commit s.broker).1 := by
  obtain ⟨n, t, w', hworking, hbroker, -⟩ := Station.exists_iterate_advance hw hstart
  refine ⟨t, w', ?_, hbroker⟩
  -- What the tier does by itself it does beside the other one.
  have hlift : Function.Semiconj s.withCommitting (fun x => x.act (.advance number))
      (·.act (.advance .aggregation number)) := fun x => rfl
  have hself : s.withCommitting s.aggregation.toStation = s := setEnd_self s .aggregation h
  have hiterate := hlift.iterate_right n s.aggregation.toStation
  rw [hworking, hself] at hiterate
  rw [hiterate]
  exact reaches_advance .aggregation s number n

/-- The calendar tier can carry out a job, and nothing changes but the job, the broker and the
blocks on their way to the scheduler. -/
theorem exists_finalized {w : Finalizer} (h : s.IsShared)
    (hw : s.calendar.finalizers[number]? = some w)
    (hstart : w.progress = .publishing w.job.messages) :
    ∃ t w', Reaches Permits act s
        (s.withCalendar
          { s.calendar with toCalendarStation := s.calendar.working number t w' }
          (s.blocks ++ (w.job.run s.broker).2.2.toList)) ∧
      t.broker = (w.job.run s.broker).1 := by
  rw [← h.line_broker .calendar]
  obtain ⟨n, t, w', hworking, hbroker, -, hblock⟩ :=
    CalendarStation.exists_iterate_advance hw hstart
  refine ⟨t, w', ?_, hbroker⟩
  have hlift : Function.Semiconj (s.withFinalizing number) (fun x => x.act (.advance number))
      (·.act (.advance .calendar number)) := s.act_withFinalizing number
  have hself : s.withFinalizing number s.calendar.toCalendarStation = s := by
    have hnone : s.calendar.blocksOf number = [] := by
      simp [CalendarStation.blocksOf, hw, Finalizer.block?, hstart]
    rw [withFinalizing, hnone, List.append_nil]
    exact setEnd_self s .calendar h
  have hblocks : (s.calendar.working number t w').blocksOf number =
      (w.job.run s.calendar.broker).2.2.toList := by
    have hlt := (List.getElem?_eq_some_iff.1 hw).1
    simp [CalendarStation.blocksOf, CalendarStation.working, hlt, hblock]
  have hiterate := hlift.iterate_right n s.calendar.toCalendarStation
  rw [hworking, hself, withFinalizing, hblocks] at hiterate
  exact hiterate ▸ reaches_advance .calendar s number n

end Jobs

end Tandem

end HashCalendar
