/-
**What the running pipeline shows.**

The running pipeline is put together in another way than the services in their loops.  It makes its
attempts to connect at once and takes in all that has arrived; it keeps no record of what happened
to its broker, and its jobs are gone when they were carried out.  The services keep all of this.  So
the pipeline is related to them by what it shows of them, and what it does is accounted for if it
leads from every state that it showed before, by a run of the services, to one that it shows
afterwards.

Main definitions:

* `HashCalendar.Worker.Waits`, `HashCalendar.Finalizer.Waits` — a job that has its number still;
* `HashCalendar.Service.Shows` — what the running pipeline shows of both services;
* `HashCalendar.Service.Leads` — what is done between two moments is a run of both services.

Main results:

* `HashCalendar.Service.leads_reconnect`, `HashCalendar.Service.leads_lose` — **an attempt to
  connect and the loss of a connection are runs**;
* `HashCalendar.Service.leads_drain` — **to take in all that has arrived is a run**.
-/

import HashCalendar.Pipeline.Service
import HashCalendar.Proofs.Pipeline.Undisturbed

set_option relaxedAutoImplicit false
set_option autoImplicit false

namespace HashCalendar

/-! ### Single steps -/

namespace Workbench

@[simp] theorem receiver_setLink (w : Workbench) (tier : Tier) (link : Link) :
    (w.setLink tier link).receiver tier = w.receiver tier := by
  cases tier <;> rfl

@[simp] theorem broker_setLink (w : Workbench) (tier : Tier) (link : Link) :
    (w.setLink tier link).broker = w.broker := by
  cases tier <;> rfl

theorem broker_setReceiver (w : Workbench) (tier : Tier) (receiver : Option Receiver) :
    (w.setReceiver tier receiver).broker =
      (w.receiver tier).elim w.broker fun old => w.broker.dropStream old.stream := by
  cases tier with
  | aggregation =>
      rw [setReceiver]
      cases w.receiver .aggregation with
      | none => rfl
      | some old => rfl
  | calendar =>
      rw [setReceiver]
      cases w.receiver .calendar with
      | none => rfl
      | some old => rfl

theorem setReceiver_none {w : Workbench} {tier : Tier} (h : w.receiver tier = none) :
    w.setReceiver tier none = w := by
  cases w
  cases tier with
  | aggregation =>
      cases h
      rfl
  | calendar =>
      cases h
      rfl

/-- To connect a tier without waiting is an attempt on its line. -/
theorem connect_nil {w : Workbench} {tier : Tier} {l : Line} (hbroker : l.broker = w.broker)
    (hlink : l.link = w.link tier) (hnone : l.receiver = none)
    (hreceiver : w.receiver tier = none) :
    w.connect tier [] 0 =
      (({ w with broker := (l.attempt .nothing).broker }.setLink tier
          (l.attempt .nothing).link).setReceiver tier (l.attempt .nothing).receiver,
        ⟨(l.attempt .nothing).receiver, 1, 0⟩) := by
  rw [connect, Link.connect_nil, ← hbroker, ← hlink]
  cases hattempt : l.link.attempt l.broker .nothing with
  | mk b rest =>
      obtain ⟨link, result⟩ := rest
      cases result with
      | error e =>
          obtain ⟨hb, hl, hr⟩ := Line.attempt_of_error hattempt
          rw [hb, hl, hr, hnone, setReceiver_none]
          exact (receiver_setLink ..).trans hreceiver
      | ok r =>
          obtain ⟨hb, hl, hr⟩ := Line.attempt_of_ok hattempt
          rw [hnone] at hb
          rw [hb, hl, hr]
          rfl

/-- All that the next delivery to a tier can be. -/
theorem arrive_cases (w : Workbench) (tier : Tier) :
    (∃ r d, w.receiver tier = some r ∧ (w.broker.receive r.stream).2 = .delivery d ∧
        w.arrive tier =
          ({ w with broker := (w.broker.receive r.stream).1 }, .delivery (r.handle d) d)) ∨
      (∃ r, w.receiver tier = some r ∧ (w.broker.receive r.stream).2 = .closed ∧
        w.arrive tier = (w, .closed)) ∨
      w.arrive tier = (w, .empty) ∨ w.arrive tier = (w, .noConsumer) := by
  rw [arrive]
  cases hr : w.receiver tier with
  | none => exact Or.inr (Or.inr (Or.inr rfl))
  | some r =>
      dsimp only
      rcases w.broker.receive_cases r.stream with ⟨d, b, hd, -, -⟩ | ⟨hsame, hnone⟩
      · exact Or.inl ⟨r, d, rfl, by rw [hd], by rw [hd]⟩
      · cases hreceived : w.broker.receive r.stream with
        | mk b received =>
            rw [hreceived] at hsame hnone
            obtain rfl : b = w.broker := hsame
            cases received with
            | delivery d => exact absurd rfl (hnone d)
            | empty => exact Or.inr (Or.inr (Or.inl rfl))
            | closed => exact Or.inr (Or.inl ⟨r, rfl, by rw [hreceived], rfl⟩)

/-- When the last that arrived is the end of the stream, the stream has ended. -/
theorem closed_of_deliver {w : Workbench} {tier : Tier} {count : Nat}
    (h : (deliver tier count w).2.getLast? = some .closed) :
    ∃ r, (deliver tier count w).1.receiver tier = some r ∧
      ((deliver tier count w).1.broker.receive r.stream).2 = .closed := by
  induction count generalizing w with
  | zero => cases h
  | succ count ih =>
      rw [deliver] at h ⊢
      rcases w.arrive_cases tier with ⟨r, d, -, -, heq⟩ | ⟨r, hr, hclosed, heq⟩ | heq | heq
      · rw [heq] at h ⊢
        refine ih ?_
        dsimp only at h
        rw [List.getLast?_cons] at h
        cases hlast : (deliver tier count (ingest
            { w with broker := (w.broker.receive r.stream).1 } tier (r.handle d)
            d.message.content)).2.getLast? with
        | none =>
            rw [hlast] at h
            cases h
        | some last =>
            rw [hlast] at h
            exact h
      · rw [heq]
        exact ⟨r, hr, hclosed⟩
      · rw [heq] at h
        cases h
      · rw [heq] at h
        cases h

end Workbench

/-! ### Jobs by number -/

/-- A job that has its number still was prepared and not begun. -/
def Worker.Waits (job? : Option AggregationJob) (w : Worker) : Prop :=
  ∀ job, job? = some job → w.job = job ∧ w.progress = job.start

/-- A job that has its number still was handed out and not begun. -/
def Finalizer.Waits (job? : Option FinalizeJob) (w : Finalizer) : Prop :=
  ∀ job, job? = some job → w.job = job ∧ w.progress = .publishing job.messages

theorem Worker.waits_none (w : Worker) : Waits none w := by
  rintro _ ⟨⟩

theorem Finalizer.waits_none (w : Finalizer) : Waits none w := by
  rintro _ ⟨⟩

/-! ### What the running pipeline shows -/

/-- How far a tier has got with connecting: it makes its attempts at once. -/
def Phase.contact : Phase → Contact
  | .waiting _ => .away
  | .connected => .receiving

namespace Service

/-- What the running pipeline shows of the connection of a service, which has nothing in hand, and
no receiver while it waits. -/
structure ShowsEnd (v : Service) (s : Tandem) (tier : Tier) : Prop where
  link : (s.line tier).link = v.bench.link tier
  receiver : (s.line tier).receiver = v.bench.receiver tier
  contact : s.contact tier = (v.phase tier).contact
  inHand : s.inHand tier = []
  idle : s.contact tier = .away → (s.line tier).receiver = none

/-- What the running pipeline shows of both services. -/
structure Shows (v : Service) (s : Tandem) : Prop where
  shared : s.IsShared
  broker : s.broker = v.bench.broker
  ends : ∀ tier, v.ShowsEnd s tier
  aggregator : s.aggregation.aggregator = v.bench.aggregator
  chainer : s.calendar.chainer = v.bench.chainer
  scheduler : s.scheduler = v.bench.scheduler
  blocks : s.blocks = v.bench.blocks
  takesBlocks : v.bench.takesBlocks = true
  aggregatorJobs : List.Forall₂ Worker.Waits v.bench.aggregatorJobs s.aggregation.workers
  calendarJobs : List.Forall₂ Finalizer.Waits v.bench.calendarJobs s.calendar.finalizers

theorem shows_ofConfig (c : Config) (directory : Directory) :
    (ofConfig c directory).Shows (.ofConfig c) where
  shared := rfl
  broker := rfl
  ends
    | .aggregation => ⟨rfl, rfl, rfl, rfl, fun _ => rfl⟩
    | .calendar => ⟨rfl, rfl, rfl, rfl, fun _ => rfl⟩
  aggregator := rfl
  chainer := rfl
  scheduler := rfl
  blocks := rfl
  takesBlocks := rfl
  aggregatorJobs := .nil
  calendarJobs := .nil

/-- A running pipeline gets to another one by a run of both services: from every state that the
first shows they get to one that the second shows. -/
def Leads (v v' : Service) : Prop :=
  ∀ s, v.Shows s → ∃ s', Reaches Tandem.Permits Tandem.act s s' ∧ v'.Shows s'

variable {v v' v'' : Service} {tier : Tier}

theorem Leads.refl (v : Service) : Leads v v := fun s h => ⟨s, .start, h⟩

theorem Leads.trans (h : Leads v v') (h' : Leads v' v'') : Leads v v'' := by
  intro s hs
  obtain ⟨s', hreaches, hs'⟩ := h s hs
  obtain ⟨s'', hreaches', hs''⟩ := h' s' hs'
  exact ⟨s'', hreaches.trans hreaches', hs''⟩

/-- What is not shown is not noticed: the feed, the tickers and the clock. -/
theorem Leads.of_same (hbench : v'.bench = { v.bench with feed := v'.bench.feed })
    (haggregation : v'.aggregatorPhase = v.aggregatorPhase)
    (hcalendar : v'.calendarPhase = v.calendarPhase) : Leads v v' := by
  intro s h
  refine ⟨s, .start, ?_⟩
  obtain ⟨bench, now, directory, refresher, aggregation, calendar, a, b, c, d⟩ := v'
  obtain rfl : aggregation = v.aggregatorPhase := haggregation
  obtain rfl : calendar = v.calendarPhase := hcalendar
  replace hbench : bench = { v.bench with feed := bench.feed } := hbench
  rw [hbench]
  exact { h with ends := fun tier => { h.ends tier with } }

/-- An event of the services is a run. -/
theorem Leads.of_event {e : Tandem.Event}
    (h : ∀ s, v.Shows s → s.Permits e ∧ v'.Shows (s.act e)) : Leads v v' :=
  fun s hs => ⟨s.act e, Reaches.start.next (h s hs).1, (h s hs).2⟩

namespace Shows

variable {s : Tandem}

theorem line_broker (h : v.Shows s) (tier : Tier) : (s.line tier).broker = v.bench.broker :=
  (h.shared.line_broker tier).trans h.broker

theorem broker_receive (h : v.Shows s) (stream : Nat) :
    ((s.line tier).perform (.receive stream)).broker = (v.bench.broker.receive stream).1 := by
  rw [Line.perform_broker, h.line_broker tier]
  rfl

theorem contact_connected (h : v.Shows s) (hphase : v.phase tier = .connected) :
    s.contact tier = .receiving := by
  rw [(h.ends tier).contact, hphase]
  rfl

theorem contact_waiting (h : v.Shows s) {resume : Nat} (hphase : v.phase tier = .waiting resume) :
    s.contact tier = .away := by
  rw [(h.ends tier).contact, hphase]
  rfl

end Shows

/-! ### The beacon -/

theorem leads_refresh (v : Service) : Leads v v.refresh := by
  rw [refresh]
  cases v.refresher with
  | none => exact .refl v
  | some ticker =>
      dsimp only
      by_cases hdue : v.now < ticker.due
      · rw [if_pos hdue]
        exact .refl v
      · rw [if_neg hdue]
        exact .of_same rfl rfl rfl

/-! ### Connections -/

/-- What is shown when a tier has got to another end of its line. -/
theorem Shows.setEnd {s : Tandem} (h : v.Shows s) {b : Broker} {l : Line} (phase : Phase)
    (hidle : phase.contact = .away → l.receiver = none)
    (hbroker : l.broker =
      (({ v.bench with broker := b }.setLink tier l.link).setReceiver tier l.receiver).broker) :
    ({ v with
      bench := ({ v.bench with broker := b }.setLink tier l.link).setReceiver tier
        l.receiver }.setPhase tier phase).Shows (s.setEnd tier (phase.contact, l)) := by
  have hhand := (h.ends tier).inHand
  cases tier with
  | aggregation =>
      exact
        { h with
          shared := rfl
          broker := hbroker
          ends := fun
            | .aggregation => ⟨rfl, rfl, rfl, hhand, hidle⟩
            | .calendar => { h.ends .calendar with } }
  | calendar =>
      exact
        { h with
          shared := rfl
          broker := hbroker
          ends := fun
            | .aggregation => { h.ends .aggregation with }
            | .calendar => ⟨rfl, rfl, rfl, hhand, hidle⟩ }

theorem Shows.startTickers {s : Tandem} (h : v.Shows s) (tier : Tier) :
    (v.startTickers tier).Shows s := by
  cases tier with
  | aggregation => exact { h with ends := fun tier => { h.ends tier with } }
  | calendar => exact { h with ends := fun tier => { h.ends tier with } }

/-- An attempt to connect is a run. -/
theorem leads_reconnect (v : Service) (tier : Tier) : Leads v (v.reconnect tier) := by
  rw [reconnect]
  cases hphase : v.phase tier with
  | connected => exact .refl v
  | waiting resume =>
      dsimp only
      by_cases hearly : v.now < resume
      · rw [if_pos hearly]
        exact .refl v
      · rw [if_neg hearly]
        intro s h
        have haway := h.contact_waiting hphase
        have hend := h.ends tier
        have hidle := hend.idle haway
        have hreceiver : v.bench.receiver tier = none := hend.receiver.symm.trans hidle
        refine ⟨_, Tandem.reaches_attempt tier h.shared haway hidle, ?_⟩
        rw [Workbench.connect_nil (h.line_broker tier) hend.link hidle hreceiver]
        dsimp only
        generalize (s.line tier).attempt .nothing = l
        have hbroker : l.broker = (({ v.bench with broker := l.broker }.setLink tier
            l.link).setReceiver tier l.receiver).broker := by
          rw [Workbench.broker_setReceiver, Workbench.receiver_setLink, Workbench.broker_setLink]
          exact (congrArg (Option.elim · _ _) hreceiver).symm
        have hset := fun phase hidle => h.setEnd phase hidle hbroker
        cases hr : l.receiver with
        | none =>
            rw [hr] at hset
            exact hset (.waiting _) fun _ => rfl
        | some r =>
            rw [hr] at hset
            exact (hset .connected nofun).startTickers tier

/-- The loss of a connection is an event. -/
theorem leads_lose (hphase : v.phase tier = .connected) {r : Receiver}
    (hr : v.bench.receiver tier = some r)
    (hclosed : (v.bench.broker.receive r.stream).2 = .closed) : Leads v (v.lose tier) := by
  refine .of_event (e := .at tier fun _ => .lose) fun s h => ?_
  have hend := h.ends tier
  have hreceiver : (s.line tier).receiver = some r := hend.receiver.trans hr
  have hended : (s.line tier).hasEnded = true := by
    rw [Line.hasEnded, hreceiver, h.line_broker tier]
    exact decide_eq_true hclosed
  refine ⟨s.permits_lose tier (h.contact_connected hphase) hend.inHand hended, ?_⟩
  have hbroker : (s.line tier).hangUp.broker =
      ((v.bench.setLink tier (s.line tier).link.close).setReceiver tier none).broker := by
    rw [Line.hangUp_broker, Workbench.broker_setReceiver, Workbench.receiver_setLink,
      Workbench.broker_setLink, hend.receiver, h.line_broker tier]
  have hset := h.setEnd (.waiting (v.now + (s.line tier).link.settings.wait)) (fun _ => rfl) hbroker
  rw [lose, Workbench.closeLink, ← hend.link]
  cases tier with
  | aggregation =>
      exact
        { hset with
          ends := fun tier => { hset.ends tier with }
          aggregator := congrArg Aggregator.detach h.aggregator }
  | calendar =>
      rw [Tandem.Event.at, s.act_calendar rfl]
      exact
        { hset with
          ends := fun tier => { hset.ends tier with }
          chainer := congrArg Chainer.detach h.chainer }

/-! ### Deliveries -/

section TakeIn

variable {s : Tandem} {r : Receiver} {d : Delivery}

/-- The aggregation tier receives a delivery and takes it into its buffer. -/
theorem Shows.takeInAggregation (h : v.Shows s) (hr : v.bench.receiver .aggregation = some r)
    (hd : (v.bench.broker.receive r.stream).2 = .delivery d) :
    ({ v with
      bench := ({ v.bench with broker := (v.bench.broker.receive r.stream).1 } : Workbench).ingest
        .aggregation (r.handle d) d.message.content }).Shows
      ((s.act (.aggregation .receive)).act (.aggregation .ingest)) := by
  have hend := h.ends .aggregation
  have hreceive := Line.receive_of_delivery (hend.receiver.trans hr)
    ((h.line_broker .aggregation).symm ▸ hd)
  have hact : (s.act (.aggregation .receive)).act (.aggregation .ingest) =
      s.withCommitting (s.aggregation.toStation.receive.act (.ingest 0)) := rfl
  rw [hact, Station.act_ingest_receive hend.inHand hreceive]
  have hingested := Station.ingest_eq
    { s.aggregation.toStation with toLine := (s.line .aggregation).perform (.receive r.stream) }
    (r.handle d) d.message.content
  rw [h.broker_receive, h.aggregator] at hingested
  obtain ⟨hbroker, haggregator⟩ := Prod.ext_iff.1 hingested
  exact
    { h with
      shared := rfl
      broker := hbroker
      aggregator := haggregator
      ends := fun
        | .aggregation => { hend with inHand := rfl }
        | .calendar => { h.ends .calendar with } }

/-- The calendar tier receives a delivery and takes it into its buffer. -/
theorem Shows.takeInCalendar (h : v.Shows s) (hr : v.bench.receiver .calendar = some r)
    (hd : (v.bench.broker.receive r.stream).2 = .delivery d) :
    ({ v with
      bench := ({ v.bench with broker := (v.bench.broker.receive r.stream).1 } : Workbench).ingest
        .calendar (r.handle d) d.message.content }).Shows
      ((s.act (.calendar .receive)).act (.calendar .ingest)) := by
  have hend := h.ends .calendar
  have hreceive := Line.receive_of_delivery (hend.receiver.trans hr)
    ((h.line_broker .calendar).symm ▸ hd)
  have hact : (s.act (.calendar .receive)).act (.calendar .ingest) =
      s.withCalendar
        { s.calendar with
          toCalendarStation := s.calendar.toCalendarStation.receive.act (.ingest 0) }
        s.blocks := by
    rw [Tandem.act_calendar _ rfl, s.act_calendar rfl]
    rfl
  rw [hact, CalendarStation.act_ingest_receive hend.inHand hreceive]
  have hingested := CalendarStation.ingest_eq
    { s.calendar.toCalendarStation with
      toLine := (s.line .calendar).perform (.receive r.stream) }
    (r.handle d) d.message.content
  rw [h.broker_receive, h.chainer] at hingested
  obtain ⟨hbroker, hchainer⟩ := Prod.ext_iff.1 hingested
  exact
    { h with
      shared := rfl
      broker := hbroker
      chainer := hchainer
      ends := fun
        | .aggregation => { h.ends .aggregation with }
        | .calendar => { hend with inHand := rfl } }

/-- To take in what is received are two events. -/
theorem leads_takeIn (hphase : v.phase tier = .connected) (hr : v.bench.receiver tier = some r)
    (hd : (v.bench.broker.receive r.stream).2 = .delivery d) :
    Leads v
      { v with
        bench := ({ v.bench with broker := (v.bench.broker.receive r.stream).1 } : Workbench).ingest
          tier (r.handle d) d.message.content } := by
  intro s h
  refine ⟨(s.act (.at tier fun _ => .receive)).act (.at tier fun _ => .ingest),
    (Reaches.start.next (s.permits_receive tier (h.contact_connected hphase)
      (h.ends tier).inHand)).next (Tandem.permits_ingest _ tier), ?_⟩
  cases tier with
  | aggregation => exact h.takeInAggregation hr hd
  | calendar => exact h.takeInCalendar hr hd

end TakeIn

/-- What a connected tier takes in while nothing else happens is a run. -/
theorem leads_deliver (hphase : v.phase tier = .connected) (count : Nat) :
    Leads v { v with bench := (Workbench.deliver tier count v.bench).1 } := by
  induction count generalizing v with
  | zero => exact .refl v
  | succ count ih =>
      rw [Workbench.deliver]
      rcases v.bench.arrive_cases tier with ⟨r, d, hr, hd, heq⟩ | ⟨-, -, -, heq⟩ | heq | heq
      · rw [heq]
        have htaken := leads_takeIn hphase hr hd
        exact htaken.trans (ih hphase)
      all_goals
        rw [heq]
        exact .refl v

/-- To take in all that has arrived is a run. -/
theorem leads_drain (v : Service) (tier : Tier) : Leads v (v.drain tier) := by
  cases hphase : v.phase tier with
  | waiting resume =>
      rw [drain, hphase]
      exact .refl v
  | connected =>
      obtain ⟨count, hcount⟩ : ∃ count, v.drain tier =
          if (Workbench.deliver tier count v.bench).2.getLast? = some .closed then
            lose { v with bench := (Workbench.deliver tier count v.bench).1 } tier
          else { v with bench := (Workbench.deliver tier count v.bench).1 } := by
        rw [drain, hphase]
        dsimp only
        exact ⟨_, rfl⟩
      rw [hcount]
      have hdelivered := leads_deliver hphase count
      by_cases hlast : (Workbench.deliver tier count v.bench).2.getLast? = some .closed
      · rw [if_pos hlast]
        obtain ⟨r, hr, hclosed⟩ := Workbench.closed_of_deliver hlast
        exact hdelivered.trans (leads_lose hphase hr hclosed)
      · rw [if_neg hlast]
        exact hdelivered

end Service

end HashCalendar
