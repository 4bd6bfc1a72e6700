/-
**The running pipeline is a run of both services.**

The running pipeline works at whatever is due at a moment, carries out the jobs of a tick on the
spot, and moves on in time from one due event to the next.  It does nothing that the two services in
their loops could not do: all that is due at a moment is a number of their events, one after the
other.  So what holds in every run of both services holds of the running pipeline, whatever is
called from outside.

Main definitions:

* `HashCalendar.Service.Event`, `HashCalendar.Service.act` — what may happen to the running
  pipeline;
* `HashCalendar.Service.Reachable` — the states that a run may get to.

Main results:

* `HashCalendar.Service.leads_run`, `HashCalendar.Service.leads_commit` — to carry out a job is a
  run;
* `HashCalendar.Service.leads_round` — **all that is due at a moment is a run of both services**;
* `HashCalendar.Service.leads_advance` — **and so is the passage of time**;
* `HashCalendar.Service.Reachable.exists_tandem` — **the running pipeline always shows a state that
  both services may get to**.
-/

import HashCalendar.Proofs.Pipeline.Showing

set_option relaxedAutoImplicit false
set_option autoImplicit false

namespace HashCalendar

/-- A finalize tick gives its jobs numbers in their order. -/
theorem CalendarStation.waits_finalize (s : CalendarStation) {jobs : List (Option FinalizeJob)}
    (h : List.Forall₂ Finalizer.Waits jobs s.finalizers) :
    List.Forall₂ Finalizer.Waits (jobs ++ (s.chainer.finalize s.link.channel).2.map some)
      s.finalize.finalizers := by
  cases hch : s.link.channel with
  | none =>
      rw [finalize_of_none hch, Chainer.finalize]
      simpa using h
  | some ch =>
      rw [finalize_of_some hch]
      refine List.rel_append h ?_
      rw [Chainer.finalize, List.map_map, List.forall₂_map_left_iff, List.forall₂_map_right_iff,
        List.forall₂_same]
      rintro built - _ ⟨⟩
      exact ⟨rfl, rfl⟩

namespace Service

variable {v : Service}

/-! ### Blocks -/

/-- The scheduler can get all blocks that are on their way. -/
theorem reaches_recorded {s : Tandem} (hcontact : s.calendar.contact = .receiving)
    (hhand : s.calendar.inHand = []) :
    Reaches Tandem.Permits Tandem.act s
      { s with blocks := [], scheduler := s.blocks.foldl Scheduler.record s.scheduler } := by
  generalize hblocks : s.blocks = blocks
  induction blocks generalizing s with
  | nil =>
      rw [List.foldl_nil, ← hblocks]
      exact .start
  | cons block blocks ih =>
      have hact : s.act .record = { s with blocks, scheduler := s.scheduler.record block } := by
        rw [Tandem.act, hblocks]
      have hrecorded : Reaches Tandem.Permits Tandem.act s (s.act .record) :=
        Reaches.start.next ⟨hcontact, hhand⟩
      rw [hact] at hrecorded
      exact hrecorded.trans (ih hcontact hhand rfl)

theorem leads_collectBlocks (v : Service) : Leads v v.collectBlocks := by
  cases hphase : v.calendarPhase with
  | waiting resume =>
      have heq : v.collectBlocks = v := by rw [collectBlocks, hphase]
      rw [heq]
      exact .refl v
  | connected =>
      have heq : v.collectBlocks = { v with bench := v.bench.recordBlocks.1 } := by
        rw [collectBlocks, hphase]
      rw [heq]
      intro s h
      have hcontact : s.contact .calendar = .receiving := h.contact_connected hphase
      refine ⟨_, reaches_recorded hcontact (h.ends .calendar).inHand, ?_⟩
      exact
        { h with
          ends := fun tier => { h.ends tier with }
          scheduler := by
            rw [h.blocks, h.scheduler]
            rfl
          blocks := rfl }

theorem leads_react (v : Service) : Leads v v.react :=
  ((leads_drain v .aggregation).trans (leads_drain _ .calendar)).trans (leads_collectBlocks _)

/-! ### Ticks and jobs -/

theorem leads_calendarTick (v : Service) : Leads v v.calendarTick := by
  rw [calendarTick]
  by_cases hdue : v.calendarPhase = .connected ∧ v.calendarTicker.due ≤ v.now
  · rw [if_pos hdue]
    refine .of_event (e := .calendar (.tick (.build (.fresh v.bench.nextId)))) fun s h => ?_
    have hcontact : s.contact .calendar = .receiving := h.contact_connected hdue.1
    refine ⟨⟨hcontact, (h.ends .calendar).inHand⟩, ?_⟩
    have htick := s.calendar.tick_eq (.fresh v.bench.nextId)
    rw [h.chainer, show s.calendar.broker = _ from h.line_broker .calendar] at htick
    obtain ⟨hbroker, hchainer⟩ := Prod.ext_iff.1 htick
    rw [s.act_calendar rfl]
    exact
      { h with
        shared := rfl
        broker := hbroker
        chainer := hchainer
        ends := fun
          | .aggregation => { h.ends .aggregation with }
          | .calendar => { h.ends .calendar with } }
  · rw [if_neg hdue]
    exact .refl v

/-- The jobs of all built trees are handed out at once. -/
theorem leads_finalize (hphase : v.calendarPhase = .connected) :
    Leads v { v with bench := v.bench.finalize.1 } := by
  refine .of_event (e := .calendar (.tick .finalize)) fun s h => ?_
  have hcontact : s.contact .calendar = .receiving := h.contact_connected hphase
  refine ⟨⟨hcontact, (h.ends .calendar).inHand⟩, ?_⟩
  rw [s.act_calendar rfl]
  have hlink : s.calendar.link = v.bench.calendarLink := (h.ends .calendar).link
  have hjobs := s.calendar.waits_finalize h.calendarJobs
  rw [h.chainer, hlink] at hjobs
  exact
    { h with
      shared := rfl
      broker := h.line_broker .calendar
      chainer := by
        rw [Workbench.finalize, ← h.chainer, ← hlink]
        rfl
      calendarJobs := hjobs
      ends := fun
        | .aggregation => { h.ends .aggregation with }
        | .calendar => { h.ends .calendar with } }

/-- To carry out a job of the calendar tier is a run. -/
theorem leads_run (v : Service) (number : Nat) :
    Leads v { v with bench := (v.bench.run number).1 } := by
  cases hjob : v.bench.calendarJobs[number]?.join with
  | none =>
      rw [Workbench.run, hjob]
      exact .refl v
  | some job =>
      rw [Workbench.run, hjob]
      intro s h
      obtain ⟨w, hw, hwaits⟩ :=
        exists_getElem?_of_forall₂ h.calendarJobs (Option.join_eq_some_iff.1 hjob)
      obtain ⟨rfl, hstart⟩ := hwaits job rfl
      obtain ⟨t, w', hreaches, hbroker⟩ := Tandem.exists_finalized h.shared hw hstart
      rw [h.broker] at hreaches hbroker
      refine ⟨_, hreaches, ?_⟩
      exact
        { h with
          shared := rfl
          broker := hbroker
          blocks := by
            rw [h.blocks]
            exact (if_pos h.takesBlocks).symm
          calendarJobs := forall₂_set h.calendarJobs w'.waits_none number
          ends := fun
            | .aggregation => { h.ends .aggregation with }
            | .calendar => { h.ends .calendar with } }

theorem leads_runAll (v : Service) (jobs : List (Nat × FinalizeJob)) :
    Leads v { v with bench := jobs.foldl (fun bench job => (bench.run job.1).1) v.bench } := by
  induction jobs generalizing v with
  | nil => exact .refl v
  | cons job jobs ih => exact (leads_run v job.1).trans (ih _)

theorem leads_finalizeTick (v : Service) : Leads v v.finalizeTick := by
  rw [finalizeTick]
  by_cases hdue : v.calendarPhase = .connected ∧ v.finalizeTicker.due ≤ v.now
  · rw [if_pos hdue]
    have hdone := (leads_finalize hdue.1).trans (leads_runAll _ v.bench.finalize.2)
    exact hdone.trans (.of_same rfl rfl rfl)
  · rw [if_neg hdue]
    exact .refl v

theorem leads_anchorTick (v : Service) : Leads v v.anchorTick := by
  rw [anchorTick]
  by_cases hdue : v.calendarPhase = .connected ∧ v.anchorTicker.due ≤ v.now
  · rw [if_pos hdue]
    refine .of_event (e := .anchor (.fresh v.bench.nextId)) fun s h => ?_
    have hcontact : s.contact .calendar = .receiving := h.contact_connected hdue.1
    refine ⟨⟨hcontact, (h.ends .calendar).inHand⟩, ?_⟩
    have hlink : s.calendar.link = v.bench.calendarLink := (h.ends .calendar).link
    have hbroker := s.act_anchor_broker (.fresh v.bench.nextId)
    rw [h.scheduler, h.broker, hlink] at hbroker
    exact
      { h with
        shared := rfl
        broker := hbroker
        scheduler := by
          rw [Tandem.act, h.scheduler, h.broker, hlink]
          rfl
        ends := fun
          | .aggregation => { h.ends .aggregation with }
          | .calendar => { h.ends .calendar with } }
  · rw [if_neg hdue]
    exact .refl v

/-- To prepare a job of the aggregation tier is an event. -/
theorem leads_prepare (hphase : v.aggregatorPhase = .connected) :
    Leads v { v with bench := v.bench.aggregatorTick.1 } := by
  refine .of_event (e := .aggregation (.tick (v.bench.feed, .fresh v.bench.nextId))) fun s h => ?_
  have hcontact : s.contact .aggregation = .receiving := h.contact_connected hphase
  refine ⟨⟨hcontact, (h.ends .aggregation).inHand⟩, ?_⟩
  have hact : s.act (.aggregation (.tick (v.bench.feed, .fresh v.bench.nextId))) =
      s.withCommitting (s.aggregation.tick v.bench.feed (.fresh v.bench.nextId)) := rfl
  rw [hact, Station.tick, h.aggregator, show s.aggregation.link = _ from (h.ends .aggregation).link,
    Workbench.aggregatorTick, Workbench.link]
  cases v.bench.aggregator.tick v.bench.aggregatorLink.channel v.bench.feed
      (.fresh v.bench.nextId) with
  | mk aggregator job? =>
      cases job? with
      | none =>
          exact
            { h with
              shared := rfl
              broker := h.broker
              aggregator := rfl
              ends := fun
                | .aggregation => { h.ends .aggregation with }
                | .calendar => { h.ends .calendar with } }
      | some job =>
          have hwaits : Worker.Waits (some job)
              { job, batch := s.aggregation.nextBatch, progress := job.start } := by
            rintro _ ⟨⟩
            exact ⟨rfl, rfl⟩
          exact
            { h with
              shared := rfl
              broker := h.broker
              aggregator := rfl
              aggregatorJobs := List.rel_append h.aggregatorJobs (.cons hwaits .nil)
              ends := fun
                | .aggregation => { h.ends .aggregation with }
                | .calendar => { h.ends .calendar with } }

/-- To carry out a job of the aggregation tier is a run. -/
theorem leads_commit (v : Service) (number : Nat) :
    Leads v { v with bench := (v.bench.commit number).1 } := by
  cases hjob : v.bench.aggregatorJobs[number]?.join with
  | none =>
      rw [Workbench.commit, hjob]
      exact .refl v
  | some job =>
      rw [Workbench.commit, hjob]
      intro s h
      obtain ⟨w, hw, hwaits⟩ :=
        exists_getElem?_of_forall₂ h.aggregatorJobs (Option.join_eq_some_iff.1 hjob)
      obtain ⟨rfl, hstart⟩ := hwaits job rfl
      obtain ⟨t, w', hreaches, hbroker⟩ := Tandem.exists_committed h.shared hw hstart
      rw [h.broker] at hbroker
      refine ⟨_, hreaches, ?_⟩
      exact
        { h with
          shared := rfl
          broker := hbroker
          aggregatorJobs := forall₂_set h.aggregatorJobs w'.waits_none number
          ends := fun
            | .aggregation => { h.ends .aggregation with }
            | .calendar => { h.ends .calendar with } }

theorem leads_aggregatorTick (v : Service) : Leads v v.aggregatorTick := by
  rw [aggregatorTick]
  by_cases hdue : v.aggregatorPhase = .connected ∧ v.aggregatorTicker.due ≤ v.now
  · rw [if_pos hdue]
    have hprepared := leads_prepare hdue.1
    cases htick : v.bench.aggregatorTick with
    | mk bench job? =>
        rw [htick] at hprepared
        cases job? with
        | none => exact hprepared.trans (.of_same rfl rfl rfl)
        | some p => exact (hprepared.trans (leads_commit _ p.1)).trans (.of_same rfl rfl rfl)
  · rw [if_neg hdue]
    exact .refl v

/-! ### The passage of time -/

/-- All that is due at the present moment is a run of both services. -/
theorem leads_round (v : Service) : Leads v v.round :=
  (leads_refresh v).trans <| (leads_reconnect _ .aggregation).trans <|
    (leads_reconnect _ .calendar).trans <| (leads_react _).trans <|
      (leads_calendarTick _).trans <| (leads_finalizeTick _).trans <|
        (leads_collectBlocks _).trans <| (leads_anchorTick _).trans <|
          (leads_aggregatorTick _).trans (leads_react _)

theorem leads_wait (v : Service) (time : Nat) : Leads v { v with now := time } :=
  .of_same rfl rfl rfl

theorem leads_rounds (limit count : Nat) (v : Service) : Leads v (rounds limit count v) := by
  induction count generalizing v with
  | zero => exact leads_wait v limit
  | succ count ih =>
      rw [rounds]
      cases v.dueTimes.min? with
      | none => exact leads_wait v limit
      | some due =>
          dsimp only
          by_cases hlater : limit < due
          · rw [if_pos hlater]
            exact leads_wait v limit
          · rw [if_neg hlater]
            exact (leads_wait v _).trans ((leads_round _).trans (ih _))

/-- The passage of time is a run of both services. -/
theorem leads_advance (v : Service) (time : Nat) : Leads v (v.advance time) := by
  rw [advance]
  by_cases hpast : time ≤ v.now
  · rw [if_pos hpast]
    exact .refl v
  · rw [if_neg hpast]
    exact (leads_react v).trans (leads_rounds _ _ _)

/-! ### Runs of the pipeline -/

/-- What may happen to the running pipeline. -/
inductive Event where
  /-- Time passes, up to a given moment. -/
  | pass (time : Nat)
  /-- Somebody else calls the broker. -/
  | call (c : Broker.Call)
  /-- The directory of the beacon changes. -/
  | write (directory : Directory)

/-- What comes of an event. -/
def act (v : Service) : Event → Service
  | .pass time => v.advance time
  | .call c => { v with bench := v.bench.control (·.perform c) }
  | .write directory => { v with directory }

/-- Whether an event may happen: calls come from outside. -/
def Permits (_ : Service) : Event → Prop
  | .call c => c.IsOutside
  | _ => True

/-- The states that a run may get to. -/
def Reachable (c : Config) (directory : Directory) : Service → Prop :=
  Reaches Permits act (ofConfig c directory)

/-- Whatever happens to the running pipeline is a run of both services. -/
theorem leads_act {e : Event} (he : v.Permits e) : Leads v (v.act e) := by
  cases e with
  | pass time => exact leads_advance v time
  | write directory => exact .of_same rfl rfl rfl
  | call c =>
      refine .of_event (e := .aggregation (.call c)) fun s h => ⟨he, ?_⟩
      have hbroker : (s.aggregation.toLine.perform c).broker = v.bench.broker.perform c := by
        rw [Line.perform_broker, show s.aggregation.toLine.broker = _ from h.broker]
      exact
        { h with
          shared := rfl
          broker := hbroker
          ends := fun
            | .aggregation => { h.ends .aggregation with }
            | .calendar => { h.ends .calendar with } }

/-- **The running pipeline is a run of both services.**  At every moment, however time passes and
whatever is called from outside, it shows a state that both services may get to. -/
theorem Reachable.exists_tandem {c : Config} {directory : Directory}
    (h : Reachable c directory v) : ∃ s, Tandem.Reachable c s ∧ v.Shows s := by
  induction h with
  | start => exact ⟨_, .start, shows_ofConfig c directory⟩
  | @next v e _ he ih =>
      obtain ⟨s, hs, hshows⟩ := ih
      obtain ⟨s', hreaches, hshows'⟩ := leads_act he s hshows
      exact ⟨s', hs.trans hreaches, hshows'⟩

/-- So its broker is what a number of calls made of a new one. -/
theorem Reachable.exists_calls {c : Config} {directory : Directory}
    (h : Reachable c directory v) : ∃ calls, v.bench.broker = Broker.performAll {} calls := by
  obtain ⟨s, hs, hshows⟩ := h.exists_tandem
  obtain ⟨calls, hcalls⟩ := hs.exists_tracked
  refine ⟨calls, ?_⟩
  rw [← hshows.broker, Tandem.broker, hcalls, Tracked.performAll_broker]

end Service

end HashCalendar
