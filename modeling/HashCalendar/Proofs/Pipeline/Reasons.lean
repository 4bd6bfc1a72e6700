/-
**Why services fail.**

A batch of a service is rejected, or a window of blocks deferred, if a message is not taken.  Where
the configuration was accepted, this has two reasons only, and both are the broker's: there is no
channel or its connection is closed, or the broker takes no more messages.  It never happens that a
queue is missing, nor that there is nothing to build a tree over.

Main definitions:

* `HashCalendar.Tandem.Ready` — what is known in every run of both services;
* `HashCalendar.Tandem.FailsNext` — the next message of a task is refused.

Main results:

* `HashCalendar.Scheduler.refuses_of_deferred` — why a window is deferred;
* `HashCalendar.Tandem.Ready.isRejected_act` — why an event makes a task be rejected;
* `HashCalendar.services_fail_only_for_broker_reasons` — **why batches are rejected and windows
  deferred, in every run of both services**.
-/

import HashCalendar.Proofs.Aggregation.Discipline
import HashCalendar.Proofs.Calendar.Exclusivity
import HashCalendar.Proofs.Pipeline.Supply

set_option relaxedAutoImplicit false
set_option autoImplicit false

namespace HashCalendar

/-! ### The scheduler -/

namespace Scheduler

/-- A window that goes to a queue that is there is deferred for one of the reasons for which the
broker refuses the request. -/
theorem refuses_of_deferred {b : Broker} {s : Scheduler} {channel : Option Channel} {id : Uuid}
    {n : Nat} (hd : (s.tick b channel id).2.2 = some (.deferred n))
    (hqueue : channel.isSome = true → b.IsDeclared s.queue) :
    ∃ e, (s.publishWindow b channel id s.window.items).2 = .error (.broker e) ∧
      b.Refuses channel s.queue e := by
  by_cases hne : s.window.items = []
  · rw [(tick_of_items_eq_nil b hne channel id).2] at hd
    cases hd
  · rw [tick_of_items_ne_nil b hne] at hd
    cases channel with
    | none => exact ⟨.channelClosed, rfl, .closed (by simp)⟩
    | some ch =>
        obtain ⟨request, hrequest, -⟩ := s.exists_request id hne
        rw [publishWindow_of_request b hrequest] at hd ⊢
        cases hp : b.publish ch (s.outbound request) with
        | mk b' result =>
            cases result with
            | ok u =>
                rw [hp] at hd
                cases hd
            | error e =>
                have herror : (b.publish ch (s.outbound request)).2 = .error e := by rw [hp]
                exact ⟨e, rfl, Broker.refuses_of_publish (hqueue rfl) herror⟩

end Scheduler

/-! ### Both services -/

namespace Tandem

/-- What is known in every run of both services. -/
structure Ready (c : Config) (s : Tandem) : Prop where
  shared : s.IsShared
  aggregation : s.aggregation.Ready c
  calendar : s.calendar.Ready c
  queue : s.scheduler.queue = c.queues.anchorOut

/-- No event changes where the requests go. -/
theorem act_queue (s : Tandem) (e : Event) :
    (s.act e).scheduler.queue = s.scheduler.queue := by
  cases e with
  | aggregation e => rfl
  | calendar e => rfl
  | record =>
      rw [act]
      cases s.blocks with
      | nil => rfl
      | cons block blocks => rfl
  | anchor id =>
      rw [act]
      rcases s.scheduler.tick_cases s.broker s.calendar.link.channel id with
        ⟨-, -, h⟩ | ⟨ch, request, -, -, -, -, h⟩ | ⟨-, -, h⟩
      · rw [h]
      · rw [h]
      · rw [h]

variable {c : Config} {s : Tandem}

theorem run_queue (c : Config) (events : List Event) :
    (run c events).scheduler.queue = c.queues.anchorOut := by
  induction events using List.reverseRecOn with
  | nil => rfl
  | append_singleton events e ih => rw [run_concat, act_queue, ih]

theorem ready_run (hc : c.validate = .ok ()) (events : List Event) : (run c events).Ready c := by
  obtain ⟨hshared, ⟨as, has⟩, ⟨bs, hbs⟩⟩ := exists_runs c events
  exact ⟨hshared, has ▸ AggregationService.ready_run hc as, hbs ▸ CalendarService.ready_run c bs,
    run_queue c events⟩

/-- The next call of a task publishes a message, and the broker refuses it for one of its
reasons. -/
def FailsNext (s : Tandem) (w : Task) : Prop :=
  ∃ m left e, w.progress = .publishing (m :: left) ∧
    (s.broker.publish w.channel m).2 = .error e ∧ s.broker.Refuses (some w.channel) m.queue e

namespace Ready

variable (h : s.Ready c)

include h

theorem line_broker (tier : Tier) : (s.line tier).broker = s.broker :=
  h.shared.line_broker tier

theorem declares (tier : Tier) :
    (s.line tier).link.settings.declares = c.queues.publishedTo tier := by
  cases tier with
  | aggregation => exact congrArg Link.Settings.declares h.aggregation.settings
  | calendar => exact congrArg Link.Settings.declares h.calendar.settings

theorem supplies (tier : Tier) : ∃ k, (s.line tier).Supplies k (s.tasks tier) := by
  cases tier with
  | aggregation => exact ⟨_, h.aggregation.supplies⟩
  | calendar => exact ⟨_, h.calendar.supplies⟩

/-- When the channel of a link is shared, all queues that its components publish to are there. -/
theorem isDeclared {tier : Tier} (hch : (s.line tier).link.channel.isSome = true) {queue : String}
    (hqueue : queue ∈ c.queues.publishedTo tier) : s.broker.IsDeclared queue := by
  obtain ⟨k, hsupplies⟩ := h.supplies tier
  rw [← h.declares tier] at hqueue
  exact h.line_broker tier ▸
    hsupplies.equipped.shared hch queue (List.mem_cons_of_mem _ hqueue)

/-- A message of a task is refused for one of the broker's reasons. -/
theorem refuses {tier : Tier} {w : Task} (hw : w ∈ s.tasks tier) {m : Outbound}
    {left : List Outbound} (hp : w.progress = .publishing (m :: left)) {e : Broker.Error}
    (he : (s.broker.publish w.channel m).2 = .error e) :
    s.broker.Refuses (some w.channel) m.queue e := by
  obtain ⟨k, hsupplies⟩ := h.supplies tier
  have hsupplied := hsupplies.tasks w hw
  rw [hp, h.line_broker tier] at hsupplied
  exact Broker.refuses_of_publish (hsupplied m List.mem_cons_self) he

/-- A task that is rejected was so before, or it is its own call that the broker refuses. -/
theorem isRejected_act (hc : c.validate = .ok ()) {e : Event} {tier : Tier} {number : Nat}
    {w : Task} (hw : ((s.act e).tasks tier)[number]? = some w) (hr : w.progress.IsRejected) :
    ∃ v, (s.tasks tier)[number]? = some v ∧ v.channel = w.channel ∧
      (v.progress.IsRejected ∨ e = .advance tier number ∧ s.FailsNext v) := by
  -- An event of one service leaves the tasks of the other as they are.
  cases e with
  | aggregation e =>
      cases tier with
      | aggregation =>
          obtain ⟨v, hv, hchannel, hcases⟩ :=
            (AggregationService.changes_act hc h.aggregation e).isRejected hw hr
          refine ⟨v, hv, hchannel, hcases.imp_right ?_⟩
          rintro ⟨rfl, m, left, error, hp, herror⟩
          have hmem : v ∈ s.tasks .aggregation := List.mem_of_getElem? hv
          exact ⟨rfl, m, left, error, hp, herror, h.refuses hmem hp herror⟩
      | calendar => exact ⟨w, hw, rfl, Or.inl hr⟩
  | calendar e =>
      cases tier with
      | aggregation => exact ⟨w, hw, rfl, Or.inl hr⟩
      | calendar =>
          obtain ⟨v, hv, hchannel, hcases⟩ :=
            (CalendarService.changes_act h.calendar e).isRejected hw hr
          refine ⟨v, hv, hchannel, hcases.imp_right ?_⟩
          rintro ⟨rfl, m, left, error, hp, herror⟩
          have hmem : v ∈ s.tasks .calendar := List.mem_of_getElem? hv
          replace herror : (s.broker.publish v.channel m).2 = .error error :=
            h.line_broker .calendar ▸ herror
          exact ⟨rfl, m, left, error, hp, herror, h.refuses hmem hp herror⟩
  | record =>
      refine ⟨w, ?_, rfl, Or.inl hr⟩
      rw [act] at hw
      cases hblocks : s.blocks with
      | nil =>
          rw [hblocks] at hw
          exact hw
      | cons block blocks =>
          rw [hblocks] at hw
          cases tier with
          | aggregation => exact hw
          | calendar => exact hw
  | anchor id =>
      cases tier with
      | aggregation => exact ⟨w, hw, rfl, Or.inl hr⟩
      | calendar => exact ⟨w, hw, rfl, Or.inl hr⟩

end Ready

/-- A task that is rejected had a message refused once. -/
theorem exists_failure (hc : c.validate = .ok ()) {events : List Event} {tier : Tier}
    {number : Nat} {w : Task} (hw : ((run c events).tasks tier)[number]? = some w)
    (hr : w.progress.IsRejected) :
    ∃ before after v, events = before ++ .advance tier number :: after ∧
      ((run c before).tasks tier)[number]? = some v ∧ v.channel = w.channel ∧
      (run c before).FailsNext v := by
  -- Either the last event made the task be rejected, or the task was so before it.
  induction events using List.reverseRecOn generalizing w with
  | nil =>
      cases tier with
      | aggregation => cases hw
      | calendar => cases hw
  | append_singleton events e ih =>
      rw [run_concat] at hw
      obtain ⟨v, hv, hchannel, hearlier | ⟨rfl, hfails⟩⟩ :=
        (ready_run hc events).isRejected_act hc hw hr
      · obtain ⟨before, after, u, rfl, hu, hu', hfails⟩ := ih hv hearlier
        exact ⟨before, after ++ [e], u, by simp, hu, hu'.trans hchannel, hfails⟩
      · exact ⟨events, [], v, rfl, hv, hchannel, hfails⟩

end Tandem

/-- **Services fail only for the broker's reasons.**  Where a configuration was accepted, at every
moment of every run of both services, whatever happens to their broker and its connections:

* when the channel of a link is shared, all queues that its components publish to are there;
* if a message of a task is refused, this is because the connection of its channel is closed, or
  because the broker takes no more messages;
* the deliveries of a task are given back only after one of its messages was refused so;
* a window of blocks is deferred only because there is no channel, or because the request is refused
  so;
* a tree is built over whatever a tick of a tier or of the scheduler finds. -/
theorem services_fail_only_for_broker_reasons (c : Config) (hc : c.validate = .ok ())
    (events : List Tandem.Event) :
    let s := Tandem.run c events
    (∀ tier, (s.line tier).link.channel.isSome = true →
      ∀ queue ∈ c.queues.publishedTo tier, s.broker.IsDeclared queue) ∧
    (∀ tier, ∀ w ∈ s.tasks tier, ∀ m left e, w.progress = .publishing (m :: left) →
      (s.broker.publish w.channel m).2 = .error e →
      s.broker.Refuses (some w.channel) m.queue e) ∧
    (∀ tier number w, (s.tasks tier)[number]? = some w → w.progress.IsRejected →
      ∃ before after v, events = before ++ .advance tier number :: after ∧
        ((Tandem.run c before).tasks tier)[number]? = some v ∧ v.channel = w.channel ∧
        (Tandem.run c before).FailsNext v) ∧
    (∀ id n, (s.scheduler.tick s.broker s.calendar.link.channel id).2.2 = some (.deferred n) →
      ∃ e, (s.scheduler.publishWindow s.broker s.calendar.link.channel id
          s.scheduler.window.items).2 = .error (.broker e) ∧
        s.broker.Refuses s.calendar.link.channel c.queues.anchorOut e) ∧
    (∀ feed id job, (s.aggregation.aggregator.tick s.aggregation.link.channel feed id).2 =
      some job → ∃ p, job.prepared = .ok p) ∧
    (∀ id, ¬ s.calendar.chainer.pending.isEmpty = true →
      ∃ tree, CalendarTree.build id s.calendar.chainer.config.function
        (s.calendar.nextBatch.map PendingRoot.message) = .ok tree) ∧
    ∀ id, ¬ s.scheduler.window.isEmpty = true →
      ∃ request, s.scheduler.request id s.scheduler.window.items = .ok request := by
  intro s
  have h : s.Ready c := Tandem.ready_run hc events
  obtain ⟨haggregation, hcalendar⟩ := Config.maxBatchSize_pos hc
  refine ⟨fun tier hch queue hqueue => h.isDeclared hch hqueue,
    fun tier w hw m left e hp he => h.refuses hw hp he,
    fun tier number w hw hr => Tandem.exists_failure hc hw hr, ?_, ?_, ?_, ?_⟩
  · intro id n hd
    have hqueue : s.calendar.link.channel.isSome = true →
        s.broker.IsDeclared s.scheduler.queue := by
      intro hch
      have hshared : (s.line .calendar).link.channel.isSome = true := hch
      rw [h.queue]
      exact h.isDeclared hshared (List.mem_cons_of_mem _ List.mem_cons_self)
    exact h.queue ▸ Scheduler.refuses_of_deferred hd hqueue
  · intro feed id job hjob
    rw [← h.aggregation.config] at haggregation
    rcases s.aggregation.aggregator.tick_cases s.aggregation.link.channel feed id haggregation with
      hnone | ⟨job', tree, batch, hjob', -, hprepared⟩
    · rw [hnone] at hjob
      cases hjob
    · obtain rfl : job' = job := Option.some.inj (hjob'.symm.trans hjob)
      exact ⟨_, hprepared⟩
  · intro id hpending
    rw [← h.calendar.config] at hcalendar
    exact s.calendar.exists_build id hcalendar hpending
  · intro id hwindow
    rw [Buffer.isEmpty, List.isEmpty_iff] at hwindow
    obtain ⟨request, hrequest, -⟩ := s.scheduler.exists_request id hwindow
    exact ⟨request, hrequest⟩

/-- Both services connect.  The calendar tier takes in an aggregate root and carries out a job over
it, and its block gets to the scheduler.  The aggregation tier prepares a job over a submission, but
the broker takes no more messages when the job publishes. -/
def publishToFullBroker : List Tandem.Event :=
  List.replicate 6 (.aggregation .connect) ++ List.replicate 6 (.calendar .connect) ++
    [.calendar (.call (.inject "work.cal" loneRoot)), .calendar .receive, .calendar .ingest,
      .calendar (.tick (.build .zero)), .calendar (.tick .finalize)] ++
    List.replicate 4 (.advance .calendar 0) ++
    [.record, .aggregation (.call (.inject "work.agg" zeroSubmission)), .aggregation .receive,
      .aggregation .ingest, .aggregation (.tick ({}, .zero)),
      .aggregation (.call (.rejectAfter 0))] ++
    List.replicate 3 (.advance .aggregation 0)

/-- At a broker that takes no more messages a batch is rejected and a window deferred. -/
theorem full_broker_rejects_and_defers :
    ({} : Config).validate = .ok () ∧
    (∃ w, ((Tandem.run {} publishToFullBroker).tasks .aggregation)[0]? = some w ∧
      w.progress = .settled (.rejected 1) ∧
      ∃ before after v, publishToFullBroker = before ++ .advance .aggregation 0 :: after ∧
        ((Tandem.run {} before).tasks .aggregation)[0]? = some v ∧ v.channel = w.channel ∧
        (Tandem.run {} before).FailsNext v) ∧
    let s := Tandem.run {} publishToFullBroker
    (s.scheduler.tick s.broker s.calendar.link.channel .zero).2.2 = some (.deferred 1) ∧
      ∃ e, (s.scheduler.publishWindow s.broker s.calendar.link.channel .zero
          s.scheduler.window.items).2 = .error (.broker e) ∧
        s.broker.Refuses s.calendar.link.channel "work.btctx" e := by
  have hvalid : ({} : Config).validate = .ok () := by decide +kernel
  have hall := services_fail_only_for_broker_reasons {} hvalid publishToFullBroker
  have hprogress : ((Tandem.run {} publishToFullBroker).tasks .aggregation)[0]?.map
      Task.progress = some (.settled (.rejected 1)) := by decide +kernel
  have hdeferred : ((Tandem.run {} publishToFullBroker).scheduler.tick
      (Tandem.run {} publishToFullBroker).broker
      (Tandem.run {} publishToFullBroker).calendar.link.channel .zero).2.2 =
        some (.deferred 1) := by decide +kernel
  obtain ⟨w, hw, hsettled⟩ := Option.map_eq_some_iff.1 hprogress
  have hr : w.progress.IsRejected := by
    rw [hsettled]
    exact trivial
  exact ⟨hvalid, ⟨w, hw, hsettled, hall.2.2.1 .aggregation 0 w hw hr⟩, hdeferred,
    hall.2.2.2.1 .zero 1 hdeferred⟩

end HashCalendar
