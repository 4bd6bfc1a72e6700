/-
**What services publish to.**

A service publishes to two queues.  Its link declares both before it shares its channel, and queues
stay; new tasks are on the channel that is shared and publish to these two queues only.  So whatever
a task is still to publish goes to a queue that is there.

And a task always has something to publish: a tick that finds something to do takes a batch with
something in it, since a configuration that is accepted does not limit batches to nothing, and over
every such batch there is a tree.

Main definitions:

* `HashCalendar.Config.Queues.publishedTo` — the queues that the components of a link publish to;
* `HashCalendar.Task.IsNew`, `HashCalendar.ServiceEvent.Changes` — a new task, and what an event
  does to the tasks of a service;
* `HashCalendar.Line.Supplies` — the queues that a component publishes to are there.

Main results:

* `HashCalendar.AggregationService.changes_act`, `HashCalendar.CalendarService.changes_act` — all
  that an event does to the tasks of a service;
* `HashCalendar.Line.Supplies.act` — every event keeps the queues that are needed;
* `HashCalendar.AggregationService.ready_run`, `HashCalendar.CalendarService.ready_run` — **in every
  run of a service the queues that it publishes to are there**.
-/

import HashCalendar.Proofs.Broker.Declared
import HashCalendar.Proofs.Pipeline.EndToEnd
import HashCalendar.Proofs.Pipeline.Tandem

set_option relaxedAutoImplicit false
set_option autoImplicit false

namespace HashCalendar

/-! ### Configurations -/

namespace Config

/-- The queues that the components of a link publish to. -/
def Queues.publishedTo (queues : Queues) : Tier → List String
  | .aggregation => [queues.stateOut, queues.calendarIn]
  | .calendar => [queues.stateOut, queues.anchorOut]

theorem le_of_checkRange {field : String} {value : UInt64} {min max : Nat}
    (h : checkRange field value min max = .ok ()) : min ≤ value.toNat := by
  rw [checkRange] at h
  by_cases hrange : min ≤ value.toNat ∧ value.toNat ≤ max
  · exact hrange.1
  · rw [if_neg hrange] at h
    cases h

theorem ok_of_bind {ε α : Type} {x : Except ε Unit} {f : Unit → Except ε α} {a : α}
    (h : x >>= f = .ok a) : x = .ok () ∧ f () = .ok a := by
  cases x with
  | error e => cases h
  | ok u => exact ⟨rfl, h⟩

/-- In a configuration that is accepted, both tiers take something from their buffers. -/
theorem maxBatchSize_pos {c : Config} (h : c.validate = .ok ()) :
    0 < c.aggregation.maxBatchSize.toNat ∧ 0 < c.calendar.maxBatchSize.toNat := by
  obtain ⟨-, h⟩ := ok_of_bind h
  obtain ⟨-, h⟩ := ok_of_bind h
  obtain ⟨haggregation, h⟩ := ok_of_bind h
  obtain ⟨hcalendar, -⟩ := ok_of_bind h
  have hbatch := (ok_of_bind haggregation).2
  obtain ⟨-, hcalendar⟩ := ok_of_bind hcalendar
  obtain ⟨-, hcalendar⟩ := ok_of_bind hcalendar
  have hbatch' := (ok_of_bind hcalendar).1
  have hle := le_of_checkRange hbatch
  have hle' := le_of_checkRange hbatch'
  omega

end Config

/-! ### Trees over what is pending -/

theorem AggregationTree.queue_of_mem_messages {tree : AggregationTree} {queues : Config.Queues}
    {batch : List Submission} {m : Outbound} (h : m ∈ tree.messages queues batch) :
    m.queue ∈ queues.publishedTo .aggregation := by
  rw [messages] at h
  rcases List.mem_append.1 h with h | h
  · obtain ⟨i, hi⟩ := List.mem_iff_getElem?.1 h
    obtain ⟨s, path, -, -, rfl⟩ := List.getElem?_zipWith_eq_some.1 hi
    exact List.mem_cons_self
  · rw [List.mem_singleton.1 h]
    exact List.mem_cons_of_mem _ List.mem_cons_self

theorem CalendarTree.queue_of_mem_messages {tree : CalendarTree} {queue baseUri : String}
    {batch : List AggregateRoot} {m : Outbound} (h : m ∈ tree.messages queue baseUri batch) :
    m.queue = queue := by
  obtain ⟨i, hi⟩ := List.mem_iff_getElem?.1 h
  obtain ⟨root, path, -, -, rfl⟩ := List.getElem?_zipWith_eq_some.1 hi
  rfl

namespace Aggregator

variable (agg : Aggregator)

/-- A job over something has a tree. -/
theorem exists_prepared (ch : Channel) (beacon : Option String) (id : Uuid)
    {batch : List PendingSubmission} (h : batch ≠ []) :
    ∃ tree, (agg.prepare ch beacon id batch).prepared =
      .ok (tree, tree.messages agg.queues (batch.map PendingSubmission.submission)) := by
  have hne : batch.map PendingSubmission.submission ≠ [] := by simpa using h
  obtain ⟨tree, hbuild, -⟩ := AggregationTree.exists_build id agg.config.function beacon hne
  refine ⟨tree, ?_⟩
  rw [prepare]
  dsimp only
  rw [hbuild]
  rfl

/-- A tick hands out no job, or it hands out one with a tree, on the channel that is there. -/
theorem tick_cases (channel : Option Channel) (feed : Feed) (id : Uuid)
    (hmax : 0 < agg.config.maxBatchSize.toNat) :
    (agg.tick channel feed id).2 = none ∨
      ∃ job tree batch, (agg.tick channel feed id).2 = some job ∧ channel = some job.channel ∧
        job.prepared = .ok (tree, tree.messages agg.queues batch) := by
  unfold tick
  by_cases hempty : agg.pending.isEmpty = true
  · rw [if_pos hempty]
    exact Or.inl rfl
  · rw [if_neg hempty]
    cases channel with
    | none => exact Or.inl rfl
    | some ch =>
        obtain ⟨tree, hprepared⟩ := agg.exists_prepared ch
          (if agg.config.bindBeacon then feed.snapshot else none) id
          (Buffer.splice_ne_nil hempty hmax)
        exact Or.inr ⟨_, tree, _, rfl, rfl, hprepared⟩

end Aggregator

/-- A calendar tick that finds something pending builds a tree. -/
theorem CalendarStation.exists_build (s : CalendarStation) (id : Uuid)
    (hmax : 0 < s.chainer.config.maxBatchSize.toNat) (h : ¬ s.chainer.pending.isEmpty = true) :
    ∃ tree, CalendarTree.build id s.chainer.config.function
      (s.nextBatch.map PendingRoot.message) = .ok tree := by
  have hne : s.nextBatch.map PendingRoot.message ≠ [] :=
    mt List.map_eq_nil_iff.1 (Buffer.splice_ne_nil h hmax)
  obtain ⟨tree, hbuild, -⟩ := CalendarTree.exists_build id s.chainer.config.function hne
  exact ⟨tree, hbuild⟩

/-! ### Tasks -/

/-- A new task has the channel that is shared, and all its messages are still to be published, to
queues that the link declares. -/
structure Task.IsNew (l : Line) (w : Task) : Prop where
  channel : l.link.channel = some w.channel
  publishing : ∃ messages, w.progress = .publishing messages ∧
    ∀ m ∈ messages, m.queue ∈ l.link.settings.declares

namespace ServiceEvent

/-- What an event does to the tasks of a service. -/
inductive Changes {τ : Type} (l : Line) (tasks : List Task) :
    ServiceEvent τ → List Task → Prop where
  | same (e : ServiceEvent τ) : Changes l tasks e tasks
  | assign (e : ServiceEvent τ) {jobs : List Task} (h : ∀ w ∈ jobs, w.IsNew l) :
      Changes l tasks e (tasks ++ jobs)
  | advance {number : Nat} {w : Task} (h : tasks[number]? = some w) :
      Changes l tasks (.advance number) (tasks.set number (w.advance l.broker))

/-- A task that is rejected was so before, or it is its own call that is refused. -/
theorem Changes.isRejected {τ : Type} {l : Line} {tasks tasks' : List Task} {e : ServiceEvent τ}
    (h : Changes l tasks e tasks') {number : Nat} {w : Task} (hw : tasks'[number]? = some w)
    (hr : w.progress.IsRejected) :
    ∃ v, tasks[number]? = some v ∧ v.channel = w.channel ∧
      (v.progress.IsRejected ∨ e = .advance number ∧ ∃ m left error,
        v.progress = .publishing (m :: left) ∧
        (l.broker.publish v.channel m).2 = .error error) := by
  cases h with
  | same => exact ⟨w, hw, rfl, Or.inl hr⟩
  | assign e hjobs =>
      by_cases hlt : number < tasks.length
      · rw [List.getElem?_append_left hlt] at hw
        exact ⟨w, hw, rfl, Or.inl hr⟩
      · rw [List.getElem?_append_right (Nat.le_of_not_lt hlt)] at hw
        obtain ⟨messages, hp, -⟩ := (hjobs w (List.mem_of_getElem? hw)).publishing
        rw [hp] at hr
        exact hr.elim
  | @advance k v hv =>
      by_cases hk : k = number
      · subst hk
        have hlt := (List.getElem?_eq_some_iff.1 hv).1
        rw [List.getElem?_set_self hlt] at hw
        obtain rfl : v.advance l.broker = w := Option.some.inj hw
        refine ⟨v, hv, rfl, ?_⟩
        rcases Progress.isRejected_next hr with hr | ⟨m, left, error, hp, herror⟩
        · exact Or.inl hr
        · exact Or.inr ⟨rfl, m, left, error, hp, herror⟩
      · rw [List.getElem?_set_ne hk] at hw
        exact ⟨w, hw, rfl, Or.inl hr⟩

end ServiceEvent

namespace Line

variable {k k' : Contact} {l l' : Line}

theorem Equipped.evolves (h : l.Equipped k) (hl : l.Evolves k k' l') : l'.Equipped k' := by
  cases hl with
  | calls calls => exact h.performAll calls
  | connect => exact h.connect
  | hangUp => exact .hangUp l

/-- The queues of a link are there when its channel is shared, and so are those that tasks are still
to publish to. -/
structure Supplies (k : Contact) (l : Line) (tasks : List Task) : Prop where
  equipped : l.Equipped k
  tasks : ∀ w ∈ tasks, w.progress.IsSupplied l.broker

/-- Every event keeps the queues that are needed. -/
theorem Supplies.act {τ : Type} {tasks tasks' : List Task} {e : ServiceEvent τ}
    (h : l.Supplies k tasks) (hl : l.Evolves k k' l') (hchange : e.Changes l tasks tasks') :
    l'.Supplies k' tasks' := by
  have hkeeps : Broker.KeepsQueues l.broker l'.broker := by
    obtain ⟨calls, hcalls⟩ := hl.exists_tracked
    rw [broker, broker, hcalls]
    exact l.tracked.keepsQueues_performAll calls
  refine ⟨h.equipped.evolves hl, fun w hw => Progress.IsSupplied.keep ?_ hkeeps⟩
  cases hchange with
  | same => exact h.tasks w hw
  | assign e hjobs =>
      rcases List.mem_append.1 hw with hw | hw
      · exact h.tasks w hw
      · -- A new task has the channel that is shared, so the link has declared its queues.
        have hnew := hjobs w hw
        obtain ⟨messages, hp, hqueues⟩ := hnew.publishing
        have hshared : l.link.channel.isSome = true := by
          rw [hnew.channel]
          rfl
        rw [hp]
        exact fun m hm =>
          h.equipped.shared hshared m.queue (List.mem_cons_of_mem _ (hqueues m hm))
  | advance hv =>
      rcases List.mem_or_eq_of_mem_set hw with hw | rfl
      · exact h.tasks w hw
      · exact (h.tasks _ (List.mem_of_getElem? hv)).next _ _ _

end Line

/-! ### The aggregation tier -/

/-- A job as a task. -/
def AggregationJob.task (job : AggregationJob) : Task := ⟨job.channel, job.handles, job.start⟩

/-- A tick adds the job that it hands out. -/
theorem Station.tasks_tick (s : Station) (feed : Feed) (id : Uuid) :
    (s.tick feed id).tasks =
      s.tasks ++ ((s.aggregator.tick s.link.channel feed id).2.map AggregationJob.task).toList := by
  rw [tick]
  cases s.aggregator.tick s.link.channel feed id with
  | mk aggregator job =>
      cases job with
      | none => simp [tasks]
      | some job => simp [tasks, Worker.task, AggregationJob.task]

namespace AggregationService

/-- What is known of the service in every run. -/
structure Ready (c : Config) (s : AggregationService) : Prop where
  settings : s.link.settings = c.aggregatorLink
  config : s.aggregator.config = c.aggregation
  queues : s.aggregator.queues = c.queues
  supplies : s.toLine.Supplies s.contact s.tasks

/-- No event changes the configuration of the tier. -/
theorem act_config (s : AggregationService) (e : ServiceEvent (Feed × Uuid)) :
    (s.act e).aggregator.config = s.aggregator.config ∧
      (s.act e).aggregator.queues = s.aggregator.queues := by
  cases e with
  | call c => exact ⟨rfl, rfl⟩
  | connect => exact ⟨rfl, rfl⟩
  | receive => exact ⟨rfl, rfl⟩
  | ingest =>
      rw [act, Station.act]
      cases s.inHand[0]? with
      | none => exact ⟨rfl, rfl⟩
      | some d =>
          dsimp only
          rw [Station.ingest, Aggregator.ingest]
          cases Submission.read d.2.payload with
          | ok submission => exact ⟨rfl, rfl⟩
          | error e => exact ⟨rfl, rfl⟩
  | tick t =>
      rw [act]
      rcases s.toStation.tick_cases t.1 t.2 with heq | ⟨ch, beacon, -, heq⟩
      · rw [heq]
        exact ⟨rfl, rfl⟩
      · rw [heq]
        exact ⟨rfl, rfl⟩
  | advance number =>
      rw [act, Station.advance]
      cases s.workers[number]? with
      | none => exact ⟨rfl, rfl⟩
      | some w => exact ⟨rfl, rfl⟩
  | lose => exact ⟨rfl, rfl⟩

variable {c : Config} {s : AggregationService}

/-- All that an event does to the tasks: a tick adds one that publishes to queues of the link, and a
task that makes its next call goes on. -/
theorem changes_act (hc : c.validate = .ok ()) (h : s.Ready c)
    (e : ServiceEvent (Feed × Uuid)) : e.Changes s.toLine s.tasks (s.act e).tasks := by
  cases e with
  | call c => exact .same _
  | connect => exact .same _
  | receive => exact .same _
  | ingest =>
      rw [act, Station.act]
      cases s.inHand[0]? with
      | none => exact .same _
      | some d => exact .same _
  | tick t =>
      rw [act, Station.tasks_tick]
      refine .assign _ fun w hw => ?_
      have hmax := (Config.maxBatchSize_pos hc).1
      rw [← h.config] at hmax
      rcases s.aggregator.tick_cases s.link.channel t.1 t.2 hmax with
        hnone | ⟨job, tree, batch, hjob, hchannel, hprepared⟩
      · rw [hnone] at hw
        cases hw
      · rw [hjob] at hw
        obtain rfl : w = job.task := List.mem_singleton.1 hw
        refine ⟨hchannel, tree.messages s.aggregator.queues batch, ?_, ?_⟩
        · rw [AggregationJob.task, AggregationJob.start, hprepared]
        · intro m hm
          have hqueue := AggregationTree.queue_of_mem_messages hm
          rw [h.queues] at hqueue
          rw [show s.link.settings = c.aggregatorLink from h.settings]
          exact hqueue
  | advance number =>
      rw [act]
      cases hw : s.workers[number]? with
      | none =>
          rw [Station.advance, hw]
          exact .same _
      | some w =>
          obtain ⟨htask, htasks⟩ := Station.tasks_advance hw
          rw [htasks]
          exact .advance htask
  | lose => exact .same _

theorem Ready.act (hc : c.validate = .ok ()) (h : s.Ready c) (e : ServiceEvent (Feed × Uuid)) :
    (s.act e).Ready c where
  settings := (s.act_settings e).trans h.settings
  config := (s.act_config e).1.trans h.config
  queues := (s.act_config e).2.trans h.queues
  supplies := h.supplies.act (s.evolves_act e) (changes_act hc h e)

theorem ready_run (hc : c.validate = .ok ()) (events : List (ServiceEvent (Feed × Uuid))) :
    (run c events).Ready c := by
  have hstart : (ofConfig c).Ready c :=
    ⟨rfl, rfl, rfl, .away rfl, by simp [ofConfig, Station.ofConfig, Station.tasks]⟩
  rw [run]
  generalize ofConfig c = s at hstart
  induction events generalizing s with
  | nil => exact hstart
  | cons e es ih => exact ih _ (hstart.act hc e)

end AggregationService

/-! ### The calendar tier -/

namespace CalendarService

/-- What is known of the service in every run. -/
structure Ready (c : Config) (s : CalendarService) : Prop where
  settings : s.link.settings = c.calendarLink
  config : s.chainer.config = c.calendar
  queues : s.chainer.queues = c.queues
  supplies : s.toLine.Supplies s.contact s.tasks

/-- No event changes the configuration of the tier. -/
theorem act_config (s : CalendarService) (e : ServiceEvent CalendarTick) :
    (s.act e).chainer.config = s.chainer.config ∧
      (s.act e).chainer.queues = s.chainer.queues := by
  cases e with
  | call c => exact ⟨rfl, rfl⟩
  | connect => exact ⟨rfl, rfl⟩
  | receive => exact ⟨rfl, rfl⟩
  | ingest =>
      rw [act, CalendarStation.act]
      cases s.inHand[0]? with
      | none => exact ⟨rfl, rfl⟩
      | some d =>
          dsimp only
          rw [CalendarStation.ingest, Chainer.ingest]
          cases Inbound.read d.2 with
          | ok inbound =>
              cases inbound with
              | aggregateRoot m => exact ⟨rfl, rfl⟩
              | anchorTx body => exact ⟨rfl, rfl⟩
          | error e => exact ⟨rfl, rfl⟩
  | tick t =>
      cases t with
      | build id =>
          rw [act]
          rcases s.toCalendarStation.tick_cases id with heq | ⟨tree, -, heq⟩
          · rw [heq]
            exact ⟨rfl, rfl⟩
          · rw [heq]
            exact ⟨rfl, rfl⟩
      | finalize =>
          rw [act]
          cases hch : s.link.channel with
          | none =>
              rw [CalendarStation.finalize_of_none hch]
              exact ⟨rfl, rfl⟩
          | some ch =>
              rw [CalendarStation.finalize_of_some hch]
              exact ⟨rfl, rfl⟩
  | advance number =>
      rw [act, CalendarStation.advance]
      cases s.finalizers[number]? with
      | none => exact ⟨rfl, rfl⟩
      | some w => exact ⟨rfl, rfl⟩
  | lose => exact ⟨rfl, rfl⟩

variable {c : Config} {s : CalendarService}

/-- All that an event does to the tasks: a finalize tick adds some that publish to a queue of the
link, and a task that makes its next call goes on. -/
theorem changes_act (h : s.Ready c) (e : ServiceEvent CalendarTick) :
    e.Changes s.toLine s.tasks (s.act e).tasks := by
  cases e with
  | call c => exact .same _
  | connect => exact .same _
  | receive => exact .same _
  | ingest =>
      rw [act, CalendarStation.act]
      cases s.inHand[0]? with
      | none => exact .same _
      | some d => exact .same _
  | tick t =>
      cases t with
      | build id => exact .same _
      | finalize =>
          rw [act]
          cases hch : s.link.channel with
          | none =>
              rw [CalendarStation.finalize_of_none hch]
              exact .same _
          | some ch =>
              have htasks : s.finalize.tasks = s.tasks ++ (s.chainer.built.map fun built =>
                  Finalizer.start (s.chainer.jobOf ch built) built.roots).map Finalizer.task := by
                rw [CalendarStation.finalize_of_some hch, CalendarStation.tasks, List.map_append]
                rfl
              rw [htasks]
              refine .assign _ fun w hw => ?_
              obtain ⟨v, hv, rfl⟩ := List.mem_map.1 hw
              obtain ⟨built, -, rfl⟩ := List.mem_map.1 hv
              refine ⟨hch, _, rfl, fun m hm => ?_⟩
              rw [h.settings, CalendarTree.queue_of_mem_messages hm, h.queues]
              exact List.mem_cons_self
  | advance number =>
      rw [act]
      cases hw : s.finalizers[number]? with
      | none =>
          rw [CalendarStation.advance, hw]
          exact .same _
      | some w =>
          obtain ⟨htask, htasks⟩ := CalendarStation.tasks_advance hw
          rw [htasks]
          exact .advance htask
  | lose => exact .same _

theorem Ready.act (h : s.Ready c) (e : ServiceEvent CalendarTick) : (s.act e).Ready c where
  settings := (s.act_settings e).trans h.settings
  config := (s.act_config e).1.trans h.config
  queues := (s.act_config e).2.trans h.queues
  supplies := h.supplies.act (s.evolves_act e) (changes_act h e)

theorem ready_run (c : Config) (events : List (ServiceEvent CalendarTick)) :
    (run c events).Ready c := by
  have hstart : (ofConfig c).Ready c :=
    ⟨rfl, rfl, rfl, .away rfl, by simp [ofConfig, CalendarStation.ofConfig, CalendarStation.tasks]⟩
  rw [run]
  generalize ofConfig c = s at hstart
  induction events generalizing s with
  | nil => exact hstart
  | cons e es ih => exact ih _ (hstart.act e)

end CalendarService

end HashCalendar
