/-
**The loops of the two services.**

Each tier runs as a service that alone consumes its queue.  It connects, step by step; then it takes
in deliveries one by one and works at its ticks, until its stream ends.  Then it gives up its
channel, forgets what it has, and connects again.  Its jobs make their calls beside all this, and
so do the others.

Main definitions:

* `HashCalendar.ServiceEvent` — what may happen while a service runs;
* `HashCalendar.AggregationService`, `HashCalendar.CalendarService` — the two tiers in their loops;
* `HashCalendar.AggregationService.Reachable`, `HashCalendar.CalendarService.Reachable` — the states
  that a run may get to.

Main results:

* `HashCalendar.AggregationService.Reachable.custody`,
  `HashCalendar.CalendarService.Reachable.custody` — **in every run of a service its deliveries are
  where they should be**.
-/

import HashCalendar.Proofs.Aggregation.Runs
import HashCalendar.Proofs.Calendar.Runs
import HashCalendar.Proofs.Pipeline.Custody
import HashCalendar.Proofs.Runs

set_option relaxedAutoImplicit false
set_option autoImplicit false

namespace HashCalendar

/-! ### Events -/

/-- What may happen while a service runs.  The type is that of its ticks. -/
inductive ServiceEvent (τ : Type) where
  /-- Anything is called that neither connecting nor taking in nor a job calls. -/
  | call (c : Broker.Call)
  /-- The service takes the next step of connecting. -/
  | connect
  | receive
  /-- The service takes in the delivery that it has received. -/
  | ingest
  | tick (tick : τ)
  /-- A job makes its next call. -/
  | advance (number : Nat)
  /-- The service finds that its stream has ended. -/
  | lose

/-- Whether nothing will be received any more. -/
def Line.hasEnded (l : Line) : Bool :=
  match l.receiver with
  | none => false
  | some r => (l.broker.receive r.stream).2 = .closed

/-- Whether an event may happen to a service that alone consumes a queue.  Only while it is
connected and has nothing in hand it waits for deliveries and ticks. -/
def ServiceEvent.Permitted {τ : Type} (queue : String) (contact : Contact) (l : Line)
    (inHand : List (Handle × Content)) : ServiceEvent τ → Prop
  | .call c => (Broker.Rules.alone queue l.receiver).Allows l.broker c
  | .connect => contact ≠ .receiving
  | .receive => contact = .receiving ∧ inHand = []
  | .ingest => True
  | .tick _ => contact = .receiving ∧ inHand = []
  | .advance _ => True
  | .lose => contact = .receiving ∧ inHand = [] ∧ l.hasEnded = true

theorem Line.Custody.lose {k : Contact} {l : Line} {near : List Handle} {tasks : List Task}
    (h : l.Custody k near tasks) (hk : k = .receiving) (he : l.hasEnded = true) :
    l.hangUp.Custody .away [] tasks := by
  subst hk
  rw [hasEnded] at he
  cases hr : l.receiver with
  | none =>
      rw [hr] at he
      cases he
  | some r =>
      rw [hr] at he
      exact h.hangUp hr (by simpa using he)

/-! ### The aggregation tier -/

/-- A job as a task. -/
def Worker.task (w : Worker) : Task := ⟨w.job.channel, w.job.handles, w.progress⟩

namespace Station

/-- The deliveries that the tier has itself. -/
def near (s : Station) : List Handle :=
  s.inHand.map Prod.fst ++ s.aggregator.pending.items.map PendingSubmission.handle

/-- Its jobs as tasks. -/
def tasks (s : Station) : List Task := s.workers.map Worker.task

variable {k : Contact} {s : Station}

theorem custody_receive (h : s.toLine.Custody k s.near s.tasks) :
    s.receive.toLine.Custody k s.receive.near s.receive.tasks := by
  refine h.receive.perm ?_
  simp only [near, receive, List.map_append, List.append_assoc]
  refine List.Perm.append_left _ ?_
  rw [Option.toList_map]
  exact List.perm_append_comm

theorem custody_ingest (h : s.toLine.Custody k s.near s.tasks) :
    (s.act (.ingest 0)).toLine.Custody k (s.act (.ingest 0)).near (s.act (.ingest 0)).tasks := by
  rw [act]
  cases hhand : s.inHand with
  | nil => exact h
  | cons d rest =>
      have hnear : s.near = d.1 :: (rest.map Prod.fst ++
          s.aggregator.pending.items.map PendingSubmission.handle) := by
        rw [near, hhand]
        rfl
      simp only [List.getElem?_cons_zero, List.eraseIdx_cons_zero]
      rw [ingest, Aggregator.ingest, ingestCalls]
      cases Submission.read d.2.payload with
      | ok submission =>
          refine h.perm ?_
          rw [hnear]
          simp only [near, Buffer.push, List.map_append, List.map_cons, List.map_nil]
          rw [← List.append_assoc]
          exact (List.perm_append_singleton _ _).symm
      | error e => exact h.settle (hnear ▸ List.Perm.refl _) rfl

theorem custody_tick (h : s.toLine.Custody .receiving s.near s.tasks) (feed : Feed) (id : Uuid) :
    (s.tick feed id).toLine.Custody .receiving (s.tick feed id).near (s.tick feed id).tasks := by
  rcases s.tick_cases feed id with heq | ⟨ch, beacon, hch, heq⟩
  · rw [heq]
    exact h
  · rw [heq]
    generalize hjob : s.aggregator.prepare ch beacon id s.nextBatch = job
    let w : Worker := { job, batch := s.nextBatch, progress := job.start }
    have hchannel : w.task.channel = ch := congrArg AggregationJob.channel hjob.symm
    have hhandles : w.task.handles = s.nextBatch.map PendingSubmission.handle :=
      congrArg AggregationJob.handles hjob.symm
    -- The head of the buffer goes into the new task.
    have hp : s.near.Perm ((s.assign job).near ++ [w.task].flatMap Task.handles) := by
      rw [near, near, ← s.nextBatch_append job, List.map_append, List.flatMap_singleton, hhandles,
        List.append_assoc]
      exact List.perm_append_comm.append_left _
    have hassigned := h.assign hp (by
      intro v hv
      rw [List.mem_singleton.1 hv, hchannel]
      exact ⟨hch, job.outstanding_start⟩)
    have htasks : (s.assign job).tasks = s.tasks ++ [w.task] := List.map_append
    rw [htasks]
    exact hassigned

/-- A job that makes its next call is the task that does. -/
theorem tasks_advance {number : Nat} {w : Worker} (hw : s.workers[number]? = some w) :
    s.tasks[number]? = some w.task ∧
      (s.advance number).tasks = s.tasks.set number (w.task.advance s.toLine.broker) := by
  constructor
  · rw [tasks, List.getElem?_map, hw]
    rfl
  · rw [advance_of_getElem? hw, tasks, tasks, List.map_set]
    rfl

theorem custody_advance (h : s.toLine.Custody k s.near s.tasks) (number : Nat) :
    (s.advance number).toLine.Custody k (s.advance number).near (s.advance number).tasks := by
  cases hw : s.workers[number]? with
  | none =>
      rw [advance, hw]
      exact h
  | some w =>
      obtain ⟨htask, htasks⟩ := tasks_advance hw
      rw [htasks, advance_of_getElem? hw]
      exact h.advance htask

end Station

/-- The aggregation tier in its loop. -/
structure AggregationService extends Station where
  contact : Contact := .away

namespace AggregationService

/-- What comes of an event.  When the stream has ended, the channel is given up before the pending
work is forgotten. -/
def act (s : AggregationService) : ServiceEvent (Feed × Uuid) → AggregationService
  | .call c => { s with toStation := s.toStation.act (.call c) }
  | .connect =>
    { toStation := { s.toStation with toLine := (s.toLine.connect s.contact).2 }
      contact := (s.toLine.connect s.contact).1 }
  | .receive => { s with toStation := s.toStation.receive }
  | .ingest => { s with toStation := s.toStation.act (.ingest 0) }
  | .tick (feed, id) => { s with toStation := s.toStation.tick feed id }
  | .advance number => { s with toStation := s.toStation.advance number }
  | .lose =>
    { toStation :=
        { s.toStation with toLine := s.toLine.hangUp, aggregator := s.aggregator.detach }
      contact := .away }

/-- Whether an event may happen. -/
def Permits (queues : Config.Queues) (s : AggregationService) (e : ServiceEvent (Feed × Uuid)) :
    Prop :=
  e.Permitted queues.aggregatorIn s.contact s.toLine s.inHand

/-- The service at a new broker, before it ever connected. -/
def ofConfig (c : Config) : AggregationService := { toStation := .ofConfig c }

/-- The states that a run may get to. -/
def Reachable (c : Config) : AggregationService → Prop :=
  Reaches (Permits c.queues) act (ofConfig c)

/-- The service after a number of events. -/
def run (c : Config) (events : List (ServiceEvent (Feed × Uuid))) : AggregationService :=
  events.foldl act (ofConfig c)

/-- No event changes the settings of the link. -/
theorem act_settings (s : AggregationService) (e : ServiceEvent (Feed × Uuid)) :
    (s.act e).link.settings = s.link.settings := by
  cases e with
  | call c => rfl
  | connect => exact s.toLine.connect_settings s.contact
  | receive => exact congrArg Link.settings s.toLine.receive_link
  | ingest =>
      rw [act, Station.act]
      cases s.inHand[0]? with
      | none => rfl
      | some d => rfl
  | tick t =>
      rw [act]
      rcases s.toStation.tick_cases t.1 t.2 with heq | ⟨ch, beacon, -, heq⟩
      · rw [heq]
      · rw [heq]
        rfl
  | advance number =>
      rw [act, Station.advance]
      cases s.workers[number]? with
      | none => rfl
      | some w => rfl
  | lose => rfl

/-- Every event leaves the deliveries where they should be. -/
theorem custody_act {s : AggregationService} (h : s.toLine.Custody s.contact s.near s.tasks)
    {e : ServiceEvent (Feed × Uuid)}
    (he : e.Permitted s.link.settings.consumes s.contact s.toLine s.inHand) :
    (s.act e).toLine.Custody (s.act e).contact (s.act e).near (s.act e).tasks := by
  cases e with
  | call c => exact h.perform he
  | connect => exact h.connect he
  | receive => exact Station.custody_receive h
  | ingest => exact Station.custody_ingest h
  | tick t =>
      obtain ⟨hcontact, -⟩ := he
      rw [act, hcontact]
      rw [hcontact] at h
      exact Station.custody_tick h t.1 t.2
  | advance number => exact Station.custody_advance h number
  | lose =>
      obtain ⟨hcontact, hhand, hended⟩ := he
      have hnear : (s.act .lose).near = [] := by
        simp [act, Station.near, Aggregator.detach, Buffer.clear, hhand]
      rw [hnear]
      exact h.lose hcontact hended

/-- In every run the deliveries are where they should be. -/
theorem Reachable.custody {c : Config} {s : AggregationService} (h : Reachable c s) :
    s.toLine.Custody s.contact s.near s.tasks ∧ s.link.settings = c.aggregatorLink := by
  induction h with
  | start => exact ⟨.start _, rfl⟩
  | @next s e _ he ih =>
      obtain ⟨hcustody, hsettings⟩ := ih
      rw [Permits, show c.queues.aggregatorIn = s.link.settings.consumes by rw [hsettings]; rfl]
        at he
      exact ⟨custody_act hcustody he, (s.act_settings e).trans hsettings⟩

end AggregationService

/-! ### The calendar tier -/

/-- A job as a task. -/
def Finalizer.task (w : Finalizer) : Task := ⟨w.job.channel, w.job.handles, w.progress⟩

namespace CalendarStation

/-- The deliveries that the tier has itself. -/
def near (s : CalendarStation) : List Handle :=
  s.inHand.map Prod.fst ++ (s.chainer.pending.items.map PendingRoot.handle ++
    s.chainer.built.flatMap fun built => built.roots.map PendingRoot.handle)

/-- Its jobs as tasks. -/
def tasks (s : CalendarStation) : List Task := s.finalizers.map Finalizer.task

variable {k : Contact} {s : CalendarStation}

theorem custody_receive (h : s.toLine.Custody k s.near s.tasks) :
    s.receive.toLine.Custody k s.receive.near s.receive.tasks := by
  refine h.receive.perm ?_
  simp only [near, receive, List.map_append, List.append_assoc]
  refine List.Perm.append_left _ ?_
  rw [Option.toList_map, ← List.append_assoc]
  exact List.perm_append_comm

theorem custody_ingest (h : s.toLine.Custody k s.near s.tasks) :
    (s.act (.ingest 0)).toLine.Custody k (s.act (.ingest 0)).near (s.act (.ingest 0)).tasks := by
  rw [act]
  cases hhand : s.inHand with
  | nil => exact h
  | cons d rest =>
      have hnear : s.near = d.1 :: (rest.map Prod.fst ++
          (s.chainer.pending.items.map PendingRoot.handle ++
            s.chainer.built.flatMap fun built => built.roots.map PendingRoot.handle)) := by
        rw [near, hhand]
        rfl
      simp only [List.getElem?_cons_zero, List.eraseIdx_cons_zero]
      rw [ingest, Chainer.ingest, ingestCalls]
      cases Inbound.read d.2 with
      | ok inbound =>
          cases inbound with
          | aggregateRoot m =>
              refine h.perm ?_
              rw [hnear]
              simp only [near, Buffer.push, List.map_append, List.map_cons, List.map_nil,
                List.append_assoc, List.singleton_append]
              rw [← List.append_assoc, ← List.append_assoc (rest.map Prod.fst)]
              exact List.perm_middle.symm
          | anchorTx body => exact h.settle (hnear ▸ List.Perm.refl _) rfl
      | error e => exact h.settle (hnear ▸ List.Perm.refl _) rfl

theorem custody_tick (h : s.toLine.Custody k s.near s.tasks) (id : Uuid) :
    (s.tick id).toLine.Custody k (s.tick id).near (s.tick id).tasks := by
  rcases s.tick_cases id with heq | ⟨tree, -, heq⟩
  · rw [heq]
    exact h
  · rw [heq]
    refine h.perm ?_
    simp only [near, keep, ← s.nextBatch_append, List.map_append, List.flatMap_append,
      List.flatMap_cons, List.flatMap_nil, List.append_nil]
    refine List.Perm.append_left _ ?_
    -- The head of the buffer goes behind the trees.
    rw [List.append_assoc, ← List.append_assoc (List.map _ _) (List.flatMap _ _)]
    exact List.perm_append_comm

theorem custody_finalize (h : s.toLine.Custody .receiving s.near s.tasks) :
    s.finalize.toLine.Custody .receiving s.finalize.near s.finalize.tasks := by
  cases hch : s.link.channel with
  | none =>
      rw [finalize_of_none hch]
      exact h
  | some ch =>
      rw [finalize_of_some hch]
      let jobs := s.chainer.built.map fun built =>
        Finalizer.start (s.chainer.jobOf ch built) built.roots
      have hhandles : (jobs.map Finalizer.task).flatMap Task.handles =
          s.chainer.built.flatMap fun built => built.roots.map PendingRoot.handle := by
        rw [List.map_map, List.flatMap_map]
        rfl
      have hp : s.near.Perm (s.inHand.map Prod.fst ++ (s.chainer.pending.items.map
          PendingRoot.handle ++ []) ++ (jobs.map Finalizer.task).flatMap Task.handles) := by
        rw [hhandles, near, List.append_nil, List.append_assoc]
      have hassigned := h.assign hp (by
        intro v hv
        obtain ⟨w, hw, rfl⟩ := List.mem_map.1 hv
        obtain ⟨built, -, rfl⟩ := List.mem_map.1 hw
        exact ⟨hch, rfl⟩)
      rw [tasks, ← List.map_append] at hassigned
      exact hassigned

/-- A job that makes its next call is the task that does. -/
theorem tasks_advance {number : Nat} {w : Finalizer} (hw : s.finalizers[number]? = some w) :
    s.tasks[number]? = some w.task ∧
      (s.advance number).tasks = s.tasks.set number (w.task.advance s.toLine.broker) := by
  constructor
  · rw [tasks, List.getElem?_map, hw]
    rfl
  · rw [advance_of_getElem? hw, tasks, tasks, List.map_set]
    rfl

theorem custody_advance (h : s.toLine.Custody k s.near s.tasks) (number : Nat) :
    (s.advance number).toLine.Custody k (s.advance number).near (s.advance number).tasks := by
  cases hw : s.finalizers[number]? with
  | none =>
      rw [advance, hw]
      exact h
  | some w =>
      obtain ⟨htask, htasks⟩ := tasks_advance hw
      rw [htasks, advance_of_getElem? hw]
      exact h.advance htask

end CalendarStation

/-- The ticks of the calendar tier. -/
inductive CalendarTick where
  /-- A tree is built. -/
  | build (id : Uuid)
  /-- The jobs of all built trees are handed out. -/
  | finalize

/-- The calendar tier in its loop. -/
structure CalendarService extends CalendarStation where
  contact : Contact := .away

namespace CalendarService

/-- What comes of an event.  When the stream has ended, the channel is given up before pending roots
and built trees are forgotten. -/
def act (s : CalendarService) : ServiceEvent CalendarTick → CalendarService
  | .call c => { s with toCalendarStation := s.toCalendarStation.act (.call c) }
  | .connect =>
    { toCalendarStation := { s.toCalendarStation with toLine := (s.toLine.connect s.contact).2 }
      contact := (s.toLine.connect s.contact).1 }
  | .receive => { s with toCalendarStation := s.toCalendarStation.receive }
  | .ingest => { s with toCalendarStation := s.toCalendarStation.act (.ingest 0) }
  | .tick (.build id) => { s with toCalendarStation := s.toCalendarStation.tick id }
  | .tick .finalize => { s with toCalendarStation := s.toCalendarStation.finalize }
  | .advance number => { s with toCalendarStation := s.toCalendarStation.advance number }
  | .lose =>
    { toCalendarStation :=
        { s.toCalendarStation with toLine := s.toLine.hangUp, chainer := s.chainer.detach }
      contact := .away }

/-- Whether an event may happen. -/
def Permits (queues : Config.Queues) (s : CalendarService) (e : ServiceEvent CalendarTick) : Prop :=
  e.Permitted queues.calendarIn s.contact s.toLine s.inHand

/-- The service at a new broker, before it ever connected. -/
def ofConfig (c : Config) : CalendarService := { toCalendarStation := .ofConfig c }

/-- The states that a run may get to. -/
def Reachable (c : Config) : CalendarService → Prop := Reaches (Permits c.queues) act (ofConfig c)

/-- The service after a number of events. -/
def run (c : Config) (events : List (ServiceEvent CalendarTick)) : CalendarService :=
  events.foldl act (ofConfig c)

/-- No event changes the settings of the link. -/
theorem act_settings (s : CalendarService) (e : ServiceEvent CalendarTick) :
    (s.act e).link.settings = s.link.settings := by
  cases e with
  | call c => rfl
  | connect => exact s.toLine.connect_settings s.contact
  | receive => exact congrArg Link.settings s.toLine.receive_link
  | ingest =>
      rw [act, CalendarStation.act]
      cases s.inHand[0]? with
      | none => rfl
      | some d => rfl
  | tick t =>
      cases t with
      | build id => rfl
      | finalize => rfl
  | advance number =>
      rw [act, CalendarStation.advance]
      cases s.finalizers[number]? with
      | none => rfl
      | some w => rfl
  | lose => rfl

/-- Every event leaves the deliveries where they should be. -/
theorem custody_act {s : CalendarService} (h : s.toLine.Custody s.contact s.near s.tasks)
    {e : ServiceEvent CalendarTick}
    (he : e.Permitted s.link.settings.consumes s.contact s.toLine s.inHand) :
    (s.act e).toLine.Custody (s.act e).contact (s.act e).near (s.act e).tasks := by
  cases e with
  | call c => exact h.perform he
  | connect => exact h.connect he
  | receive => exact CalendarStation.custody_receive h
  | ingest => exact CalendarStation.custody_ingest h
  | tick t =>
      cases t with
      | build id => exact CalendarStation.custody_tick h id
      | finalize =>
          obtain ⟨hcontact, -⟩ := he
          rw [act, hcontact]
          rw [hcontact] at h
          exact CalendarStation.custody_finalize h
  | advance number => exact CalendarStation.custody_advance h number
  | lose =>
      obtain ⟨hcontact, hhand, hended⟩ := he
      have hnear : (s.act .lose).near = [] := by
        simp [act, CalendarStation.near, Chainer.detach, Buffer.clear, hhand]
      rw [hnear]
      exact h.lose hcontact hended

/-- In every run the deliveries are where they should be. -/
theorem Reachable.custody {c : Config} {s : CalendarService} (h : Reachable c s) :
    s.toLine.Custody s.contact s.near s.tasks ∧ s.link.settings = c.calendarLink := by
  induction h with
  | start => exact ⟨.start _, rfl⟩
  | @next s e _ he ih =>
      obtain ⟨hcustody, hsettings⟩ := ih
      rw [Permits, show c.queues.calendarIn = s.link.settings.consumes by rw [hsettings]; rfl] at he
      exact ⟨custody_act hcustody he, (s.act_settings e).trans hsettings⟩

end CalendarService

end HashCalendar
