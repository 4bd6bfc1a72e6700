/-
**Overlapping jobs of a service.**

A service may prepare a job before an earlier one is carried out, so that several jobs of a tier
wait at a time.  All of them could be prepared, and they publish to the queues of their tier only.
As long as the tier does not publish to the queue that it consumes, it makes no difference in which
order the jobs are carried out: neither to what is acknowledged and what is enqueued in all, nor to
what the consumer of the tier gets next.

Main definitions:

* `HashCalendar.Job.PublishesTo` — a job that could be prepared, with the queues that it publishes
  to;
* `HashCalendar.Tandem.waiting` — the jobs of a service that wait to be carried out.

Main results:

* `HashCalendar.Tandem.publishesTo_of_mem_waiting` — **a waiting job publishes to the queues of its
  tier, and they are there**;
* `HashCalendar.overlapping_jobs_are_independent` — **overlapping jobs are independent**.
-/

import HashCalendar.Proofs.Batch.Overlap
import HashCalendar.Proofs.Pipeline.Reasons
import HashCalendar.Proofs.Pipeline.Separation
import Mathlib.Data.List.Pairwise

set_option relaxedAutoImplicit false
set_option autoImplicit false

namespace HashCalendar

/-! ### What the jobs of a service publish to -/

/-- A job that could be prepared and publishes to some queues only. -/
def Job.PublishesTo (queues : List String) (job : Job) : Prop :=
  ∃ messages, job.messages? = some messages ∧ ∀ m ∈ messages, m.queue ∈ queues

theorem Job.PublishesTo.mem_sent {queues : List String} {job : Job} (h : job.PublishesTo queues) :
    ∀ p ∈ job.sent, p.1 ∈ queues := by
  obtain ⟨messages, hmessages, hqueues⟩ := h
  intro p hp
  rw [Job.sent, hmessages] at hp
  obtain ⟨m, hm, rfl⟩ := List.mem_map.1 hp
  exact hqueues m hm

namespace AggregationService

/-- A job of the tier is one that it had before, or a tick hands it out. -/
theorem mem_workers_act {s : AggregationService} {e : ServiceEvent (Feed × Uuid)} {w : Worker}
    (hw : w ∈ (s.act e).workers) :
    (∃ v ∈ s.workers, v.job = w.job) ∨
      ∃ feed id, (s.aggregator.tick s.link.channel feed id).2 = some w.job := by
  cases e with
  | call c => exact Or.inl ⟨w, hw, rfl⟩
  | connect => exact Or.inl ⟨w, hw, rfl⟩
  | receive => exact Or.inl ⟨w, hw, rfl⟩
  | ingest =>
      rw [act, Station.act] at hw
      cases hd : s.inHand[0]? with
      | none =>
          rw [hd] at hw
          exact Or.inl ⟨w, hw, rfl⟩
      | some d =>
          rw [hd] at hw
          exact Or.inl ⟨w, hw, rfl⟩
  | tick t =>
      rw [act, Station.tick] at hw
      cases htick : s.aggregator.tick s.link.channel t.1 t.2 with
      | mk aggregator job =>
          rw [htick] at hw
          cases job with
          | none => exact Or.inl ⟨w, hw, rfl⟩
          | some job =>
              rcases List.mem_append.1 hw with hw | hw
              · exact Or.inl ⟨w, hw, rfl⟩
              · obtain rfl := List.mem_singleton.1 hw
                exact Or.inr ⟨t.1, t.2, congrArg Prod.snd htick⟩
  | advance number =>
      rw [act, Station.advance] at hw
      cases hv : s.workers[number]? with
      | none =>
          rw [hv] at hw
          exact Or.inl ⟨w, hw, rfl⟩
      | some v =>
          rw [hv] at hw
          rcases List.mem_or_eq_of_mem_set hw with hw | rfl
          · exact Or.inl ⟨w, hw, rfl⟩
          · exact Or.inl ⟨v, List.mem_of_getElem? hv, rfl⟩
  | lose => exact Or.inl ⟨w, hw, rfl⟩

/-- Every job of the tier could be prepared and publishes to the queues of the tier. -/
theorem publishesTo_run {c : Config} (hc : c.validate = .ok ())
    (events : List (ServiceEvent (Feed × Uuid))) :
    ∀ w ∈ (run c events).workers,
      (Job.aggregation w.job).PublishesTo (c.queues.publishedTo .aggregation) := by
  induction events using List.reverseRecOn with
  | nil => simp [run, ofConfig, Station.ofConfig]
  | append_singleton events e ih =>
      intro w hw
      have hready := ready_run hc events
      rw [run, List.foldl_append] at hw
      change w ∈ ((run c events).act e).workers at hw
      rcases mem_workers_act hw with ⟨v, hv, heq⟩ | ⟨feed, id, htick⟩
      · exact heq ▸ ih v hv
      · have hmax := (Config.maxBatchSize_pos hc).1
        rw [← hready.config] at hmax
        rcases (run c events).aggregator.tick_cases _ feed id hmax with
          hnone | ⟨job, tree, batch, hjob, -, hprepared⟩
        · rw [hnone] at htick
          cases htick
        · obtain rfl : job = w.job := Option.some.inj (hjob.symm.trans htick)
          refine ⟨tree.messages (run c events).aggregator.queues batch, ?_, fun m hm => ?_⟩
          · rw [Job.messages?, hprepared]
            rfl
          · rw [← hready.queues]
            exact AggregationTree.queue_of_mem_messages hm

end AggregationService

namespace CalendarService

/-- A job of the tier is one that it had before, or it is that of a built tree. -/
theorem mem_finalizers_act {s : CalendarService} {e : ServiceEvent CalendarTick} {w : Finalizer}
    (hw : w ∈ (s.act e).finalizers) :
    (∃ v ∈ s.finalizers, v.job = w.job) ∨ ∃ ch built, w.job = s.chainer.jobOf ch built := by
  cases e with
  | call c => exact Or.inl ⟨w, hw, rfl⟩
  | connect => exact Or.inl ⟨w, hw, rfl⟩
  | receive => exact Or.inl ⟨w, hw, rfl⟩
  | ingest =>
      rw [act, CalendarStation.act] at hw
      cases hd : s.inHand[0]? with
      | none =>
          rw [hd] at hw
          exact Or.inl ⟨w, hw, rfl⟩
      | some d =>
          rw [hd] at hw
          exact Or.inl ⟨w, hw, rfl⟩
  | tick t =>
      cases t with
      | build id => exact Or.inl ⟨w, hw, rfl⟩
      | finalize =>
          rw [act] at hw
          cases hch : s.link.channel with
          | none =>
              rw [CalendarStation.finalize_of_none hch] at hw
              exact Or.inl ⟨w, hw, rfl⟩
          | some ch =>
              rw [CalendarStation.finalize_of_some hch] at hw
              rcases List.mem_append.1 hw with hw | hw
              · exact Or.inl ⟨w, hw, rfl⟩
              · obtain ⟨built, -, rfl⟩ := List.mem_map.1 hw
                exact Or.inr ⟨ch, built, rfl⟩
  | advance number =>
      rw [act, CalendarStation.advance] at hw
      cases hv : s.finalizers[number]? with
      | none =>
          rw [hv] at hw
          exact Or.inl ⟨w, hw, rfl⟩
      | some v =>
          rw [hv] at hw
          rcases List.mem_or_eq_of_mem_set hw with hw | rfl
          · exact Or.inl ⟨w, hw, rfl⟩
          · exact Or.inl ⟨v, List.mem_of_getElem? hv, rfl⟩
  | lose => exact Or.inl ⟨w, hw, rfl⟩

/-- Every job of the tier publishes to a queue of the tier. -/
theorem publishesTo_run (c : Config) (events : List (ServiceEvent CalendarTick)) :
    ∀ w ∈ (run c events).finalizers,
      (Job.finalize w.job).PublishesTo (c.queues.publishedTo .calendar) := by
  induction events using List.reverseRecOn with
  | nil => simp [run, ofConfig, CalendarStation.ofConfig]
  | append_singleton events e ih =>
      intro w hw
      rw [run, List.foldl_append] at hw
      change w ∈ ((run c events).act e).finalizers at hw
      rcases mem_finalizers_act hw with ⟨v, hv, heq⟩ | ⟨ch, built, heq⟩
      · exact heq ▸ ih v hv
      · refine ⟨_, rfl, fun m hm => ?_⟩
        rw [heq] at hm
        rw [CalendarTree.queue_of_mem_messages hm, (ready_run c events).queues]
        exact List.mem_cons_self

end CalendarService

namespace Tandem

/-- The jobs of a service that wait to be carried out: they have not made a call yet. -/
def waiting (s : Tandem) : Tier → List Job
  | .aggregation =>
    (s.aggregation.workers.filter fun w => w.progress = Job.start (.aggregation w.job)).map
      fun w => .aggregation w.job
  | .calendar =>
    (s.calendar.finalizers.filter fun w => w.progress = Job.start (.finalize w.job)).map
      fun w => .finalize w.job

/-- A waiting job is a task at its start. -/
theorem exists_task {s : Tandem} {tier : Tier} {job : Job} (h : job ∈ s.waiting tier) :
    ∃ w ∈ s.tasks tier, w.progress = job.start := by
  cases tier with
  | aggregation =>
      obtain ⟨w, hw, rfl⟩ := List.mem_map.1 h
      obtain ⟨hmem, hstart⟩ := List.mem_filter.1 hw
      exact ⟨w.task, List.mem_map_of_mem hmem, of_decide_eq_true hstart⟩
  | calendar =>
      obtain ⟨w, hw, rfl⟩ := List.mem_map.1 h
      obtain ⟨hmem, hstart⟩ := List.mem_filter.1 hw
      exact ⟨w.task, List.mem_map_of_mem hmem, of_decide_eq_true hstart⟩

/-- A waiting job could be prepared and publishes to the queues of its tier, and they are there. -/
theorem publishesTo_of_mem_waiting {c : Config} (hc : c.validate = .ok ()) (events : List Event)
    {tier : Tier} {job : Job} (h : job ∈ (run c events).waiting tier) :
    job.PublishesTo (c.queues.publishedTo tier) ∧
      ∀ messages, job.messages? = some messages →
        ∀ m ∈ messages, (run c events).broker.IsDeclared m.queue := by
  obtain ⟨-, ⟨as, has⟩, ⟨bs, hbs⟩⟩ := exists_runs c events
  have hready := ready_run hc events
  constructor
  · cases tier with
    | aggregation =>
        obtain ⟨w, hw, rfl⟩ := List.mem_map.1 h
        have hmem := List.mem_of_mem_filter hw
        rw [has] at hmem
        exact AggregationService.publishesTo_run hc as w hmem
    | calendar =>
        obtain ⟨w, hw, rfl⟩ := List.mem_map.1 h
        have hmem := List.mem_of_mem_filter hw
        rw [hbs] at hmem
        exact CalendarService.publishesTo_run c bs w hmem
  · intro messages hmessages
    obtain ⟨w, hw, hstart⟩ := exists_task h
    obtain ⟨k, hsupplies⟩ := hready.supplies tier
    have hsupplied := hsupplies.tasks w hw
    rw [hstart, Job.start, hmessages, hready.line_broker tier] at hsupplied
    exact hsupplied

/-- A run is a number of calls to a new broker. -/
theorem exists_trackedRun (c : Config) (events : List Event) :
    ∃ calls, (run c events).tracked = trackedRun calls := by
  induction events using List.reverseRecOn with
  | nil => exact ⟨[], rfl⟩
  | append_singleton events e ih =>
      obtain ⟨calls, hcalls⟩ := ih
      obtain ⟨more, hmore⟩ := exists_act_tracked (exists_runs c events).1 e
      refine ⟨calls ++ more, ?_⟩
      rw [run_concat, hmore, hcalls, trackedRun, trackedRun, Tracked.performAll_append]

end Tandem

/-- **Overlapping jobs are independent.**  Where a configuration was accepted, let jobs of a tier
wait to be carried out, at any moment of any run of both services.  Let their channels be of one
connection that is open, and their deliveries distinct and unacknowledged.

* When one of the jobs is carried out and the connection does not close, each delivery of the others
  is still unacknowledged, under the same tag and with the same message, whatever fails.
* If publishing is not limited, the connection is not going to close, and the tier does not publish
  to the queue that it consumes, then the jobs can be carried out in any order.  All their
  deliveries count as acknowledged, and they are gone from the broker.  The messages of all jobs are
  enqueued, in the order of the jobs.  The messages that are handed over meanwhile to the consumer
  of the tier, and those that wait in its queue afterwards, are the same in every order. -/
theorem overlapping_jobs_are_independent {c : Config} (hc : c.validate = .ok ())
    (events : List Tandem.Event) {tier : Tier} {jobs : List Job} {generation : Nat}
    (hjobs : jobs ⊆ (Tandem.run c events).waiting tier)
    (hchannel : ∀ job ∈ jobs, job.channel.generation = generation)
    (hopen : (Tandem.run c events).broker.isOpen generation = true)
    (hnodup : (jobs.flatMap Job.handles).Nodup)
    (hheld : ∀ h ∈ jobs.flatMap Job.handles,
      ∃ u ∈ (Tandem.run c events).broker.unacked, u.handle = h) :
    let t := (Tandem.run c events).tracked
    let b := t.broker
    let inbound := c.queues.consumedBy tier
    (∀ job ∈ jobs, (job.work b).1.generation = b.generation →
      ∀ other ∈ jobs, other ≠ job → ∀ u ∈ b.unacked, u.handle ∈ other.handles →
        u ∈ (job.work b).1.unacked) ∧
    (b.budget = none → b.closeAfter = none → inbound ∉ c.queues.publishedTo tier →
      (∀ job ∈ jobs, ∀ p ∈ job.sent, p.1 ∈ c.queues.publishedTo tier) ∧
      ∃ further rest, ∀ order : List Job, order.Perm jobs →
        let t' := t.performAll (Job.callsAll b order)
        t'.broker = (Job.workAll b order).1 ∧
        (Job.workAll b order).2 = order.map (fun job => .acked job.handles.length) ∧
        (∀ u ∈ b.unacked, u.handle ∈ jobs.flatMap Job.handles → t'.broker.IsGone u) ∧
        t'.delivered inbound = t.delivered inbound ++ further ∧
        t'.broker.ready inbound = rest ∧
        t'.ledger.arrived = t.ledger.arrived ++ order.flatMap Job.sent ∧
        (order.flatMap Job.sent).Perm (jobs.flatMap Job.sent)) := by
  intro t b inbound
  obtain ⟨calls, hcalls⟩ := Tandem.exists_trackedRun c events
  have hsettle : t.CanSettle (jobs.flatMap Job.handles) := by
    change (Tandem.run c events).tracked.CanSettle _
    rw [Tandem.broker, hcalls] at hopen hheld
    rw [hcalls]
    exact canSettle_trackedRun hopen hnodup hheld
  constructor
  · intro job hjob hgeneration other hother hne u hu hhandle
    refine job.mem_unacked_work hsettle.sound hgeneration hu fun hown => ?_
    have hsymm : Std.Symm (Function.onFun List.Disjoint Job.handles) :=
      ⟨fun _ _ h => List.disjoint_symm h⟩
    exact (List.nodup_flatMap.1 hnodup).2.forall hjob hother hne.symm hown hhandle
  · intro hbudget hclose hinbound
    have hpublishes := fun job hjob =>
      Tandem.publishesTo_of_mem_waiting hc events (hjobs (a := job) hjob)
    have hwork : t.CanWork jobs := by
      refine ⟨?_, hbudget, hclose, ?_, hsettle, ?_⟩
      · change (Tandem.run c events).tracked.Current
        rw [hcalls]
        exact current_trackedRun calls
      · exact fun job hjob => (hchannel job hjob).symm ▸ hopen
      · intro job hjob
        obtain ⟨⟨messages, hmessages, -⟩, hdeclared⟩ := hpublishes job hjob
        exact ⟨messages, hmessages, hdeclared messages hmessages⟩
    have houtput : ∀ job ∈ jobs, ∀ p ∈ job.sent, p.1 ∈ c.queues.publishedTo tier :=
      fun job hjob => (hpublishes job hjob).1.mem_sent
    -- What the inbound queue looks like in the end is the same for all orders.
    let count := b.countOf inbound (jobs.flatMap Job.handles)
    let last := Broker.Outlook.acked^[count] (t.outlook inbound)
    obtain ⟨further, hfurther⟩ := (t.outlook inbound).delivered_iterate_acked count
    refine ⟨houtput, further, last.ready, fun order horder => ?_⟩
    have hperm := hwork.perm horder.symm
    obtain ⟨houtcomes, harrived⟩ := hperm.all
    have hlast : (t.performAll (Job.callsAll b order)).outlook inbound = last := by
      have hcount : b.countOf inbound (order.flatMap Job.handles) = count :=
        (horder.flatMap_right _).countP_eq _
      have hqueues : ∀ job ∈ order, ∀ p ∈ job.sent, p.1 ≠ inbound := fun job hjob p hp hp' =>
        hinbound (hp' ▸ houtput job (horder.mem_iff.1 hjob) p hp)
      rw [hperm.outlook_all hqueues]
      exact congrArg (Broker.Outlook.acked^[·] (t.outlook inbound)) hcount
    refine ⟨?_, houtcomes, ?_, ?_, congrArg Broker.Outlook.ready hlast, harrived,
      horder.flatMap_right _⟩
    · rw [Tracked.performAll_broker, Job.performAll_callsAll]
    · intro u hu hhandle
      have hmem := (horder.symm.flatMap_right _).mem_iff.1 hhandle
      exact (hsettle.sound.performAll _).isGone (hperm.mem_acked_all hu hmem)
    · exact (congrArg Broker.Outlook.delivered hlast).trans hfurther.symm

/-- A consumer gets two messages at a time. -/
def twoInHand : Config := { connection := { prefetch := 2 } }

/-- The aggregation tier connects, three submissions come in, and the tier prepares a job over each
of the first two. -/
def prepareTwo : List Tandem.Event :=
  List.replicate 6 (.aggregation .connect) ++
    List.replicate 3 (.aggregation (.call (.inject "work.agg" zeroSubmission))) ++
    [.aggregation .receive, .aggregation .ingest, .aggregation (.tick ({}, .zero)),
      .aggregation .receive, .aggregation .ingest, .aggregation (.tick ({}, .zero))]

/-- Neither job settles the delivery of the other.  In both orders all is acknowledged, and the
third submission is handed over. -/
theorem two_jobs_in_any_order :
    let t := (Tandem.run twoInHand prepareTwo).tracked
    let jobs := (Tandem.run twoInHand prepareTwo).waiting .aggregation
    (∀ job ∈ jobs, ∀ other ∈ jobs, other ≠ job → ∀ u ∈ t.broker.unacked,
      u.handle ∈ other.handles → u ∈ (job.work t.broker).1.unacked) ∧
    (Job.workAll t.broker jobs).2 = [.acked 1, .acked 1] ∧
    (Job.workAll t.broker jobs.reverse).2 = [.acked 1, .acked 1] ∧
    ((t.performAll (Job.callsAll t.broker jobs)).delivered "work.agg").map Message.serial =
      [0, 1, 2] ∧
    ((t.performAll (Job.callsAll t.broker jobs.reverse)).delivered "work.agg").map
      Message.serial = [0, 1, 2] := by
  intro t jobs
  have hdata : jobs.map (fun job => (job.channel.generation, job.handles)) =
        [(0, [⟨0, 1⟩]), (0, [⟨0, 2⟩])] ∧
      t.broker.isOpen 0 = true ∧ t.broker.budget = none ∧ t.broker.closeAfter = none ∧
      (∀ h ∈ jobs.flatMap Job.handles, ∃ u ∈ t.broker.unacked, u.handle = h) ∧
      (∀ job ∈ jobs, (job.work t.broker).1.generation = t.broker.generation) ∧
      ((t.performAll (Job.callsAll t.broker jobs)).delivered "work.agg").map Message.serial =
        [0, 1, 2] := by
    decide +kernel
  obtain ⟨hjobs, hopen, hbudget, hclose, hheld, hgeneration, hserials⟩ := hdata
  have hchannel : ∀ job ∈ jobs, job.channel.generation = 0 := by
    intro job hjob
    have hmem : (job.channel.generation, job.handles) ∈
        [((0 : Nat), [(⟨0, 1⟩ : Handle)]), (0, [⟨0, 2⟩])] := hjobs ▸ List.mem_map_of_mem hjob
    rcases List.mem_pair.1 hmem with heq | heq
    · exact congrArg Prod.fst heq
    · exact congrArg Prod.fst heq
  have hhandles : jobs.map Job.handles = [[⟨0, 1⟩], [⟨0, 2⟩]] := by
    have hsnd := congrArg (List.map Prod.snd) hjobs
    rwa [List.map_map] at hsnd
  have hnodup : (jobs.flatMap Job.handles).Nodup := by
    rw [List.flatMap_def, hhandles]
    decide
  have hvalid : twoInHand.validate = .ok () := by decide
  obtain ⟨hspared, hall⟩ := overlapping_jobs_are_independent hvalid prepareTwo
    (List.Subset.refl _) hchannel hopen hnodup hheld
  obtain ⟨-, further, rest, horders⟩ := hall hbudget hclose (by decide)
  obtain ⟨-, houtcomes, -, hdelivered, -⟩ := horders jobs (.refl _)
  obtain ⟨-, houtcomes', -, hdelivered', -⟩ := horders jobs.reverse (List.reverse_perm _)
  have hacked : jobs.map (fun job => Outcome.acked job.handles.length) = [.acked 1, .acked 1] := by
    have hlengths := congrArg (List.map fun hs => Outcome.acked (List.length hs)) hhandles
    rwa [List.map_map] at hlengths
  refine ⟨fun job hjob => hspared job hjob (hgeneration job hjob), houtcomes.trans hacked, ?_,
    hserials, ?_⟩
  · refine houtcomes'.trans ?_
    rw [List.map_reverse, hacked]
    rfl
  · exact (congrArg (List.map Message.serial) (hdelivered'.trans hdelivered.symm)).trans hserials

end HashCalendar
