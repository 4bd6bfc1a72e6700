/-
**Where the deliveries of a service are.**

A service never mixes connections, and it never loses sight of a delivery.  While it works at ticks,
all that it has in its buffers arrived on the channel that is shared, so each of its jobs publishes
on the connection on which the deliveries arrived that the job settles.  And whatever happens, each
unacknowledged delivery of its queue is in one place: in the stream, in hand, in a buffer or in a
job.

Main definitions:

* `HashCalendar.AggregationService.held`, `HashCalendar.CalendarService.held` — all that a service
  holds.

Main results:

* `HashCalendar.deliveries_held_once_on_their_connection` — **where the deliveries of both services
  are, in every run**.
-/

import HashCalendar.Proofs.Aggregation.Discipline
import HashCalendar.Proofs.Calendar.Exclusivity
import HashCalendar.Proofs.Pipeline.Loops

set_option relaxedAutoImplicit false
set_option autoImplicit false

namespace HashCalendar

/-- All deliveries that the service holds: they wait in its stream, are in hand, are pending, or
belong to a job that has not settled them yet. -/
def AggregationService.held (s : AggregationService) : List Handle :=
  s.undelivered ++ (s.inHand.map Prod.fst ++
    s.aggregator.pending.items.map PendingSubmission.handle) ++
      s.workers.flatMap fun w => w.progress.outstanding w.job.handles

/-- All deliveries that the service holds: they wait in its stream, are in hand, are pending, belong
to a tree that was built, or to a job that has not settled them yet. -/
def CalendarService.held (s : CalendarService) : List Handle :=
  s.undelivered ++ (s.inHand.map Prod.fst ++ (s.chainer.pending.items.map PendingRoot.handle ++
    s.chainer.built.flatMap fun built => built.roots.map PendingRoot.handle)) ++
      s.finalizers.flatMap fun w => w.progress.outstanding w.job.handles

namespace Line.Custody

variable {k : Contact} {l : Line} {near : List Handle} {tasks : List Task}

/-- What a component has itself while it receives arrived on the connection of the channel that is
shared; a task has this channel or that of an earlier connection. -/
theorem exists_channel (h : l.Custody k near tasks) (hk : k = .receiving) :
    ∃ ch, l.link.channel = some ch ∧ (∀ g ∈ near, g.generation = ch.generation) ∧
      ∀ w ∈ tasks, w.channel = ch ∨ w.channel.generation < ch.generation := by
  obtain ⟨r, ch, hj⟩ := h.place.resolve_left fun ha => ha.contact hk
  exact ⟨ch, hj.channel, hj.bound, hj.earlier⟩

/-- Every unacknowledged delivery of the queue is held once. -/
theorem count_eq_one (h : l.Custody k near tasks) {u : Broker.Unacked} (hu : u ∈ l.broker.unacked)
    (hqueue : u.queue = l.link.settings.consumes) :
    (l.undelivered ++ Line.held near tasks).count u.handle = 1 :=
  List.count_eq_one_of_mem h.nodup_all (h.mem_all hu hqueue)

end Line.Custody

/-- **Where deliveries are.**  In every run of one of the two services, whatever the others call who
leave its queue to it, and however its own calls and those of its jobs are interleaved with theirs:

* while the service receives, the deliveries that are pending, and those of built trees, arrived on
  the connection of the channel that is shared; a job has this very channel or that of an earlier
  connection;
* the deliveries of each job arrived on the connection of the channel of the job;
* no delivery is held twice, and every unacknowledged delivery of the queue is held once. -/
theorem deliveries_held_once_on_their_connection (c : Config) :
    (∀ s, AggregationService.Reachable c s →
      (s.contact = .receiving → ∃ ch, s.link.channel = some ch ∧
        (∀ p ∈ s.aggregator.pending.items, p.handle.generation = ch.generation) ∧
        ∀ w ∈ s.workers, w.job.channel = ch ∨ w.job.channel.generation < ch.generation) ∧
      (∀ w ∈ s.workers, ∀ h ∈ w.job.handles, h.generation = w.job.channel.generation) ∧
      s.held.Nodup ∧
      ∀ u ∈ s.broker.unacked, u.queue = c.queues.aggregatorIn → s.held.count u.handle = 1) ∧
    ∀ s, CalendarService.Reachable c s →
      (s.contact = .receiving → ∃ ch, s.link.channel = some ch ∧
        (∀ p ∈ s.chainer.pending.items, p.handle.generation = ch.generation) ∧
        (∀ built ∈ s.chainer.built, ∀ p ∈ built.roots, p.handle.generation = ch.generation) ∧
        ∀ w ∈ s.finalizers, w.job.channel = ch ∨ w.job.channel.generation < ch.generation) ∧
      (∀ w ∈ s.finalizers, ∀ h ∈ w.job.handles, h.generation = w.job.channel.generation) ∧
      s.held.Nodup ∧
      ∀ u ∈ s.broker.unacked, u.queue = c.queues.calendarIn → s.held.count u.handle = 1 := by
  constructor
  · intro s hs
    obtain ⟨h, hsettings⟩ := hs.custody
    have hheld : s.held = s.undelivered ++ Line.held s.near s.tasks := by
      rw [AggregationService.held, Line.held, Station.near, Station.tasks, List.flatMap_map,
        List.append_assoc]
      rfl
    refine ⟨?_, ?_, ?_, ?_⟩
    · intro hk
      obtain ⟨ch, hch, hnear, hearlier⟩ := h.exists_channel hk
      refine ⟨ch, hch, ?_, fun w hw => hearlier w.task (List.mem_map_of_mem hw)⟩
      exact fun p hp => hnear _ (List.mem_append_right _ (List.mem_map_of_mem hp))
    · exact fun w hw => h.bound w.task (List.mem_map_of_mem hw)
    · exact hheld ▸ h.nodup_all
    · intro u hu hqueue
      rw [hheld]
      refine h.count_eq_one hu (hqueue.trans ?_)
      rw [show s.link.settings = c.aggregatorLink from hsettings]
      rfl
  · intro s hs
    obtain ⟨h, hsettings⟩ := hs.custody
    have hheld : s.held = s.undelivered ++ Line.held s.near s.tasks := by
      rw [CalendarService.held, Line.held, CalendarStation.near, CalendarStation.tasks,
        List.flatMap_map, List.append_assoc]
      rfl
    refine ⟨?_, ?_, ?_, ?_⟩
    · intro hk
      obtain ⟨ch, hch, hnear, hearlier⟩ := h.exists_channel hk
      refine ⟨ch, hch, ?_, ?_, fun w hw => hearlier w.task (List.mem_map_of_mem hw)⟩
      · intro p hp
        exact hnear _ (List.mem_append_right _ (List.mem_append_left _ (List.mem_map_of_mem hp)))
      · intro built hbuilt p hp
        refine hnear _ (List.mem_append_right _ (List.mem_append_right _ ?_))
        exact List.mem_flatMap.2 ⟨built, hbuilt, List.mem_map_of_mem hp⟩
    · exact fun w hw => h.bound w.task (List.mem_map_of_mem hw)
    · exact hheld ▸ h.nodup_all
    · intro u hu hqueue
      rw [hheld]
      refine h.count_eq_one hu (hqueue.trans ?_)
      rw [hsettings]
      rfl

/-- The aggregation tier takes in two submissions, the first of them into a job.  Its connection
closes, it connects again, and takes in the first submission once more. -/
def submitAgain : List (ServiceEvent (Feed × Uuid)) :=
  List.replicate 6 .connect ++
    [.call (.inject "work.agg" zeroSubmission), .receive, .ingest, .tick ({}, .zero),
      .call (.inject "work.agg" zeroSubmission), .receive, .ingest, .call .closeNow, .lose] ++
    List.replicate 6 .connect ++ [.receive, .ingest]

/-- The calendar tier takes in two aggregate roots, the first of them into a tree and a job.  Its
connection closes, it connects again, and takes in the first root once more, into a tree. -/
def buildAgain : List (ServiceEvent CalendarTick) :=
  List.replicate 6 .connect ++
    [.call (.inject "work.cal" loneRoot), .receive, .ingest, .tick (.build .zero), .tick .finalize,
      .call (.inject "work.cal" loneRoot), .receive, .ingest, .call .closeNow, .lose] ++
    List.replicate 6 .connect ++ [.receive, .ingest, .tick (.build .zero)]

theorem reachable_submitAgain : AggregationService.Reachable {} (.run {} submitAgain) := by
  refine Reaches.foldl .start ?_
  simp only [submitAgain, List.replicate, List.cons_append, List.nil_append, PermitsAll,
    AggregationService.Permits, ServiceEvent.Permitted, Broker.Rules.Allows, Broker.Policy.Allows,
    Broker.Rules.alone, true_and, and_true]
  decide +kernel

theorem reachable_buildAgain : CalendarService.Reachable {} (.run {} buildAgain) := by
  refine Reaches.foldl .start ?_
  simp only [buildAgain, List.replicate, List.cons_append, List.nil_append, PermitsAll,
    CalendarService.Permits, ServiceEvent.Permitted, Broker.Rules.Allows, Broker.Policy.Allows,
    Broker.Rules.alone, true_and, and_true]
  decide +kernel

/-- After connecting again the old delivery is in its job and the new ones are elsewhere. -/
theorem deliveries_located_after_reconnecting :
    (AggregationService.Reachable {} (.run {} submitAgain) ∧
      (AggregationService.run {} submitAgain).held = [⟨1, 4⟩, ⟨1, 3⟩, ⟨0, 1⟩] ∧
      (AggregationService.run {} submitAgain).broker.unacked.map Broker.Unacked.handle =
        [⟨1, 3⟩, ⟨1, 4⟩] ∧
      (∀ u ∈ (AggregationService.run {} submitAgain).broker.unacked,
        u.queue = ({} : Config).queues.aggregatorIn →
          (AggregationService.run {} submitAgain).held.count u.handle = 1)) ∧
    CalendarService.Reachable {} (.run {} buildAgain) ∧
      (CalendarService.run {} buildAgain).held = [⟨1, 4⟩, ⟨1, 3⟩, ⟨0, 1⟩] ∧
      (CalendarService.run {} buildAgain).broker.unacked.map Broker.Unacked.handle =
        [⟨1, 3⟩, ⟨1, 4⟩] ∧
      ∀ u ∈ (CalendarService.run {} buildAgain).broker.unacked,
        u.queue = ({} : Config).queues.calendarIn →
          (CalendarService.run {} buildAgain).held.count u.handle = 1 :=
  ⟨⟨reachable_submitAgain, by decide +kernel, by decide +kernel,
      ((deliveries_held_once_on_their_connection {}).1 _ reachable_submitAgain).2.2.2⟩,
    reachable_buildAgain, by decide +kernel, by decide +kernel,
    ((deliveries_held_once_on_their_connection {}).2 _ reachable_buildAgain).2.2.2⟩

end HashCalendar
