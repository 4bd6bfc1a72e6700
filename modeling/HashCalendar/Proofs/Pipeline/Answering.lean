/-
**A root by itself is answered.**

The calendar tier takes in an aggregate root while it has nothing else to do.  If nobody disturbs
it, it builds a tree over this root, publishes the answer, acknowledges the delivery and emits a
block, and the scheduler asks for the block to be anchored.

Main definitions:

* `HashCalendar.CalendarService.working` — the tier while it works on a single job;
* `HashCalendar.CalendarService.Goes` — what the next call of the only job does;
* `HashCalendar.Tandem.HasPublished` — what the services have published in a run;
* `HashCalendar.Tandem.Anchored` — the services have answered a single root and asked for its block
  to be anchored.

Main results:

* `HashCalendar.CalendarService.exists_working` — **a root that is taken in leads to a job**;
* `HashCalendar.CalendarService.exists_goes` — **a job on a connection that lasts gets done**;
* `HashCalendar.Tandem.exists_answered`, `HashCalendar.Tandem.exists_anchored` — **a root that is
  brought from outside can get answered and anchored**.
-/

import HashCalendar.Proofs.Calendar.Finalizers
import HashCalendar.Proofs.Pipeline.Reasons
import HashCalendar.Proofs.Pipeline.Undisturbed

set_option relaxedAutoImplicit false
set_option autoImplicit false

namespace HashCalendar

namespace CalendarService

/-- The tier has nothing in its buffer, no tree and no job. -/
structure Idle (s : CalendarService) : Prop where
  pending : s.chainer.pending = {}
  built : s.chainer.built = []
  finalizers : s.finalizers = []

/-- The tier at another state of its broker, while it works on a single job. -/
def working (s : CalendarService) (t : Tracked) (w : Finalizer) : CalendarService :=
  { s with tracked := t, inHand := [], finalizers := [w] }

variable {s : CalendarService} {ch : Channel} {handle : Handle} {content : Content}
  {root : AggregateRoot}

/-- The tree over a single root has a single answer. -/
theorem exists_messages_singleton {id : Uuid} {f : HashFunction} {tree : CalendarTree}
    (h : CalendarTree.build id f [root] = .ok tree) (queue baseUri : String) :
    ∃ path, tree.messages queue baseUri [root] = [⟨queue, tree.answer baseUri root path⟩] := by
  obtain ⟨path, hpath⟩ := List.length_eq_one_iff.1 (CalendarTree.length_paths h)
  exact ⟨path, by rw [CalendarTree.messages, hpath]; rfl⟩

/-- A root that is taken in goes into the buffer. -/
theorem act_ingest_root (hhand : s.inHand = [(handle, content)])
    (hread : Inbound.read content = .ok (.aggregateRoot root)) :
    s.act .ingest =
      { s with
        chainer := { s.chainer with pending := s.chainer.pending.push ⟨root, handle⟩ }
        inHand := [] } := by
  simp [act, CalendarStation.act, hhand, CalendarStation.ingest, CalendarStation.ingestCalls,
    Chainer.ingest, hread, Line.performAll]

/-- Over a root that waits by itself a tree is built. -/
theorem act_build_singleton {p : PendingRoot} {id : Uuid} {tree : CalendarTree}
    (hpending : s.chainer.pending = ⟨[p]⟩) (hmax : 0 < s.chainer.config.maxBatchSize.toNat)
    (hbuild : CalendarTree.build id s.chainer.config.function [p.message] = .ok tree) :
    s.act (.tick (.build id)) =
      { s with
        chainer :=
          { s.chainer with pending := {}, built := s.chainer.built ++ [⟨tree, [p]⟩] } } := by
  have hsplice : s.chainer.pending.splice s.chainer.config.maxBatchSize.toNat = ([p], {}) := by
    rw [hpending, Buffer.splice]
    exact Prod.ext (List.take_of_length_le hmax)
      (congrArg Buffer.mk (List.drop_of_length_le hmax))
  have hsome : ¬ s.chainer.pending.isEmpty = true := by simp [hpending, Buffer.isEmpty]
  rw [act, CalendarStation.tick, CalendarStation.tickCalls_eq_nil, Chainer.tick, if_neg hsome,
    hsplice]
  dsimp only
  rw [List.map_singleton, hbuild]
  rfl

/-- With a channel there is a job for each tree. -/
theorem act_finalize (h : s.link.channel = some ch) :
    s.act (.tick .finalize) =
      { s with
        chainer := { s.chainer with built := [] }
        finalizers := s.finalizers ++
          s.chainer.built.map fun built => .start (s.chainer.jobOf ch built) built.roots } := by
  rw [act, CalendarStation.finalize_of_some h]

/-- A root that is taken in by itself leads to a job that has its answer to publish. -/
theorem exists_working (hidle : s.Idle) (hmax : 0 < s.chainer.config.maxBatchSize.toNat)
    (hchannel : s.link.channel = some ch) (hhand : s.inHand = [(handle, content)])
    (hread : Inbound.read content = .ok (.aggregateRoot root)) (id : Uuid) :
    ∃ w state, ((s.act .ingest).act (.tick (.build id))).act (.tick .finalize) =
        s.working s.tracked w ∧
      w.progress = .publishing
        [⟨s.chainer.queues.stateOut, ⟨some calendarKind, (CalendarState.toJson state).render⟩⟩] ∧
      w.job.channel = ch ∧ w.job.handles = [handle] := by
  obtain ⟨tree, hbuild, -⟩ :=
    CalendarTree.exists_build id s.chainer.config.function (List.cons_ne_nil root [])
  obtain ⟨path, hmessages⟩ :=
    exists_messages_singleton hbuild s.chainer.queues.stateOut s.chainer.config.baseUri
  let s₁ : CalendarService :=
    { s with
      chainer := { s.chainer with pending := s.chainer.pending.push ⟨root, handle⟩ }
      inHand := [] }
  let s₂ : CalendarService :=
    { s₁ with
      chainer :=
        { s₁.chainer with pending := {}, built := s₁.chainer.built ++ [⟨tree, [⟨root, handle⟩]⟩] } }
  have hpending : s₁.chainer.pending = ⟨[⟨root, handle⟩]⟩ := by
    rw [show s₁.chainer.pending = s.chainer.pending.push ⟨root, handle⟩ from rfl, hidle.pending]
    rfl
  let w : Finalizer :=
    .start (s.chainer.jobOf ch ⟨tree, [⟨root, handle⟩]⟩) [⟨root, handle⟩]
  refine ⟨w, tree.stateMessage s.chainer.config.baseUri root path, ?_, ?_, rfl, rfl⟩
  · have hchainer : { s.chainer with pending := {}, built := [] } = s.chainer := by
      rw [← hidle.pending, ← hidle.built]
    have hlast : s₂.act (.tick .finalize) =
        { s₂ with
          chainer := { s.chainer with pending := {}, built := [] }
          finalizers := [w] } := by
      rw [act_finalize (show s₂.link.channel = some ch from hchannel)]
      simp [s₂, s₁, hidle.built, hidle.finalizers, w, Chainer.jobOf]
    rw [act_ingest_root hhand hread, act_build_singleton hpending hmax hbuild]
    exact hlast.trans (congrArg (fun chainer => { s.working s.tracked w with chainer }) hchainer)
  · exact congrArg Progress.publishing hmessages

/-! ### The calls of a job -/

/-- The next call of the only job leads from one state of the broker and the job to another; a block
may be emitted. -/
structure Goes (s : CalendarService) (t : Tracked) (w : Finalizer) (t' : Tracked) (w' : Finalizer)
    (block : Option Block) : Prop where
  act : (s.working t w).act (.advance 0) = s.working t' w'
  emitted : (s.working t w).emitted? (.advance 0) = block
  job : w'.job = w.job

section Job

variable (s) {t : Tracked} {w : Finalizer}

theorem goes_advance (hblock : w.block? = none) :
    s.Goes t w (t.performAll w.calls) (w.advance t.broker) (w.advance t.broker).block? where
  act := rfl
  emitted := if_neg (by simp [hblock])
  job := rfl

/-- The answer is published. -/
theorem exists_goes_publishing {m : Outbound} (hp : w.progress = .publishing [m])
    (hok : (t.broker.publish w.job.channel m).2 = .ok ()) :
    ∃ w', s.Goes t w (t.publish w.job.channel m) w' none ∧ w'.progress = .publishing [] := by
  have hgoes := s.goes_advance (t := t) (w := w) (by rw [Finalizer.block?, hp])
  have hnext : (w.advance t.broker).progress = .publishing [] := by
    simp [Finalizer.advance, hp, Progress.next, hok]
  rw [Finalizer.calls, hp, Finalizer.block?, hnext] at hgoes
  exact ⟨_, hgoes, hnext⟩

/-- All is published, so the deliveries are acknowledged next. -/
theorem exists_goes_published (hp : w.progress = .publishing []) :
    ∃ w', s.Goes t w t w' none ∧ w'.progress = .acking w.job.handles 0 := by
  have hgoes := s.goes_advance (t := t) (w := w) (by rw [Finalizer.block?, hp])
  have hnext : (w.advance t.broker).progress = .acking w.job.handles 0 := by
    simp [Finalizer.advance, hp, Progress.next]
  rw [Finalizer.calls, hp, Finalizer.block?, hnext] at hgoes
  exact ⟨_, hgoes, hnext⟩

/-- The delivery is acknowledged. -/
theorem exists_goes_acking (hp : w.progress = .acking [handle] 0)
    (hok : (t.broker.ack handle).2 = .ok ()) :
    ∃ w', s.Goes t w (t.settleHandle handle .acked) w' none ∧ w'.progress = .acking [] 1 := by
  have hgoes := s.goes_advance (t := t) (w := w) (by rw [Finalizer.block?, hp])
  have hnext : (w.advance t.broker).progress = .acking [] 1 := by
    simp [Finalizer.advance, hp, Progress.next, hok]
  rw [Finalizer.calls, hp, Finalizer.block?, hnext] at hgoes
  exact ⟨_, hgoes, hnext⟩

/-- Once all deliveries are acknowledged the block is emitted. -/
theorem exists_goes_acked (hp : w.progress = .acking [] 1) (hhandles : w.job.handles = [handle]) :
    ∃ w', s.Goes t w t w' (some w.job.tree.block) := by
  have hgoes := s.goes_advance (t := t) (w := w) (by rw [Finalizer.block?, hp])
  have hnext : (w.advance t.broker).progress = .settled (.acked 1) := by
    simp [Finalizer.advance, hp, Progress.next, hhandles]
  rw [Finalizer.calls, hp, Finalizer.block?, hnext] at hgoes
  exact ⟨_, hgoes⟩

/-- On a connection that lasts, a job with a single answer publishes it, acknowledges its delivery
and emits its block. -/
theorem exists_goes {m : Outbound} {u : Broker.Unacked} {arrived : List (String × Content)}
    {acked : List Broker.Unacked} (hp : w.progress = .publishing [m])
    (hhandles : w.job.handles = [handle]) (hhealthy : t.Healthy arrived acked)
    (hopen : t.broker.isOpen w.job.channel.generation = true)
    (hgeneration : handle.generation = w.job.channel.generation)
    (hqueue : t.broker.IsDeclared m.queue)
    (hclaim : t.broker.unacked? handle.generation handle.tag = some u) :
    ∃ t₁ t₂ w₁ w₂ w₃ w₄, s.Goes t w t₁ w₁ none ∧ s.Goes t₁ w₁ t₁ w₂ none ∧
      s.Goes t₁ w₂ t₂ w₃ none ∧ s.Goes t₂ w₃ t₂ w₄ (some w₃.job.tree.block) ∧
      t₁.Healthy (arrived ++ [(m.queue, m.content)]) acked ∧
      t₂.Healthy (arrived ++ [(m.queue, m.content)]) (acked ++ [u]) ∧
      t₂.broker.isOpen w.job.channel.generation = true := by
  obtain ⟨hok, hhealthy₁, hopen₁, hprefix⟩ := hhealthy.publish hopen hqueue
  obtain ⟨w₁, hgoes₁, hp₁⟩ := s.exists_goes_publishing hp hok
  generalize t.publish w.job.channel m = t₁ at *
  obtain ⟨w₂, hgoes₂, hp₂⟩ := s.exists_goes_published (t := t₁) hp₁
  rw [hgoes₁.job, hhandles] at hp₂
  obtain ⟨hok₂, hhealthy₂, hopen₂⟩ := hhealthy₁.ack
    ((hopen₁ _).trans (hgeneration ▸ hopen)) (Broker.unacked?_of_prefix hprefix hclaim)
  obtain ⟨w₃, hgoes₃, hp₃⟩ := s.exists_goes_acking hp₂ hok₂
  have hhandles₃ : w₃.job.handles = [handle] := by
    rw [hgoes₃.job, hgoes₂.job, hgoes₁.job, hhandles]
  obtain ⟨w₄, hgoes₄⟩ := s.exists_goes_acked (t := t₁.settleHandle handle .acked) hp₃ hhandles₃
  exact ⟨_, _, w₁, w₂, w₃, w₄, hgoes₁, hgoes₂, hgoes₃, hgoes₄, hhealthy₁, hhealthy₂,
    (hopen₂ _).trans ((hopen₁ _).trans hopen)⟩

end Job

end CalendarService

/-! ### What the services publish -/

namespace Tandem

/-- An event that is not a call from outside. -/
def Event.IsOwn : Event → Prop
  | .aggregation (.call _) => False
  | .calendar (.call _) => False
  | _ => True

/-- With an event of their own the services publish the message of a serial number to a queue. -/
def Publishes (s : Tandem) (e : Event) (serial : Nat) (queue : String) : Prop :=
  e.IsOwn ∧ s.tracked.ledger.arrived[serial]? = none ∧
    ∃ content, (s.act e).tracked.ledger.arrived[serial]? = some (queue, content)

/-- In a run to a state the services have published the message of a serial number to a queue. -/
def HasPublished (c : Config) (s : Tandem) (serial : Nat) (queue : String) : Prop :=
  ∃ s₀ e, Reachable c s₀ ∧ s₀.Permits e ∧ s₀.Publishes e serial queue ∧
    Reaches Permits act (s₀.act e) s

variable {c : Config} {s : Tandem} {calendar calendar' : CalendarService} {blocks : List Block}

theorem act_withCalendar (s : Tandem) (blocks : List Block) {e : ServiceEvent CalendarTick}
    {block : Option Block} (hact : calendar.act e = calendar')
    (hblock : calendar.emitted? e = block) :
    (s.withCalendar calendar blocks).act (.calendar e) =
      s.withCalendar calendar' (blocks ++ block.toList) := by
  subst hact hblock
  rfl

/-- An event of the calendar tier. -/
theorem reaches_calendar {start : Tandem}
    (h : Reaches Permits act start (s.withCalendar calendar blocks))
    {e : ServiceEvent CalendarTick} {block : Option Block}
    (he : e.InTurn calendar.contact calendar.toLine calendar.inHand)
    (hact : calendar.act e = calendar') (hblock : calendar.emitted? e = block) :
    Reaches Permits act start (s.withCalendar calendar' (blocks ++ block.toList)) := by
  rw [← act_withCalendar s blocks hact hblock]
  exact h.next (e := Event.calendar e) he

/-- A root that was brought from outside is all there is. -/
theorem tracked_brought (c : Config) (content : Content) :
    ((ofConfig c).act (.calendar (.call (.inject c.queues.calendarIn content)))).tracked =
      Tracked.enqueue {} c.queues.calendarIn content :=
  Tracked.dispatch_of_consumer?_none (Broker.consumer?_enqueue ..)

/-- When the calendar tier has connected and received, it has a channel and a receiver on it. -/
theorem exists_fetched_calendar (s : Tandem) :
    ∃ calendar, s.fetched .calendar = s.withCalendar calendar s.blocks ∧
      calendar.chainer = s.calendar.chainer ∧ calendar.finalizers = s.calendar.finalizers ∧
      calendar.link.channel = some s.calendar.toLine.prepared ∧
      ∃ stream, calendar.receiver = some ⟨s.calendar.toLine.prepared.generation, stream⟩ :=
  ⟨_, act_calendar _ rfl, rfl, rfl, congrArg Link.channel s.calendar.toLine.consuming.receive_link,
    _, s.calendar.toLine.consuming.receive_receiver⟩

/-- The services when a root was brought from outside. -/
def brought (c : Config) (content : Content) : Tandem :=
  (ofConfig c).act (.calendar (.call (.inject c.queues.calendarIn content)))

/-- The calendar tier has a message in hand that can be settled, and nothing else to do. -/
structure Holds (c : Config) (content : Content) (calendar : CalendarService) (ch : Channel)
    (handle : Handle) (u : Broker.Unacked) : Prop where
  contact : calendar.contact = .receiving
  inHand : calendar.inHand = [(handle, content)]
  chainer : calendar.chainer = (ofConfig c).calendar.chainer
  finalizers : calendar.finalizers = []
  channel : calendar.link.channel = some ch
  isOpen : calendar.broker.isOpen ch.generation = true
  generation : handle.generation = ch.generation
  unacked : calendar.broker.unacked? handle.generation handle.tag = some u
  receiver : ∃ stream, calendar.receiver = some ⟨ch.generation, stream⟩
  serial : u.message.serial = 0
  healthy : calendar.tracked.Healthy [(c.queues.calendarIn, content)] []

theorem reachable_brought (c : Config) (content : Content) : Reachable c (brought c content) :=
  Reaches.start.next (e := Event.calendar (.call (.inject c.queues.calendarIn content))) trivial

/-- What was brought from outside waits for the calendar tier. -/
theorem brought_ready (c : Config) (content : Content) :
    (brought c content).tracked.Healthy [(c.queues.calendarIn, content)] [] ∧
      (brought c content).broker.unacked = [] ∧
      (brought c content).broker.ready ((brought c content).line .calendar).link.settings.consumes =
        [⟨content, false, 0⟩] := by
  have htracked : (brought c content).tracked = Tracked.enqueue {} c.queues.calendarIn content :=
    tracked_brought c content
  rw [broker, (reachable_brought c content).settings .calendar, htracked]
  exact ⟨⟨rfl, rfl, rfl, rfl, rfl, rfl, rfl⟩, rfl, (Broker.ready_enqueue ..).trans (if_pos rfl)⟩

/-- What was brought from outside can get into the hand of the calendar tier. -/
theorem exists_holds (c : Config) (content : Content) :
    ∃ calendar ch handle u, Reachable c ((brought c content).withCalendar calendar []) ∧
      Holds c content calendar ch handle u := by
  have hbrought := reachable_brought c content
  have hshared := hbrought.isShared
  obtain ⟨hhealthy, hunacked, hready⟩ := brought_ready c content
  have hreaches : Reachable c ((brought c content).fetched .calendar) :=
    hbrought.trans (reaches_fetched .calendar hshared rfl rfl hhealthy.reachable)
  obtain ⟨-, hsteady, hcontact, handle, u, hhand, hgeneration, hopen, hclaim, hm⟩ :=
    exists_fetched .calendar hshared rfl hhealthy.reachable hunacked hready
  obtain ⟨calendar, hfetched, hchainer, hfinalizers, hchannel, hreceiver⟩ :=
    (brought c content).exists_fetched_calendar
  rw [hfetched] at hreaches hsteady hcontact hhand hopen hclaim
  refine ⟨calendar, (brought c content).calendar.toLine.prepared, handle, u, hreaches, ?_⟩
  exact
    { contact := hcontact
      inHand := hhand
      chainer := hchainer
      finalizers := hfinalizers
      channel := hchannel
      isOpen := hgeneration ▸ hopen
      generation := hgeneration
      unacked := hclaim
      receiver := hreceiver
      serial := hm ▸ rfl
      healthy := hhealthy.steady hsteady }

/-- A root that was taken in leads to a job that has its answer to publish. -/
theorem exists_assigned (hc : c.validate = .ok ()) {content : Content} {root : AggregateRoot}
    (hread : Inbound.read content = .ok (.aggregateRoot root)) {ch : Channel} {handle : Handle}
    {u : Broker.Unacked} (h : Holds c content calendar ch handle u)
    (hreach : Reachable c ((brought c content).withCalendar calendar [])) :
    ∃ w state,
      Reachable c ((brought c content).withCalendar (calendar.working calendar.tracked w) []) ∧
      w.progress = .publishing
        [⟨c.queues.stateOut, ⟨some calendarKind, (CalendarState.toJson state).render⟩⟩] ∧
      w.job.channel = ch ∧ w.job.handles = [handle] := by
  have hidle : calendar.Idle := by
    refine ⟨?_, ?_, h.finalizers⟩
    · rw [h.chainer]
      rfl
    · rw [h.chainer]
      rfl
  have hmax : 0 < calendar.chainer.config.maxBatchSize.toNat := by
    rw [h.chainer]
    exact (Config.maxBatchSize_pos hc).2
  have hqueues : calendar.chainer.queues = c.queues := by
    rw [h.chainer]
    rfl
  obtain ⟨w, state, hworking, hprogress, hchannel, hhandles⟩ :=
    CalendarService.exists_working hidle hmax h.channel h.inHand hread (.fresh 0)
  rw [hqueues] at hprogress
  refine ⟨w, state, ?_, hprogress, hchannel, hhandles⟩
  have hingest := CalendarService.act_ingest_root h.inHand hread
  have hingested := reaches_calendar hreach (e := .ingest) trivial hingest rfl
  have hbuilt := reaches_calendar hingested (e := .tick (.build (.fresh 0)))
    ⟨h.contact, rfl⟩ rfl rfl
  have hdone := reaches_calendar hbuilt (e := .tick .finalize) ⟨h.contact, rfl⟩ rfl rfl
  rw [← hingest, hworking] at hdone
  exact hdone

theorem HasPublished.reaches {serial : Nat} {queue : String} {s' : Tandem}
    (h : HasPublished c s serial queue) (hs : Reaches Permits act s s') :
    HasPublished c s' serial queue := by
  obtain ⟨s₀, e, hs₀, he, hpublishes, hreaches⟩ := h
  exact ⟨s₀, e, hs₀, he, hpublishes, hreaches.trans hs⟩

/-- The queues that the calendar tier publishes to are there when it has a channel. -/
theorem Reachable.isDeclared (hc : c.validate = .ok ())
    (h : Reachable c (s.withCalendar calendar blocks))
    (hchannel : calendar.link.channel.isSome = true) {queue : String}
    (hqueue : queue ∈ c.queues.publishedTo .calendar) :
    calendar.broker.IsDeclared queue := by
  obtain ⟨events, heq⟩ := h.exists_run
  have hready := ready_run hc events
  rw [← heq] at hready
  have hline : ((s.withCalendar calendar blocks).line .calendar).link = calendar.link := rfl
  exact hready.isDeclared (hline ▸ hchannel) hqueue

/-- The calendar tier has answered the only root, which was acknowledged, and emitted its block. -/
structure Answered (c : Config) (content : Content) (calendar : CalendarService) (block : Block)
    (ch : Channel) (u : Broker.Unacked) (state : CalendarState) : Prop where
  reachable : Reachable c ((brought c content).withCalendar calendar [block])
  contact : calendar.contact = .receiving
  inHand : calendar.inHand = []
  channel : calendar.link.channel = some ch
  isOpen : calendar.broker.isOpen ch.generation = true
  receiver : ∃ stream, calendar.receiver = some ⟨ch.generation, stream⟩
  serial : u.message.serial = 0
  healthy : calendar.tracked.Healthy [(c.queues.calendarIn, content),
    (c.queues.stateOut, ⟨some calendarKind, state.toJson.render⟩)] [u]
  published : HasPublished c ((brought c content).withCalendar calendar [block]) 1 c.queues.stateOut

/-- A root that was taken in is answered. -/
theorem exists_answered (hc : c.validate = .ok ()) {content : Content} {root : AggregateRoot}
    (hread : Inbound.read content = .ok (.aggregateRoot root)) :
    ∃ calendar block ch u state, Answered c content calendar block ch u state := by
  obtain ⟨calendar, ch, handle, u, hreach, h⟩ := exists_holds c content
  obtain ⟨w, state, hassigned, hprogress, hchannel, hhandles⟩ := exists_assigned hc hread h hreach
  have hdeclared := hreach.isDeclared hc (by rw [h.channel]; rfl) List.mem_cons_self
  obtain ⟨t₁, t₂, w₁, w₂, w₃, w₄, hgoes₁, hgoes₂, hgoes₃, hgoes₄, hhealthy₁, hhealthy₂, hopen₂⟩ :=
    calendar.exists_goes hprogress hhandles h.healthy (hchannel ▸ h.isOpen)
      (hchannel ▸ h.generation) hdeclared h.unacked
  have hfirst := reaches_calendar hassigned (e := .advance 0) trivial hgoes₁.act hgoes₁.emitted
  have hnil : Reaches Permits act _
      ((brought c content).withCalendar (calendar.working t₁ w₁) []) := .start
  have hsecond := reaches_calendar hnil (e := .advance 0) trivial hgoes₂.act hgoes₂.emitted
  have hthird := reaches_calendar hsecond (e := .advance 0) trivial hgoes₃.act hgoes₃.emitted
  have hrest := reaches_calendar hthird (e := .advance 0) trivial hgoes₄.act hgoes₄.emitted
  refine ⟨calendar.working t₂ w₄, w₃.job.tree.block, ch, u, state, hfirst.trans hrest, h.contact,
    rfl, h.channel, hchannel ▸ hopen₂, h.receiver, h.serial, hhealthy₂, ?_⟩
  have hact := (brought c content).act_withCalendar [] hgoes₁.act hgoes₁.emitted
  refine ⟨_, .calendar (.advance 0), hassigned, trivial, ⟨trivial, ?_, ?_⟩, ?_⟩
  · exact (congrArg (·[1]?) h.healthy.arrived).trans rfl
  · refine ⟨⟨some calendarKind, state.toJson.render⟩, ?_⟩
    rw [hact]
    exact (congrArg (·[1]?) hhealthy₁.arrived).trans rfl
  · rw [hact]
    exact hrest

/-- The services have answered a single root and asked for its block to be anchored. -/
structure Anchored (c : Config) (s : Tandem) : Prop where
  reachable : Reachable c s
  away : s.contact .aggregation = .away
  connected : s.contact .calendar = .receiving
  inHand : ∀ tier, s.inHand tier = []
  receiver : ∃ r, (s.line .calendar).receiver = some r ∧ r.generation = s.broker.generation
  published : HasPublished c s 1 c.queues.stateOut ∧ HasPublished c s 2 c.queues.anchorOut
  healthy : ∃ content state request u,
    s.tracked.Healthy [(c.queues.calendarIn, content),
      (c.queues.stateOut, ⟨some calendarKind, (CalendarState.toJson state).render⟩),
      (c.queues.anchorOut, ⟨none, (AnchorRequest.toJson request).render⟩)] [u] ∧
    u.message.serial = 0

/-- A root that is brought from outside can get answered and anchored. -/
theorem exists_anchored (hc : c.validate = .ok ()) (root : AggregateRoot)
    (hroot : root.hashCount < UInt64.size) : ∃ s, Anchored c s := by
  have hread : Inbound.read ⟨some aggregatorKind, root.toJson.render⟩ =
      .ok (.aggregateRoot root) := by
    rw [Inbound.read, if_pos rfl, AggregateRoot.decode?_render hroot]
  obtain ⟨calendar, block, ch, u, state, h⟩ := exists_answered hc hread
  let s := ((brought c ⟨some aggregatorKind, root.toJson.render⟩).withCalendar calendar [block]).act
    .record
  have hrecorded : Reachable c s := h.reachable.next (e := Event.record) ⟨h.contact, h.inHand⟩
  obtain ⟨request, hrequest, -⟩ :=
    s.scheduler.exists_request (.fresh 0) (List.cons_ne_nil block [])
  have hcalls : s.scheduler.calls s.calendar.link.channel (.fresh 0) =
      [.publish ch (s.scheduler.outbound request)] := by
    rw [show s.calendar.link.channel = some ch from h.channel, Scheduler.calls,
      show s.scheduler.window.items = [block] from rfl, hrequest]
  have htracked : (s.act (.anchor (.fresh 0))).tracked =
      calendar.tracked.publish ch (s.scheduler.outbound request) := by
    rw [act, hcalls]
    rfl
  have hdeclared : calendar.broker.IsDeclared c.queues.anchorOut :=
    h.reachable.isDeclared hc (by rw [h.channel]; rfl) (List.mem_cons_of_mem _ List.mem_cons_self)
  obtain ⟨-, hhealthy, hopen, -⟩ :=
    h.healthy.publish (m := s.scheduler.outbound request) h.isOpen hdeclared
  rw [← htracked] at hhealthy
  have hpermits : s.Permits (.anchor (.fresh 0)) := ⟨h.contact, h.inHand⟩
  have hanchored : Reachable c (s.act (.anchor (.fresh 0))) := hrecorded.next hpermits
  obtain ⟨stream, hreceiver⟩ := h.receiver
  refine ⟨s.act (.anchor (.fresh 0)), hanchored, rfl, h.contact, ?_, ⟨_, hreceiver, ?_⟩, ⟨?_, ?_⟩,
    ⟨_, state, request, u, hhealthy, h.serial⟩⟩
  · rintro (_ | _)
    · rfl
    · exact h.inHand
  · have hlast := (hopen ch.generation).trans h.isOpen
    rw [← htracked, Broker.isOpen, Bool.and_eq_true, decide_eq_true_eq] at hlast
    exact hlast.2
  · exact h.published.reaches <|
      (Reaches.start.next (e := Event.record) ⟨h.contact, h.inHand⟩).next hpermits
  · refine ⟨s, _, hrecorded, hpermits, ⟨trivial, ?_, ⟨none, request.toJson.render⟩, ?_⟩, .start⟩
    · exact (congrArg (·[2]?) h.healthy.arrived).trans rfl
    · exact (congrArg (·[2]?) hhealthy.arrived).trans rfl

end Tandem

end HashCalendar
