/-
**Batches and what came in.**

Both tiers buffer what they accept and take their batches from the head of the buffer.  So between
two losses of the connection, the batches in their order and then the buffer are what was accepted,
in the order of its arrival and each item with its own handle; and nothing that was rejected is
among it.  A batch is as large as the buffer, but not larger than is allowed.  The tiers differ in
what they do without a channel: the aggregation tier waits, while the calendar tier builds its trees
and keeps them until a finalize tick with a channel hands each of them out, once and in order.

A tier is looked at by itself here.  Deliveries come in whatever state the broker is in, and the
channel is set and cleared at will.

Main definitions:

* `HashCalendar.Buffer.Partitions` — batches that were taken from a buffer, and what came in;
* `HashCalendar.AggregatorRun`, `HashCalendar.ChainerRun` — the tiers with the jobs they handed out;
* `HashCalendar.AggregatorRun.Orderly`, `HashCalendar.ChainerRun.Orderly` — what is true of them.

Main results:

* `HashCalendar.AggregatorRun.orderly_run`, `HashCalendar.ChainerRun.orderly_run` — every run is
  orderly;
* `HashCalendar.batches_partition_arrivals` — **the batches of both tiers are what was accepted**.
-/

import HashCalendar.Aggregation.Aggregator
import HashCalendar.Calendar.Chainer
import HashCalendar.Proofs.Pipeline.EndToEnd
import HashCalendar.Proofs.Wire.Submissions
import Mathlib.Data.List.DropRight

set_option relaxedAutoImplicit false
set_option autoImplicit false

namespace HashCalendar

/-! ### Buffers -/

namespace Buffer

variable {α : Type} {max : Nat} {arrived : List α} {batches : List (List α)} {buffer : Buffer α}

/-- Batches that were taken from a buffer one after the other, none of them empty or too large, and
all that came in, in its order. -/
structure Partitions (max : Nat) (arrived : List α) (batches : List (List α))
    (buffer : Buffer α) : Prop where
  flatten : batches.flatten ++ buffer.items = arrived
  size : ∀ batch ∈ batches, 0 < batch.length ∧ batch.length ≤ max

theorem Partitions.nil (max : Nat) : Partitions max [] [] (⟨[]⟩ : Buffer α) := ⟨rfl, by simp⟩

theorem Partitions.push (h : Partitions max arrived batches buffer) (item : α) :
    Partitions max (arrived ++ [item]) batches (buffer.push item) where
  flatten := by rw [Buffer.push, ← List.append_assoc, h.flatten]
  size := h.size

/-- A batch is as large as the buffer, but not larger than is allowed. -/
theorem length_splice (buffer : Buffer α) (max : Nat) :
    (buffer.splice max).1.length = min max buffer.size := List.length_take

theorem Partitions.splice (h : Partitions max arrived batches buffer) (hmax : 0 < max)
    (hne : ¬ buffer.isEmpty = true) :
    Partitions max arrived (batches ++ [(buffer.splice max).1]) (buffer.splice max).2 where
  flatten := by
    rw [List.flatten_append, List.flatten_singleton, List.append_assoc, buffer.splice_append,
      h.flatten]
  size := by
    intro batch hbatch
    rcases List.mem_append.1 hbatch with hbatch | hbatch
    · exact h.size batch hbatch
    · rw [List.mem_singleton.1 hbatch]
      exact ⟨List.length_pos_iff.2 (splice_ne_nil hne hmax), buffer.length_splice_le max⟩

end Buffer

/-! ### What came in -/

section Arrivals

variable {ε α : Type} (isDetach : ε → Bool) (item? : ε → Option α)

/-- The events since the tier last forgot its work. -/
def sinceDetach (events : List ε) : List ε := events.rtakeWhile fun e => !isDetach e

/-- The items that came in by events since the tier last forgot its work. -/
def arrivedSince (events : List ε) : List α := (sinceDetach isDetach events).filterMap item?

variable {isDetach item?}

theorem arrivedSince_of_detach {e : ε} (h : isDetach e = true) (events : List ε) :
    arrivedSince isDetach item? (events ++ [e]) = [] := by
  rw [arrivedSince, sinceDetach, List.rtakeWhile_concat_neg _ _ _ (by simp [h])]
  rfl

theorem arrivedSince_concat {e : ε} (h : isDetach e = false) (events : List ε) :
    arrivedSince isDetach item? (events ++ [e]) =
      arrivedSince isDetach item? events ++ (item? e).toList := by
  rw [arrivedSince, sinceDetach, List.rtakeWhile_concat_pos _ _ _ (by simp [h]),
    List.filterMap_append, arrivedSince, sinceDetach]
  cases hitem : item? e with
  | none => simp [hitem]
  | some item => simp [hitem]

/-- Other events bring in nothing. -/
theorem arrivedSince_of_none {e : ε} (h : isDetach e = false) (hitem : item? e = none)
    (events : List ε) :
    arrivedSince isDetach item? (events ++ [e]) = arrivedSince isDetach item? events := by
  rw [arrivedSince_concat h, hitem, Option.toList_none, List.append_nil]

/-- What came in came in by an event. -/
theorem exists_of_mem_arrivedSince {events : List ε} {item : α}
    (h : item ∈ arrivedSince isDetach item? events) :
    ∃ e ∈ sinceDetach isDetach events, item? e = some item := List.mem_filterMap.1 h

end Arrivals

/-- Where each job has the handles of its batch, all jobs have the handles of all batches. -/
theorem flatMap_eq_map_flatten {ι α γ : Type} {handles : ι → List γ} {handle : α → γ}
    {jobs : List ι} {batches : List (List α)}
    (h : List.Forall₂ (fun job batch => handles job = batch.map handle) jobs batches) :
    jobs.flatMap handles = batches.flatten.map handle := by
  induction h with
  | nil => rfl
  | cons hjob _ ih => rw [List.flatMap_cons, List.flatten_cons, List.map_append, hjob, ih]

/-! ### The aggregation tier -/

/-- A job over a batch: it has the handles of the batch, and the tree over its submissions with the
messages for them, all in the order of the batch. -/
structure AggregationJob.IsOver (config : Config.Aggregation) (queues : Config.Queues)
    (job : AggregationJob) (batch : List PendingSubmission) : Prop where
  handles : job.handles = batch.map PendingSubmission.handle
  prepared : ∃ id beacon tree,
    AggregationTree.build id config.function beacon (batch.map PendingSubmission.submission) =
      .ok tree ∧
    job.prepared = .ok (tree, tree.messages queues (batch.map PendingSubmission.submission))

/-- The aggregation tier by itself. -/
structure AggregatorRun where
  aggregator : Aggregator
  channel : Option Channel := none
  /-- The jobs that were prepared since the tier last forgot its work. -/
  jobs : List AggregationJob := []

namespace AggregatorRun

/-- What may happen. -/
inductive Event where
  /-- A delivery comes in, in whatever state the broker is. -/
  | ingest (b : Broker) (handle : Handle) (content : Content)
  | tick (feed : Feed) (id : Uuid)
  | detach
  | share (channel : Option Channel)

/-- Whether the tier forgets its work. -/
def Event.isDetach : Event → Bool
  | .detach => true
  | _ => false

/-- The submission that comes in by an event, with the handle of its delivery. -/
def Event.submission? : Event → Option PendingSubmission
  | .ingest _ handle content => (Submission.read content.payload).toOption.map (⟨·, handle⟩)
  | _ => none

/-- The submissions that came in since the tier last forgot its work, in their order. -/
def arrivals (events : List Event) : List PendingSubmission :=
  arrivedSince Event.isDetach Event.submission? events

/-- What comes of an event. -/
def act (s : AggregatorRun) : Event → AggregatorRun
  | .ingest b handle content =>
    { s with aggregator := (s.aggregator.ingest b handle content).2 }
  | .tick feed id =>
    let (aggregator, job) := s.aggregator.tick s.channel feed id
    { s with aggregator, jobs := s.jobs ++ job.toList }
  | .detach => { s with aggregator := s.aggregator.detach, jobs := [] }
  | .share channel => { s with channel }

/-- The tier after a number of events. -/
def run (config : Config.Aggregation) (queues : Config.Queues) (events : List Event) :
    AggregatorRun :=
  events.foldl act { aggregator := { config, queues } }

/-- What a tick takes from the buffer. -/
def nextBatch (s : AggregatorRun) : List PendingSubmission :=
  (s.aggregator.pending.splice s.aggregator.config.maxBatchSize.toNat).1

/-- A tick has nothing to do or no channel to do it and changes nothing, or it prepares a job over
the next batch. -/
theorem tick_cases (s : AggregatorRun) (hmax : 0 < s.aggregator.config.maxBatchSize.toNat)
    (feed : Feed) (id : Uuid) :
    ((s.channel = none ∨ s.aggregator.pending.isEmpty = true) ∧ s.act (.tick feed id) = s) ∨
      (¬ s.aggregator.pending.isEmpty = true ∧
        ∃ job : AggregationJob, s.channel = some job.channel ∧
          job.IsOver s.aggregator.config s.aggregator.queues s.nextBatch ∧
          s.act (.tick feed id) =
            { s with
              aggregator :=
                { s.aggregator with
                  pending :=
                    (s.aggregator.pending.splice s.aggregator.config.maxBatchSize.toNat).2 }
              jobs := s.jobs ++ [job] }) := by
  obtain ⟨aggregator, channel, jobs⟩ := s
  simp only [act, Aggregator.tick]
  by_cases hempty : aggregator.pending.isEmpty = true
  · rw [if_pos hempty]
    exact Or.inl ⟨Or.inr hempty, by simp⟩
  · rw [if_neg hempty]
    cases channel with
    | none => exact Or.inl ⟨Or.inl rfl, by simp⟩
    | some ch =>
        -- There is a tree over the batch, since it is not empty.
        obtain ⟨tree, hbuild, -⟩ := AggregationTree.exists_build id aggregator.config.function
          (if aggregator.config.bindBeacon then feed.snapshot else none)
          (mt List.map_eq_nil_iff.1 (Buffer.splice_ne_nil hempty hmax))
        refine Or.inr ⟨hempty, _, rfl, ⟨rfl, id, _, tree, hbuild, ?_⟩, rfl⟩
        rw [Aggregator.prepare]
        dsimp only
        rw [hbuild]
        rfl

/-- A tick without a channel changes nothing. -/
theorem tick_of_none {s : AggregatorRun} (h : s.channel = none) (feed : Feed) (id : Uuid) :
    s.act (.tick feed id) = s := by
  obtain ⟨aggregator, channel, jobs⟩ := s
  cases h
  simp [act, Aggregator.tick]

/-- What is true of the tier after a number of events. -/
structure Orderly (config : Config.Aggregation) (queues : Config.Queues) (events : List Event)
    (s : AggregatorRun) : Prop where
  config_eq : s.aggregator.config = config
  queues_eq : s.aggregator.queues = queues
  /-- The jobs are over batches that, followed by the buffer, are what came in. -/
  batches : ∃ batches, List.Forall₂ (AggregationJob.IsOver config queues) s.jobs batches ∧
    Buffer.Partitions config.maxBatchSize.toNat (arrivals events) batches s.aggregator.pending

namespace Orderly

variable {config : Config.Aggregation} {queues : Config.Queues} {events : List Event}
  {s : AggregatorRun}

theorem start (config : Config.Aggregation) (queues : Config.Queues) :
    Orderly config queues [] { aggregator := { config, queues } } :=
  ⟨rfl, rfl, [], .nil, .nil _⟩

/-- A valid submission is put into the buffer, and anything else leaves it as it is. -/
theorem ingest (h : Orderly config queues events s) (b : Broker) (handle : Handle)
    (content : Content) :
    Orderly config queues (events ++ [.ingest b handle content])
      (s.act (.ingest b handle content)) := by
  have harrivals : arrivals (events ++ [.ingest b handle content]) = arrivals events ++
      ((Submission.read content.payload).toOption.map (PendingSubmission.mk · handle)).toList :=
    arrivedSince_concat rfl events
  obtain ⟨hconfig, hqueues, batches, hjobs, hparts⟩ := h
  rw [act, Aggregator.ingest]
  cases hread : Submission.read content.payload with
  | error e =>
      have hsame : arrivals (events ++ [.ingest b handle content]) = arrivals events := by
        rw [harrivals, hread]
        exact List.append_nil _
      exact ⟨hconfig, hqueues, batches, hjobs, hsame ▸ hparts⟩
  | ok submission =>
      rw [hread] at harrivals
      exact ⟨hconfig, hqueues, batches, hjobs, harrivals ▸ hparts.push ⟨submission, handle⟩⟩

/-- A tick moves the head of the buffer into a job. -/
theorem tick (h : Orderly config queues events s) (hmax : 0 < config.maxBatchSize.toNat)
    (feed : Feed) (id : Uuid) :
    Orderly config queues (events ++ [.tick feed id]) (s.act (.tick feed id)) := by
  have harrivals : arrivals (events ++ [.tick feed id]) = arrivals events :=
    arrivedSince_of_none rfl rfl events
  obtain ⟨rfl, rfl, batches, hjobs, hparts⟩ := h
  rw [← harrivals] at hparts
  rcases s.tick_cases hmax feed id with ⟨-, hsame⟩ | ⟨hne, job, -, hover, htaken⟩
  · rw [hsame]
    exact ⟨rfl, rfl, batches, hjobs, hparts⟩
  · rw [htaken]
    exact ⟨rfl, rfl, batches ++ [s.nextBatch], List.rel_append hjobs (.cons hover .nil),
      hparts.splice hmax hne⟩

theorem act (h : Orderly config queues events s) (hmax : 0 < config.maxBatchSize.toNat)
    (e : Event) : Orderly config queues (events ++ [e]) (s.act e) := by
  cases e with
  | ingest b handle content => exact h.ingest b handle content
  | tick feed id => exact h.tick hmax feed id
  | detach =>
      have harrivals : arrivals (events ++ [.detach]) = [] := arrivedSince_of_detach rfl events
      refine ⟨h.config_eq, h.queues_eq, [], .nil, ?_⟩
      rw [harrivals]
      exact .nil _
  | share channel =>
      have harrivals : arrivals (events ++ [.share channel]) = arrivals events :=
        arrivedSince_of_none rfl rfl events
      obtain ⟨hconfig, hqueues, batches, hjobs, hparts⟩ := h
      exact ⟨hconfig, hqueues, batches, hjobs, harrivals ▸ hparts⟩

/-- The deliveries of the jobs and of the buffer are those that came in, in their order. -/
theorem handles (h : Orderly config queues events s) :
    s.jobs.flatMap AggregationJob.handles ++
        s.aggregator.pending.items.map PendingSubmission.handle =
      (arrivals events).map PendingSubmission.handle := by
  obtain ⟨-, -, batches, hjobs, hparts⟩ := h
  rw [flatMap_eq_map_flatten (hjobs.imp fun _ _ hover => hover.handles), ← List.map_append,
    hparts.flatten]

/-- A tick with a channel takes all that is there, or as much as is allowed. -/
theorem exists_job (h : Orderly config queues events s) (hmax : 0 < config.maxBatchSize.toNat)
    {channel : Channel} (hchannel : s.channel = some channel)
    (hne : s.aggregator.pending.isEmpty = false) (feed : Feed) (id : Uuid) :
    ∃ job, (s.act (.tick feed id)).jobs = s.jobs ++ [job] ∧ job.channel = channel ∧
      job.size = min config.maxBatchSize.toNat s.aggregator.pending.size := by
  obtain ⟨rfl, -, -⟩ := h
  rcases s.tick_cases hmax feed id with ⟨hnothing, -⟩ | ⟨-, job, hjob, hover, htaken⟩
  · rw [hchannel, hne] at hnothing
    rcases hnothing with hnothing | hnothing <;> cases hnothing
  · refine ⟨job, by rw [htaken], Option.some.inj (hjob.symm.trans hchannel), ?_⟩
    rw [AggregationJob.size, hover.handles, List.length_map, nextBatch, Buffer.length_splice]

/-- Every delivery of a job or of the buffer has brought a submission. -/
theorem exists_ingest (h : Orderly config queues events s) {handle : Handle}
    (hhandle : handle ∈ s.jobs.flatMap AggregationJob.handles ++
      s.aggregator.pending.items.map PendingSubmission.handle) :
    ∃ b content, Event.ingest b handle content ∈ sinceDetach Event.isDetach events ∧
      (Submission.read content.payload).isOk = true := by
  rw [h.handles] at hhandle
  obtain ⟨pending, hpending, rfl⟩ := List.mem_map.1 hhandle
  obtain ⟨e, he, hitem⟩ := exists_of_mem_arrivedSince hpending
  cases e with
  | ingest b handle content =>
      obtain ⟨submission, hread, rfl⟩ := Option.map_eq_some_iff.1 hitem
      refine ⟨b, content, he, ?_⟩
      cases hsubmission : Submission.read content.payload with
      | ok _ => rfl
      | error _ =>
          rw [hsubmission] at hread
          cases hread
  | tick | detach | share => cases hitem

end Orderly

/-- The tier is orderly after any events. -/
theorem orderly_run (config : Config.Aggregation) (queues : Config.Queues)
    (hmax : 0 < config.maxBatchSize.toNat) (events : List Event) :
    Orderly config queues events (run config queues events) := by
  -- By the last event, as what came in is counted from the last loss of the connection on.
  induction events using List.reverseRecOn with
  | nil => exact .start config queues
  | append_singleton events e ih =>
      rw [run, List.foldl_append]
      exact ih.act hmax e

end AggregatorRun

/-! ### The calendar tier -/

/-- A tree is the one that is built over its aggregate roots. -/
def BuiltTree.IsBuilt (config : Config.Calendar) (built : BuiltTree) : Prop :=
  CalendarTree.build built.tree.id config.function (built.roots.map PendingRoot.message) =
    .ok built.tree

/-- A job for a tree: it has the tree, the handles of the roots below it, and the messages for them,
all in the order of the roots. -/
structure FinalizeJob.IsOver (config : Config.Calendar) (queues : Config.Queues)
    (job : FinalizeJob) (built : BuiltTree) : Prop where
  tree : job.tree = { built.tree with stage := .finalizing }
  handles : job.handles = built.roots.map PendingRoot.handle
  messages : job.messages =
    job.tree.messages queues.stateOut config.baseUri (built.roots.map PendingRoot.message)

/-- A tree has the identifier that it was built with. -/
theorem CalendarTree.id_of_build {id : Uuid} {f : HashFunction} {batch : List AggregateRoot}
    {tree : CalendarTree} (h : build id f batch = .ok tree) : tree.id = id := by
  rw [build] at h
  cases hmerkle : Merkle.Tree.build f (batch.map AggregateRoot.aggRoot) with
  | error e =>
      rw [hmerkle] at h
      cases h
  | ok merkle =>
      rw [hmerkle] at h
      cases h
      rfl

/-- The calendar tier by itself. -/
structure ChainerRun where
  chainer : Chainer
  channel : Option Channel := none
  /-- The trees that ticks told of since the tier last forgot its work. -/
  ids : List Uuid := []
  /-- The jobs that were handed out since then. -/
  jobs : List FinalizeJob := []

namespace ChainerRun

/-- What may happen. -/
inductive Event where
  /-- A delivery comes in, in whatever state the broker is. -/
  | ingest (b : Broker) (handle : Handle) (content : Content)
  | tick (b : Broker) (id : Uuid)
  | finalize
  | detach
  | share (channel : Option Channel)

/-- Whether the tier forgets its work. -/
def Event.isDetach : Event → Bool
  | .detach => true
  | _ => false

/-- The aggregate root of a message, if it is of the kind for aggregate roots. -/
def root? (content : Content) : Option AggregateRoot :=
  if content.kind = some aggregatorKind then Json.decode? AggregateRoot.ofJson? content.payload
  else none

/-- The aggregate root that comes in by an event, with the handle of its delivery. -/
def Event.root? : Event → Option PendingRoot
  | .ingest _ handle content => (ChainerRun.root? content).map (⟨·, handle⟩)
  | _ => none

/-- The aggregate roots that came in since the tier last forgot its work, in their order. -/
def arrivals (events : List Event) : List PendingRoot :=
  arrivedSince Event.isDetach Event.root? events

/-- What comes of an event. -/
def act (s : ChainerRun) : Event → ChainerRun
  | .ingest b handle content => { s with chainer := (s.chainer.ingest b handle content).2 }
  | .tick b id =>
    let (_, chainer, told) := s.chainer.tick b id
    { s with chainer, ids := s.ids ++ told.toList }
  | .finalize =>
    let (chainer, jobs) := s.chainer.finalize s.channel
    { s with chainer, jobs := s.jobs ++ jobs }
  | .detach => { s with chainer := s.chainer.detach, ids := [], jobs := [] }
  | .share channel => { s with channel }

/-- The tier after a number of events. -/
def run (config : Config.Calendar) (queues : Config.Queues) (events : List Event) : ChainerRun :=
  events.foldl act { chainer := { config, queues } }

/-- What a tick takes from the buffer. -/
def nextBatch (s : ChainerRun) : List PendingRoot :=
  (s.chainer.pending.splice s.chainer.config.maxBatchSize.toNat).1

/-- An aggregate root goes to the end of the buffer, and nothing else changes the tier. -/
theorem ingest_eq (chainer : Chainer) (b : Broker) (handle : Handle) (content : Content) :
    (chainer.ingest b handle content).2 =
      match root? content with
      | some root => { chainer with pending := chainer.pending.push ⟨root, handle⟩ }
      | none => chainer := by
  rw [Chainer.ingest, Inbound.read, root?]
  by_cases hroot : content.kind = some aggregatorKind
  · rw [if_pos hroot, if_pos hroot]
    cases Json.decode? AggregateRoot.ofJson? content.payload with
    | some root => rfl
    | none => rfl
  · rw [if_neg hroot, if_neg hroot]
    by_cases htx : content.kind = some anchorTxKind
    · rw [if_pos htx]
      cases Json.decode? Json.value? content.payload with
      | some body => rfl
      | none => rfl
    · rw [if_neg htx]

/-- A tick has nothing to do and changes nothing, or it builds a tree over the next batch, whether
or not there is a channel. -/
theorem tick_cases (s : ChainerRun) (hmax : 0 < s.chainer.config.maxBatchSize.toNat) (b : Broker)
    (id : Uuid) :
    (s.chainer.pending.isEmpty = true ∧ s.act (.tick b id) = s) ∨
      (¬ s.chainer.pending.isEmpty = true ∧
        ∃ built : BuiltTree, built.tree.id = id ∧ built.roots = s.nextBatch ∧
          built.IsBuilt s.chainer.config ∧
          s.act (.tick b id) =
            { s with
              chainer :=
                { s.chainer with
                  pending := (s.chainer.pending.splice s.chainer.config.maxBatchSize.toNat).2
                  built := s.chainer.built ++ [built] }
              ids := s.ids ++ [id] }) := by
  obtain ⟨chainer, channel, ids, jobs⟩ := s
  simp only [act, Chainer.tick]
  by_cases hempty : chainer.pending.isEmpty = true
  · rw [if_pos hempty]
    exact Or.inl ⟨hempty, by simp⟩
  · obtain ⟨tree, hbuild, -⟩ := CalendarTree.exists_build id chainer.config.function
      (mt List.map_eq_nil_iff.1 (Buffer.splice_ne_nil hempty hmax))
    obtain rfl := CalendarTree.id_of_build hbuild
    rw [if_neg hempty, hbuild]
    exact Or.inr ⟨hempty, ⟨tree, _⟩, rfl, rfl, hbuild, rfl⟩

/-- A finalize tick without a channel changes nothing. -/
theorem finalize_of_none {s : ChainerRun} (h : s.channel = none) : s.act .finalize = s := by
  obtain ⟨chainer, channel, ids, jobs⟩ := s
  cases h
  simp [act, Chainer.finalize]

/-- A finalize tick with a channel hands out the job of each tree that waits. -/
theorem finalize_of_some {s : ChainerRun} {channel : Channel} (h : s.channel = some channel) :
    s.act .finalize =
      { s with
        chainer := { s.chainer with built := [] }
        jobs := s.jobs ++ s.chainer.built.map (s.chainer.jobOf channel) } := by
  obtain ⟨chainer, channel, ids, jobs⟩ := s
  cases h
  rfl

/-- What is true of the tier after a number of events. -/
structure Orderly (config : Config.Calendar) (queues : Config.Queues) (events : List Event)
    (s : ChainerRun) : Prop where
  config_eq : s.chainer.config = config
  queues_eq : s.chainer.queues = queues
  /-- The jobs are for trees that, followed by those that wait, are the trees that ticks told of;
  and the roots below them, followed by the buffer, are what came in. -/
  trees : ∃ handed, List.Forall₂ (FinalizeJob.IsOver config queues) s.jobs handed ∧
    (∀ built ∈ handed ++ s.chainer.built, built.IsBuilt config) ∧
    (handed ++ s.chainer.built).map (·.tree.id) = s.ids ∧
    Buffer.Partitions config.maxBatchSize.toNat (arrivals events)
      ((handed ++ s.chainer.built).map BuiltTree.roots) s.chainer.pending

namespace Orderly

variable {config : Config.Calendar} {queues : Config.Queues} {events : List Event}
  {s : ChainerRun}

theorem start (config : Config.Calendar) (queues : Config.Queues) :
    Orderly config queues [] { chainer := { config, queues } } :=
  ⟨rfl, rfl, [], .nil, by simp, rfl, .nil _⟩

/-- An aggregate root is put into the buffer, and anything else leaves it as it is. -/
theorem ingest (h : Orderly config queues events s) (b : Broker) (handle : Handle)
    (content : Content) :
    Orderly config queues (events ++ [.ingest b handle content])
      (s.act (.ingest b handle content)) := by
  have harrivals : arrivals (events ++ [.ingest b handle content]) =
      arrivals events ++ ((root? content).map (PendingRoot.mk · handle)).toList :=
    arrivedSince_concat rfl events
  obtain ⟨rfl, rfl, handed, hjobs, hover, hids, hparts⟩ := h
  rw [act, ingest_eq]
  cases hroot : root? content with
  | none =>
      have hsame : arrivals (events ++ [.ingest b handle content]) = arrivals events := by
        rw [harrivals, hroot]
        exact List.append_nil _
      exact ⟨rfl, rfl, handed, hjobs, hover, hids, hsame ▸ hparts⟩
  | some root =>
      rw [hroot] at harrivals
      exact ⟨rfl, rfl, handed, hjobs, hover, hids, harrivals ▸ hparts.push ⟨root, handle⟩⟩

/-- A tick moves the head of the buffer below a new tree, behind those that wait. -/
theorem tick (h : Orderly config queues events s) (hmax : 0 < config.maxBatchSize.toNat)
    (b : Broker) (id : Uuid) :
    Orderly config queues (events ++ [.tick b id]) (s.act (.tick b id)) := by
  have harrivals : arrivals (events ++ [.tick b id]) = arrivals events :=
    arrivedSince_of_none rfl rfl events
  obtain ⟨rfl, rfl, handed, hjobs, hover, hids, hparts⟩ := h
  rw [← harrivals] at hparts
  rcases s.tick_cases hmax b id with ⟨-, hsame⟩ | ⟨hne, built, hid, hroots, hbuilt, htaken⟩
  · rw [hsame]
    exact ⟨rfl, rfl, handed, hjobs, hover, hids, hparts⟩
  · rw [htaken]
    refine ⟨rfl, rfl, handed, hjobs, ?_, ?_, ?_⟩
    · intro other hother
      rw [← List.append_assoc, List.mem_append] at hother
      rcases hother with hother | hother
      · exact hover other hother
      · rw [List.mem_singleton.1 hother]
        exact hbuilt
    · rw [← List.append_assoc, List.map_append, hids, List.map_singleton, hid]
    · rw [← List.append_assoc, List.map_append, List.map_singleton, hroots]
      exact hparts.splice hmax hne

/-- A finalize tick hands out what waits, if there is a channel. -/
theorem finalize (h : Orderly config queues events s) :
    Orderly config queues (events ++ [.finalize]) (s.act .finalize) := by
  have harrivals : arrivals (events ++ [.finalize]) = arrivals events :=
    arrivedSince_of_none rfl rfl events
  obtain ⟨rfl, rfl, handed, hjobs, hover, hids, hparts⟩ := h
  rw [← harrivals] at hparts
  cases hchannel : s.channel with
  | none =>
      rw [finalize_of_none hchannel]
      exact ⟨rfl, rfl, handed, hjobs, hover, hids, hparts⟩
  | some channel =>
      rw [← List.append_nil (handed ++ s.chainer.built)] at hover hids hparts
      rw [finalize_of_some hchannel]
      refine ⟨rfl, rfl, handed ++ s.chainer.built, ?_, hover, hids, hparts⟩
      refine List.rel_append hjobs (List.forall₂_map_left_iff.2 ?_)
      exact List.forall₂_same.2 fun built _ => ⟨rfl, rfl, rfl⟩

theorem act (h : Orderly config queues events s) (hmax : 0 < config.maxBatchSize.toNat)
    (e : Event) : Orderly config queues (events ++ [e]) (s.act e) := by
  cases e with
  | ingest b handle content => exact h.ingest b handle content
  | tick b id => exact h.tick hmax b id
  | finalize => exact h.finalize
  | detach =>
      have harrivals : arrivals (events ++ [.detach]) = [] := arrivedSince_of_detach rfl events
      refine ⟨h.config_eq, h.queues_eq, [], .nil, by simp [ChainerRun.act, Chainer.detach], rfl, ?_⟩
      rw [harrivals]
      exact .nil _
  | share channel =>
      have harrivals : arrivals (events ++ [.share channel]) = arrivals events :=
        arrivedSince_of_none rfl rfl events
      obtain ⟨hconfig, hqueues, handed, hjobs, hover, hids, hparts⟩ := h
      exact ⟨hconfig, hqueues, handed, hjobs, hover, hids, harrivals ▸ hparts⟩

/-- The deliveries of the jobs, of the trees that wait and of the buffer are those that came in, in
their order. -/
theorem handles (h : Orderly config queues events s) :
    s.jobs.flatMap FinalizeJob.handles ++
        (s.chainer.built.flatMap BuiltTree.roots ++ s.chainer.pending.items).map
          PendingRoot.handle =
      (arrivals events).map PendingRoot.handle := by
  obtain ⟨-, -, handed, hjobs, -, -, hparts⟩ := h
  have hjobs : List.Forall₂ (fun (job : FinalizeJob) batch =>
      job.handles = batch.map PendingRoot.handle) s.jobs (handed.map BuiltTree.roots) :=
    List.forall₂_map_right_iff.2 (hjobs.imp fun _ _ hover => hover.handles)
  rw [flatMap_eq_map_flatten hjobs, ← List.map_append, ← hparts.flatten,
    List.map_append (f := BuiltTree.roots),
    List.flatten_append, List.append_assoc, List.flatMap_def]

/-- A tick builds a tree over all that is there, or over as much as is allowed. -/
theorem exists_built (h : Orderly config queues events s) (hmax : 0 < config.maxBatchSize.toNat)
    (hne : s.chainer.pending.isEmpty = false) (b : Broker) (id : Uuid) :
    ∃ built, (s.act (.tick b id)).chainer.built = s.chainer.built ++ [built] ∧
      (s.act (.tick b id)).ids = s.ids ++ [id] ∧
      built.roots.length = min config.maxBatchSize.toNat s.chainer.pending.size := by
  obtain ⟨rfl, -, -⟩ := h
  rcases s.tick_cases hmax b id with ⟨hnothing, -⟩ | ⟨-, built, -, hroots, -, htaken⟩
  · rw [hne] at hnothing
    cases hnothing
  · refine ⟨built, by rw [htaken], by rw [htaken], ?_⟩
    rw [hroots, nextBatch, Buffer.length_splice]

/-- Every delivery of a job, of a tree that waits or of the buffer has brought an aggregate root. -/
theorem exists_ingest (h : Orderly config queues events s) {handle : Handle}
    (hhandle : handle ∈ s.jobs.flatMap FinalizeJob.handles ++
      (s.chainer.built.flatMap BuiltTree.roots ++ s.chainer.pending.items).map
        PendingRoot.handle) :
    ∃ b content, Event.ingest b handle content ∈ sinceDetach Event.isDetach events ∧
      (root? content).isSome = true := by
  rw [h.handles] at hhandle
  obtain ⟨root, hroot, rfl⟩ := List.mem_map.1 hhandle
  obtain ⟨e, he, hitem⟩ := exists_of_mem_arrivedSince hroot
  cases e with
  | ingest b handle content =>
      obtain ⟨message, hread, rfl⟩ := Option.map_eq_some_iff.1 hitem
      exact ⟨b, content, he, hread ▸ rfl⟩
  | tick | finalize | detach | share => cases hitem

end Orderly

/-- The tier is orderly after any events. -/
theorem orderly_run (config : Config.Calendar) (queues : Config.Queues)
    (hmax : 0 < config.maxBatchSize.toNat) (events : List Event) :
    Orderly config queues events (run config queues events) := by
  induction events using List.reverseRecOn with
  | nil => exact .start config queues
  | append_singleton events e ih =>
      rw [run, List.foldl_append]
      exact ih.act hmax e

end ChainerRun

/-! ### Batches and arrivals -/

/-- **The batches of both tiers are what was accepted.**  After any events, if batches may have an
item at all:

* The jobs of the aggregation tier are over batches that, followed by the buffer, are the
  submissions that came in since the tier last forgot its work, in their order and each with its own
  handle; no delivery of anything else is among them.  A tick without a channel changes nothing; one
  with a channel takes all that is there, or as much as is allowed.
* The same is true of the calendar tier with the trees that were handed out and those that wait,
  which are the trees that ticks told of, in their order.  It builds trees with or without a
  channel.  A finalize tick without a channel changes nothing; one with a channel hands out a job
  for each tree that waits, and none waits any longer. -/
theorem batches_partition_arrivals :
    (∀ (config : Config.Aggregation) (queues : Config.Queues) (events : List AggregatorRun.Event),
      0 < config.maxBatchSize.toNat →
        let s := AggregatorRun.run config queues events
        (∃ batches, List.Forall₂ (AggregationJob.IsOver config queues) s.jobs batches ∧
          Buffer.Partitions config.maxBatchSize.toNat (AggregatorRun.arrivals events) batches
            s.aggregator.pending) ∧
        (∀ handle ∈ s.jobs.flatMap AggregationJob.handles ++
            s.aggregator.pending.items.map PendingSubmission.handle,
          ∃ b content, .ingest b handle content ∈
              sinceDetach AggregatorRun.Event.isDetach events ∧
            (Submission.read content.payload).isOk = true) ∧
        (∀ feed id, s.channel = none → s.act (.tick feed id) = s) ∧
        (∀ feed id channel, s.channel = some channel → s.aggregator.pending.isEmpty = false →
          ∃ job, (s.act (.tick feed id)).jobs = s.jobs ++ [job] ∧ job.channel = channel ∧
            job.size = min config.maxBatchSize.toNat s.aggregator.pending.size)) ∧
      (∀ (config : Config.Calendar) (queues : Config.Queues) (events : List ChainerRun.Event),
        0 < config.maxBatchSize.toNat →
          let s := ChainerRun.run config queues events
          (∃ handed, List.Forall₂ (FinalizeJob.IsOver config queues) s.jobs handed ∧
            (∀ built ∈ handed ++ s.chainer.built, built.IsBuilt config) ∧
            (handed ++ s.chainer.built).map (·.tree.id) = s.ids ∧
            Buffer.Partitions config.maxBatchSize.toNat (ChainerRun.arrivals events)
              ((handed ++ s.chainer.built).map BuiltTree.roots) s.chainer.pending) ∧
          (∀ handle ∈ s.jobs.flatMap FinalizeJob.handles ++
              (s.chainer.built.flatMap BuiltTree.roots ++ s.chainer.pending.items).map
                PendingRoot.handle,
            ∃ b content, .ingest b handle content ∈ sinceDetach ChainerRun.Event.isDetach events ∧
              (ChainerRun.root? content).isSome = true) ∧
          (∀ b id, s.chainer.pending.isEmpty = false →
            ∃ built, (s.act (.tick b id)).chainer.built = s.chainer.built ++ [built] ∧
              (s.act (.tick b id)).ids = s.ids ++ [id] ∧
              built.roots.length = min config.maxBatchSize.toNat s.chainer.pending.size) ∧
          (s.channel = none → s.act .finalize = s) ∧
          (∀ channel, s.channel = some channel →
            (s.act .finalize).jobs = s.jobs ++ s.chainer.built.map (s.chainer.jobOf channel) ∧
              (s.act .finalize).chainer.built = [])) := by
  constructor
  · intro config queues events hmax s
    have h := AggregatorRun.orderly_run config queues hmax events
    exact ⟨h.batches, fun _ => h.exists_ingest,
      fun feed id hnone => AggregatorRun.tick_of_none hnone feed id,
      fun feed id _ hsome hne => h.exists_job hmax hsome hne feed id⟩
  · intro config queues events hmax s
    have h := ChainerRun.orderly_run config queues hmax events
    refine ⟨h.trees, fun _ => h.exists_ingest, fun b id hne => h.exists_built hmax hne b id,
      ChainerRun.finalize_of_none, ?_⟩
    intro channel hsome
    rw [ChainerRun.finalize_of_some hsome]
    exact ⟨rfl, rfl⟩

/-- A delivery that is no submission, and news of a transaction, are left out of the batches. -/
theorem other_deliveries_are_left_out :
    let config : Config :=
      { aggregation := { maxBatchSize := 2 }, calendar := { maxBatchSize := 2 } }
    let submission : Content :=
      ⟨none, (Submission.Payload.toJson ⟨"a", String.ofList (List.replicate 40 '0'), none⟩).render⟩
    let root : Content :=
      ⟨some aggregatorKind, (AggregateRoot.mk .zero ⟨List.replicate 32 0, rfl⟩ 1).toJson.render⟩
    let submissions : List AggregatorRun.Event :=
      [.ingest {} ⟨0, 1⟩ submission, .ingest {} ⟨0, 2⟩ ⟨none, []⟩, .tick {} .zero,
        .share (some ⟨0, 0⟩), .ingest {} ⟨0, 3⟩ submission, .ingest {} ⟨0, 4⟩ submission,
        .tick {} .zero]
    let s := AggregatorRun.run config.aggregation config.queues submissions
    let roots : List ChainerRun.Event :=
      [.ingest {} ⟨0, 1⟩ root, .ingest {} ⟨0, 2⟩ ⟨some anchorTxKind, root.payload⟩,
        .tick {} .zero, .finalize, .ingest {} ⟨0, 3⟩ root, .share (some ⟨0, 0⟩), .finalize]
    let t := ChainerRun.run config.calendar config.queues roots
    (0 < config.aggregation.maxBatchSize.toNat ∧
        s.jobs.map AggregationJob.handles = [[⟨0, 1⟩, ⟨0, 3⟩]] ∧
        s.aggregator.pending.items.map PendingSubmission.handle = [⟨0, 4⟩] ∧
        ∃ batches, List.Forall₂ (AggregationJob.IsOver config.aggregation config.queues) s.jobs
            batches ∧
          Buffer.Partitions 2 (AggregatorRun.arrivals submissions) batches s.aggregator.pending) ∧
      (0 < config.calendar.maxBatchSize.toNat ∧
        t.jobs.map FinalizeJob.handles = [[⟨0, 1⟩]] ∧ t.chainer.built = [] ∧
        t.chainer.pending.items.map PendingRoot.handle = [⟨0, 3⟩] ∧
        ∃ handed, List.Forall₂ (FinalizeJob.IsOver config.calendar config.queues) t.jobs handed ∧
          (handed ++ t.chainer.built).map (·.tree.id) = [.zero]) := by
  intro config submission root submissions s roots t
  have hsubmissions := batches_partition_arrivals.1 config.aggregation config.queues submissions
    (by decide)
  have hroots := batches_partition_arrivals.2 config.calendar config.queues roots (by decide)
  obtain ⟨handed, hjobs, -, hids, -⟩ := hroots.1
  have hzero : t.ids = [.zero] := by decide +kernel
  exact ⟨⟨by decide, by decide +kernel, by decide +kernel, hsubmissions.1⟩,
    by decide, by decide +kernel, by decide +kernel, by decide +kernel, handed, hjobs,
    hids.trans hzero⟩

end HashCalendar
