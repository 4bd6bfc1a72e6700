/-
**Runs of the aggregation tier.**

The aggregation tier works at a broker that others call as well.  It connects, takes deliveries into
its hand and from there into its buffer, prepares a job at each tick, and makes the calls of its
jobs one by one; several jobs may be under way, and anything may happen between two of their calls.
The others may do whatever does not touch the tier's own queues: they do not put anything where the
aggregate roots go, and they neither take nor settle submissions.

Main definitions:

* `HashCalendar.Worker`, `HashCalendar.Station` — a job under way, and the tier at its broker;
* `HashCalendar.Station.Event`, `HashCalendar.Station.act` — what may happen, and what comes of it;
* `HashCalendar.Station.Reachable` — the states that a run may get to.

Main results:

* `HashCalendar.Station.ingest_broker` — taking in does to the broker what the tier does;
* `HashCalendar.Station.exists_iterate_advance` — **the calls of a job in a row carry out the job**.
-/

import HashCalendar.Aggregation.Aggregator
import HashCalendar.Config.Links
import HashCalendar.Proofs.Batch.Effects
import HashCalendar.Proofs.Broker.Line
import HashCalendar.Proofs.Runs

set_option relaxedAutoImplicit false
set_option autoImplicit false

namespace HashCalendar

namespace AggregationJob

/-- How far the work on a job is at its start. -/
def start (job : AggregationJob) : Progress :=
  match job.prepared with
  | .ok (_, messages) => .publishing messages
  | .error _ => .returning job.handles

/-- At its start no delivery of a job is settled. -/
@[simp] theorem outstanding_start (job : AggregationJob) :
    job.start.outstanding job.handles = job.handles := by
  rw [start]
  cases job.prepared with
  | ok p => rfl
  | error e => rfl

/-- The calls in a row carry out the job. -/
theorem leads_commit (job : AggregationJob) (b : Broker) :
    Progress.Leads job.channel job.handles (b, job.start)
      ((job.commit b).1, .settled (job.commit b).2) := by
  rw [start, commit]
  cases job.prepared with
  | ok p => exact Progress.leads_publishAndSettle b p.2
  | error e => exact Progress.leads_giveBackAll b job.handles

end AggregationJob

/-- A job under way. -/
structure Worker where
  job : AggregationJob
  /-- The submissions that the job was prepared over. -/
  batch : List PendingSubmission
  progress : Progress
  /-- The serial numbers of its messages that were enqueued. -/
  sent : List Nat := []

/-- A job under way after its next call, which is made to a given broker. -/
def Worker.advance (w : Worker) (b : Broker) : Worker where
  job := w.job
  batch := w.batch
  progress := w.progress.next w.job.channel w.job.handles b
  sent := w.sent ++ (w.progress.enqueues? w.job.channel b).toList

/-- The aggregation tier at its broker. -/
structure Station extends Line where
  aggregator : Aggregator
  /-- Deliveries that were received and not taken in yet. -/
  inHand : List (Handle × Content) := []
  /-- All jobs that were ever prepared. -/
  workers : List Worker := []

namespace Station

/-- The tier at a new broker, before it ever connected. -/
def ofConfig (c : Config) : Station where
  link := { settings := c.aggregatorLink }
  aggregator := { config := c.aggregation, queues := c.queues }

/-! ### Events -/

/-- What may happen. -/
inductive Event where
  /-- Somebody else calls the broker. -/
  | call (c : Broker.Call)
  /-- The tier makes an attempt to connect. -/
  | attempt (incident : Incident)
  /-- The tier gives up its channel. -/
  | closeLink
  /-- The tier forgets its pending work. -/
  | detach
  /-- The tier receives the next delivery. -/
  | receive
  /-- The tier takes in one of the deliveries in its hand. -/
  | ingest (number : Nat)
  /-- The tier prepares a job. -/
  | tick (feed : Feed) (id : Uuid)
  /-- A job makes its next call. -/
  | advance (number : Nat)

/-- Receives a delivery, if there is one. -/
def receive (s : Station) : Station :=
  { s with toLine := s.toLine.receive.1, inHand := s.inHand ++ s.toLine.receive.2.toList }

/-- The calls by which a delivery is taken in. -/
def ingestCalls (handle : Handle) (content : Content) : List Broker.Call :=
  match Submission.read content.payload with
  | .ok _ => []
  | .error _ => [.nack handle false]

/-- Takes in a delivery. -/
def ingest (s : Station) (handle : Handle) (content : Content) : Station :=
  { s with
    toLine := s.toLine.performAll (ingestCalls handle content)
    aggregator := (s.aggregator.ingest s.broker handle content).2 }

/-- The submissions that the next job is prepared over. -/
def nextBatch (s : Station) : List PendingSubmission :=
  (s.aggregator.pending.splice s.aggregator.config.maxBatchSize.toNat).1

/-- Prepares a job, if there is something to do and a channel to do it. -/
def tick (s : Station) (feed : Feed) (id : Uuid) : Station :=
  match s.aggregator.tick s.link.channel feed id with
  | (aggregator, none) => { s with aggregator }
  | (aggregator, some job) =>
    { s with
      aggregator
      workers := s.workers ++ [{ job, batch := s.nextBatch, progress := job.start }] }

/-- Lets a job make its next call. -/
def advance (s : Station) (number : Nat) : Station :=
  match s.workers[number]? with
  | none => s
  | some w =>
    { s with
      toLine := s.toLine.performAll (w.progress.call? w.job.channel).toList
      workers := s.workers.set number (w.advance s.broker) }

/-- What comes of an event. -/
def act (s : Station) : Event → Station
  | .call c => { s with toLine := s.toLine.perform c }
  | .attempt incident => { s with toLine := s.toLine.attempt incident }
  | .closeLink => { s with link := s.link.close }
  | .detach => { s with aggregator := s.aggregator.detach }
  | .receive => s.receive
  | .ingest number =>
    match s.inHand[number]? with
    | none => s
    | some d => { s.ingest d.1 d.2 with inHand := s.inHand.eraseIdx number }
  | .tick feed id => s.tick feed id
  | .advance number => s.advance number

/-! ### Runs -/

/-- What others may do: they put nothing where the aggregate roots go, and they neither take nor
settle submissions. -/
def others (queues : Config.Queues) : Broker.Policy where
  arrive queue _ := queue ≠ queues.calendarIn
  settle entry _ := entry.queue ≠ queues.aggregatorIn
  take queue := queue ≠ queues.aggregatorIn

/-- Whether an event may happen; the tier itself may do everything it can. -/
def Permits (queues : Config.Queues) (s : Station) : Event → Prop
  | .call c => (others queues).Allows s.broker c
  | _ => True

/-- The states that a run may get to. -/
def Reachable (c : Config) : Station → Prop := Reaches (Permits c.queues) act (ofConfig c)

/-- The tier after a number of events. -/
def run (c : Config) (events : List Event) : Station := events.foldl act (.ofConfig c)

theorem reachable_run {c : Config} {events : List Event}
    (he : PermitsAll (Permits c.queues) act (ofConfig c) events) : Reachable c (run c events) :=
  Reaches.start.foldl he

/-! ### The tier does what it does at once -/

/-- Taking in a delivery does to the broker what the tier does. -/
theorem ingest_broker (s : Station) (handle : Handle) (content : Content) :
    (s.ingest handle content).broker = (s.aggregator.ingest s.broker handle content).1 := by
  rw [ingest, Line.performAll_broker, ingestCalls, Aggregator.ingest]
  cases Submission.read content.payload with
  | ok submission => rfl
  | error e => rfl

/-- To take in a delivery is what the tier does at its broker. -/
theorem ingest_eq (s : Station) (handle : Handle) (content : Content) :
    ((s.ingest handle content).broker, (s.ingest handle content).aggregator) =
      s.aggregator.ingest s.broker handle content :=
  Prod.ext (s.ingest_broker handle content) rfl

/-- A tier that has nothing in hand receives a delivery and takes it in. -/
theorem act_ingest_receive {s : Station} {l : Line} {handle : Handle} {content : Content}
    (hhand : s.inHand = []) (hreceive : s.toLine.receive = (l, some (handle, content))) :
    s.receive.act (.ingest 0) =
      { ({ s with toLine := l } : Station).ingest handle content with inHand := [] } := by
  rw [receive, hreceive, hhand]
  rfl

/-- The tier after a job was prepared over the next batch. -/
def assign (s : Station) (job : AggregationJob) : Station :=
  { s with
    aggregator :=
      { s.aggregator with
        pending := (s.aggregator.pending.splice s.aggregator.config.maxBatchSize.toNat).2 }
    workers := s.workers ++ [{ job, batch := s.nextBatch, progress := job.start }] }

/-- A tick does nothing, or it prepares a job on the channel that is shared. -/
theorem tick_cases (s : Station) (feed : Feed) (id : Uuid) :
    s.tick feed id = s ∨ ∃ ch beacon, s.link.channel = some ch ∧
      s.tick feed id = s.assign (s.aggregator.prepare ch beacon id s.nextBatch) := by
  unfold tick Aggregator.tick
  by_cases hempty : s.aggregator.pending.isEmpty = true
  · rw [if_pos hempty]
    exact Or.inl rfl
  · rw [if_neg hempty]
    cases s.link.channel with
    | none => exact Or.inl rfl
    | some ch => exact Or.inr ⟨ch, _, rfl, rfl⟩

/-- The next batch is the head of the buffer. -/
theorem nextBatch_append (s : Station) (job : AggregationJob) :
    s.nextBatch ++ (s.assign job).aggregator.pending.items = s.aggregator.pending.items :=
  s.aggregator.pending.splice_append _

theorem advance_of_getElem? {s : Station} {number : Nat} {w : Worker}
    (h : s.workers[number]? = some w) :
    s.advance number =
      { s with
        toLine := s.toLine.performAll (w.progress.call? w.job.channel).toList
        workers := s.workers.set number (w.advance s.broker) } := by
  rw [advance, h]

/-- The tier while a job makes its calls: nothing else of it changes. -/
def working (s : Station) (number : Nat) (t : Tracked) (w : Worker) : Station :=
  { s with tracked := t, workers := s.workers.set number w }

/-- The calls of a job are those of its batch. -/
theorem iterate_advance {s : Station} {number : Nat} {w : Worker}
    (h : s.workers[number]? = some w) (n : Nat) :
    ∃ t w', (fun s => act s (.advance number))^[n] s = s.working number t w' ∧ w'.job = w.job ∧
      (t.broker, w'.progress) =
        (Progress.advance w.job.channel w.job.handles)^[n] (s.broker, w.progress) := by
  obtain ⟨hlt, rfl⟩ := List.getElem?_eq_some_iff.1 h
  refine iterate_related (R := fun (s' : Station) (u : Broker × Progress) =>
    ∃ t w', s' = s.working number t w' ∧ w'.job = s.workers[number].job ∧
      (t.broker, w'.progress) = u) ?_ ⟨s.tracked, s.workers[number], ?_, rfl, rfl⟩ n
  · rintro _ _ ⟨t, w', rfl, hjob, rfl⟩
    have hw' : (s.working number t w').workers[number]? = some w' := List.getElem?_set_self hlt
    refine ⟨t.performAll (w'.progress.call? w'.job.channel).toList, w'.advance t.broker, ?_,
      hjob, ?_⟩
    · simp only [act]
      rw [advance_of_getElem? hw']
      simp only [working, Line.performAll, List.set_set]
      rfl
    · rw [Tracked.performAll_broker, ← hjob]
      rfl
  · rw [working, List.set_getElem_self]

/-- The calls of a job in a row carry out the job: this is what comes of it when nothing happens in
between. -/
theorem exists_iterate_advance {s : Station} {number : Nat} {w : Worker}
    (h : s.workers[number]? = some w) (hstart : w.progress = w.job.start) :
    ∃ n t w', (fun s => act s (.advance number))^[n] s = s.working number t w' ∧
      t.broker = (w.job.commit s.broker).1 ∧
      w'.progress = .settled (w.job.commit s.broker).2 := by
  obtain ⟨n, hn⟩ := w.job.leads_commit s.broker
  obtain ⟨t, w', hworking, -, heq⟩ := iterate_advance h n
  rw [hstart, hn] at heq
  exact ⟨n, t, w', hworking, congrArg Prod.fst heq, congrArg Prod.snd heq⟩

end Station

end HashCalendar
