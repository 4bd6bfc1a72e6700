/-
**Runs of the calendar tier.**

The calendar tier works at a broker that others call as well, in whatever way they like.  It
connects, takes deliveries into its hand and from there into its buffer, builds trees, and at a
finalize tick hands out a job for each tree that was built.  The jobs make their calls one by one;
several jobs may be under way, in any order, and anything may happen between two of their calls.

Main definitions:

* `HashCalendar.Finalizer`, `HashCalendar.CalendarStation` — a job under way, and the tier at its
  broker;
* `HashCalendar.Finalizer.block?` — the block that a job has emitted;
* `HashCalendar.CalendarStation.Event`, `HashCalendar.CalendarStation.act` — what may happen, and
  what comes of it;
* `HashCalendar.CalendarStation.run` — the tier after a number of events.

Main results:

* `HashCalendar.CalendarStation.ingest_broker`, `HashCalendar.CalendarStation.tick_broker` — taking
  in and building trees do to the broker what the tier does;
* `HashCalendar.CalendarStation.exists_iterate_advance` — **the calls of a job in a row carry out
  the job**.
-/

import HashCalendar.Calendar.Chainer
import HashCalendar.Config.Links
import HashCalendar.Proofs.Batch.Effects
import HashCalendar.Proofs.Broker.Line
import HashCalendar.Proofs.Merkle.Completeness

set_option relaxedAutoImplicit false
set_option autoImplicit false

namespace HashCalendar

/-- Carrying out a job settles its batch, and emits its block if all was acknowledged. -/
theorem FinalizeJob.run_eq (job : FinalizeJob) (b : Broker) :
    (job.run b).1 = (b.publishAndSettle job.channel job.messages job.handles).1 ∧
      (job.run b).2.1.settled = (b.publishAndSettle job.channel job.messages job.handles).2 ∧
      (job.run b).2.2 =
        if (b.publishAndSettle job.channel job.messages job.handles).2.isAcked then
          some job.tree.block
        else none := by
  rw [run]
  cases b.publishAndSettle job.channel job.messages job.handles with
  | mk b' outcome =>
      dsimp only
      cases outcome.isAcked with
      | true => exact ⟨rfl, rfl, rfl⟩
      | false => exact ⟨rfl, rfl, rfl⟩

/-- A job under way. -/
structure Finalizer where
  job : FinalizeJob
  /-- The aggregate roots that its tree was built over. -/
  roots : List PendingRoot
  progress : Progress
  /-- The serial numbers of its messages that were enqueued. -/
  sent : List Nat := []
  /-- The tags of its deliveries that it acknowledged. -/
  acked : List Nat := []

namespace Finalizer

/-- A job that has just been handed out. -/
def start (job : FinalizeJob) (roots : List PendingRoot) : Finalizer :=
  { job, roots, progress := .publishing job.messages }

/-- The next call of a job, if there is one. -/
def calls (w : Finalizer) : List Broker.Call := (w.progress.call? w.job.channel).toList

/-- A job under way after its next call, which is made to a given broker. -/
def advance (w : Finalizer) (b : Broker) : Finalizer where
  job := w.job
  roots := w.roots
  progress := w.progress.next w.job.channel w.job.handles b
  sent := w.sent ++ (w.progress.enqueues? w.job.channel b).toList
  acked := w.acked ++ (w.progress.acks? b).toList

/-- A job that is done makes no more calls. -/
theorem advance_of_settled (w : Finalizer) {outcome : Outcome} (h : w.progress = .settled outcome)
    (b : Broker) : w.advance b = w := by
  cases w
  cases h
  simp [advance, Progress.next, Progress.enqueues?, Progress.acks?]

/-- The block that a job has emitted: there is one once all its deliveries were acknowledged. -/
def block? (w : Finalizer) : Option Block :=
  match w.progress with
  | .settled outcome => if outcome.isAcked then some w.job.tree.block else none
  | _ => none

/-- A job that has emitted a block is done. -/
theorem exists_outcome_of_block (w : Finalizer) {block : Block} (h : w.block? = some block) :
    ∃ outcome, w.progress = .settled outcome := by
  rw [block?] at h
  cases hp : w.progress with
  | settled outcome => exact ⟨outcome, rfl⟩
  | publishing left =>
      rw [hp] at h
      cases h
  | acking left count =>
      rw [hp] at h
      cases h
  | returning left =>
      rw [hp] at h
      cases h

end Finalizer

/-- The calendar tier at its broker. -/
structure CalendarStation extends Line where
  chainer : Chainer
  /-- Deliveries that were received and not taken in yet. -/
  inHand : List (Handle × Content) := []
  /-- All jobs that were ever handed out. -/
  finalizers : List Finalizer := []

namespace CalendarStation

/-- The tier at a new broker, before it ever connected. -/
def ofConfig (c : Config) : CalendarStation where
  link := { settings := c.calendarLink }
  chainer := { config := c.calendar, queues := c.queues }

/-- What the broker of the tier did to each message. -/
def ledger (s : CalendarStation) : Ledger := s.tracked.ledger

/-! ### Events -/

/-- What may happen. -/
inductive Event where
  /-- Somebody else calls the broker. -/
  | call (c : Broker.Call)
  /-- The tier makes an attempt to connect. -/
  | attempt (incident : Incident)
  /-- The tier gives up its channel. -/
  | closeLink
  /-- The tier forgets pending roots and built trees. -/
  | detach
  /-- The tier receives the next delivery. -/
  | receive
  /-- The tier takes in one of the deliveries in its hand. -/
  | ingest (number : Nat)
  /-- The tier builds a tree. -/
  | tick (id : Uuid)
  /-- The tier hands out the jobs of all built trees. -/
  | finalize
  /-- A job makes its next call. -/
  | advance (number : Nat)

/-- Receives a delivery, if there is one. -/
def receive (s : CalendarStation) : CalendarStation :=
  { s with toLine := s.toLine.receive.1, inHand := s.inHand ++ s.toLine.receive.2.toList }

/-- The calls by which a delivery is taken in. -/
def ingestCalls (handle : Handle) (content : Content) : List Broker.Call :=
  match Inbound.read content with
  | .ok (.aggregateRoot _) => []
  | .ok (.anchorTx _) => [.ack handle]
  | .error _ => [.nack handle false]

/-- Takes in a delivery. -/
def ingest (s : CalendarStation) (handle : Handle) (content : Content) : CalendarStation :=
  { s with
    toLine := s.toLine.performAll (ingestCalls handle content)
    chainer := (s.chainer.ingest s.broker handle content).2 }

/-- The aggregate roots that the next tree is built over. -/
def nextBatch (s : CalendarStation) : List PendingRoot :=
  (s.chainer.pending.splice s.chainer.config.maxBatchSize.toNat).1

/-- The calls of a calendar tick: where there is nothing to build a tree over, the batch is given
back. -/
def tickCalls (s : CalendarStation) (id : Uuid) : List Broker.Call :=
  if s.chainer.pending.isEmpty then []
  else match CalendarTree.build id s.chainer.config.function
      (s.nextBatch.map PendingRoot.message) with
    | .ok _ => []
    | .error _ => (s.nextBatch.map PendingRoot.handle).map (.nack · true)

/-- A calendar tick. -/
def tick (s : CalendarStation) (id : Uuid) : CalendarStation :=
  { s with
    toLine := s.toLine.performAll (s.tickCalls id)
    chainer := (s.chainer.tick s.broker id).2.1 }

/-- A finalize tick. -/
def finalize (s : CalendarStation) : CalendarStation :=
  let (chainer, jobs) := s.chainer.finalize s.link.channel
  { s with
    chainer
    finalizers := s.finalizers ++
      List.zipWith (fun job (built : BuiltTree) => .start job built.roots) jobs s.chainer.built }

/-- Lets a job make its next call. -/
def advance (s : CalendarStation) (number : Nat) : CalendarStation :=
  match s.finalizers[number]? with
  | none => s
  | some w =>
    { s with
      toLine := s.toLine.performAll w.calls
      finalizers := s.finalizers.set number (w.advance s.broker) }

/-- What comes of an event. -/
def act (s : CalendarStation) : Event → CalendarStation
  | .call c => { s with toLine := s.toLine.perform c }
  | .attempt incident => { s with toLine := s.toLine.attempt incident }
  | .closeLink => { s with link := s.link.close }
  | .detach => { s with chainer := s.chainer.detach }
  | .receive => s.receive
  | .ingest number =>
    match s.inHand[number]? with
    | none => s
    | some d => { s.ingest d.1 d.2 with inHand := s.inHand.eraseIdx number }
  | .tick id => s.tick id
  | .finalize => s.finalize
  | .advance number => s.advance number

/-- The tier after a number of events. -/
def actAll (s : CalendarStation) (events : List Event) : CalendarStation := events.foldl act s

/-- The tier after a number of events from its start. -/
def run (c : Config) (events : List Event) : CalendarStation := (ofConfig c).actAll events

@[simp] theorem actAll_cons (s : CalendarStation) (e : Event) (es : List Event) :
    s.actAll (e :: es) = (s.act e).actAll es := rfl

/-- What every event keeps every run keeps. -/
theorem actAll_induction {P : CalendarStation → Prop} (hP : ∀ s e, P s → P (act s e))
    {s : CalendarStation} (hs : P s) (events : List Event) : P (s.actAll events) := by
  induction events generalizing s with
  | nil => exact hs
  | cons e es ih => exact ih (hP s e hs)

/-! ### The tier does what it does at once -/

/-- Taking in a delivery does to the broker what the tier does. -/
theorem ingest_broker (s : CalendarStation) (handle : Handle) (content : Content) :
    (s.ingest handle content).broker = (s.chainer.ingest s.broker handle content).1 := by
  rw [ingest, Line.performAll_broker, ingestCalls, Chainer.ingest]
  cases Inbound.read content with
  | ok inbound =>
      cases inbound with
      | aggregateRoot m => rfl
      | anchorTx body => rfl
  | error e => rfl

/-- To take in a delivery is what the tier does at its broker. -/
theorem ingest_eq (s : CalendarStation) (handle : Handle) (content : Content) :
    ((s.ingest handle content).broker, (s.ingest handle content).chainer) =
      s.chainer.ingest s.broker handle content :=
  Prod.ext (s.ingest_broker handle content) rfl

/-- A tier that has nothing in hand receives a delivery and takes it in. -/
theorem act_ingest_receive {s : CalendarStation} {l : Line} {handle : Handle}
    {content : Content} (hhand : s.inHand = [])
    (hreceive : s.toLine.receive = (l, some (handle, content))) :
    s.receive.act (.ingest 0) =
      { ({ s with toLine := l } : CalendarStation).ingest handle content with inHand := [] } := by
  rw [receive, hreceive, hhand]
  rfl

/-- A tree cannot be built over nothing, but over everything else. -/
theorem eq_nil_of_build_eq_error {id : Uuid} {f : HashFunction} {batch : List AggregateRoot}
    {e : Merkle.Error} (h : CalendarTree.build id f batch = .error e) : batch = [] := by
  by_contra hne
  have hleaves : batch.map AggregateRoot.aggRoot ≠ [] := by simpa using hne
  obtain ⟨tree, hbuild, -⟩ := Merkle.Tree.build_eq_ok f hleaves
  rw [CalendarTree.build, hbuild] at h
  cases h

/-- A calendar tick never has anything to give back. -/
theorem tickCalls_eq_nil (s : CalendarStation) (id : Uuid) : s.tickCalls id = [] := by
  rw [tickCalls]
  by_cases hempty : s.chainer.pending.isEmpty = true
  · rw [if_pos hempty]
  · rw [if_neg hempty]
    cases hbuild : CalendarTree.build id s.chainer.config.function
        (s.nextBatch.map PendingRoot.message) with
    | ok tree => rfl
    | error e =>
        have hbatch : s.nextBatch = [] := List.map_eq_nil_iff.1 (eq_nil_of_build_eq_error hbuild)
        dsimp only
        rw [hbatch]
        rfl

/-- A calendar tick does to the broker what the tier does, which is nothing. -/
theorem tick_broker (s : CalendarStation) (id : Uuid) :
    (s.tick id).broker = (s.chainer.tick s.broker id).1 ∧ (s.tick id).broker = s.broker := by
  have hsame : (s.tick id).broker = s.broker := by
    rw [tick, Line.performAll_broker, tickCalls_eq_nil]
    rfl
  refine ⟨?_, hsame⟩
  rw [hsame, Chainer.tick]
  by_cases hempty : s.chainer.pending.isEmpty = true
  · rw [if_pos hempty]
  · rw [if_neg hempty]
    dsimp only
    cases hbuild : CalendarTree.build id s.chainer.config.function
        ((s.chainer.pending.splice s.chainer.config.maxBatchSize.toNat).1.map
          PendingRoot.message) with
    | ok tree => rfl
    | error e =>
        have hbatch := List.map_eq_nil_iff.1 (eq_nil_of_build_eq_error hbuild)
        dsimp only
        rw [hbatch]
        rfl

/-- A calendar tick is what the tier does at its broker. -/
theorem tick_eq (s : CalendarStation) (id : Uuid) :
    ((s.tick id).broker, (s.tick id).chainer) =
      ((s.chainer.tick s.broker id).1, (s.chainer.tick s.broker id).2.1) :=
  Prod.ext (s.tick_broker id).1 rfl

/-- The tier after a tree was built over the next batch. -/
def keep (s : CalendarStation) (tree : CalendarTree) : CalendarStation :=
  { s with
    chainer :=
      { s.chainer with
        pending := (s.chainer.pending.splice s.chainer.config.maxBatchSize.toNat).2
        built := s.chainer.built ++ [⟨tree, s.nextBatch⟩] } }

/-- The next batch is the head of the buffer. -/
theorem nextBatch_append (s : CalendarStation) :
    s.nextBatch ++ (s.chainer.pending.splice s.chainer.config.maxBatchSize.toNat).2.items =
      s.chainer.pending.items :=
  s.chainer.pending.splice_append _

/-- A calendar tick does nothing, or it builds a tree. -/
theorem tick_cases (s : CalendarStation) (id : Uuid) :
    s.tick id = s ∨ ∃ tree, CalendarTree.build id s.chainer.config.function
      (s.nextBatch.map PendingRoot.message) = .ok tree ∧ s.tick id = s.keep tree := by
  rw [tick, tickCalls_eq_nil, Chainer.tick]
  by_cases hempty : s.chainer.pending.isEmpty = true
  · rw [if_pos hempty]
    exact Or.inl rfl
  · rw [if_neg hempty]
    dsimp only
    rw [← nextBatch]
    cases hbuild : CalendarTree.build id s.chainer.config.function
        (s.nextBatch.map PendingRoot.message) with
    | ok tree => exact Or.inr ⟨tree, rfl, rfl⟩
    | error e =>
        -- There was nothing to build a tree over, so the buffer stays as it is.
        have hbatch := List.map_eq_nil_iff.1 (eq_nil_of_build_eq_error hbuild)
        have hitems := s.nextBatch_append
        rw [hbatch, List.nil_append] at hitems
        have hpending : (s.chainer.pending.splice s.chainer.config.maxBatchSize.toNat).2 =
            s.chainer.pending := congrArg Buffer.mk hitems
        refine Or.inl ?_
        dsimp only
        rw [hpending]
        rfl

/-- Without a channel no job is handed out. -/
theorem finalize_of_none {s : CalendarStation} (h : s.link.channel = none) : s.finalize = s := by
  rw [finalize, h]
  simp [Chainer.finalize]

/-- With a channel there is a job for each tree. -/
theorem finalize_of_some {s : CalendarStation} {ch : Channel} (h : s.link.channel = some ch) :
    s.finalize =
      { s with
        chainer := { s.chainer with built := [] }
        finalizers := s.finalizers ++
          s.chainer.built.map fun built => .start (s.chainer.jobOf ch built) built.roots } := by
  rw [finalize, h]
  simp [Chainer.finalize, List.zipWith_map_left, List.zipWith_self]

theorem advance_of_getElem? {s : CalendarStation} {number : Nat} {w : Finalizer}
    (h : s.finalizers[number]? = some w) :
    s.advance number =
      { s with
        toLine := s.toLine.performAll w.calls
        finalizers := s.finalizers.set number (w.advance s.broker) } := by
  rw [advance, h]

/-! ### Runs go on -/

/-- What an event does to the broker is a number of calls. -/
theorem exists_act_tracked (s : CalendarStation) (e : Event) :
    ∃ calls, (s.act e).tracked = s.tracked.performAll calls := by
  cases e with
  | call c => exact ⟨[c], rfl⟩
  | attempt incident => exact s.toLine.exists_attempt_tracked incident
  | closeLink => exact ⟨[], rfl⟩
  | detach => exact ⟨[], rfl⟩
  | receive =>
      rw [act, receive]
      rcases s.toLine.receive_cases with ⟨r, d, -, -, heq⟩ | heq
      · exact ⟨[.receive r.stream], by rw [heq]; rfl⟩
      · exact ⟨[], by rw [heq]; rfl⟩
  | ingest number =>
      rw [act]
      cases s.inHand[number]? with
      | none => exact ⟨[], rfl⟩
      | some d => exact ⟨_, rfl⟩
  | tick id => exact ⟨_, rfl⟩
  | finalize => exact ⟨[], rfl⟩
  | advance number =>
      rw [act, advance]
      cases s.finalizers[number]? with
      | none => exact ⟨[], rfl⟩
      | some w => exact ⟨_, rfl⟩

theorem exists_actAll_tracked (s : CalendarStation) (events : List Event) :
    ∃ calls, (s.actAll events).tracked = s.tracked.performAll calls := by
  induction events generalizing s with
  | nil => exact ⟨[], rfl⟩
  | cons e es ih =>
      obtain ⟨calls, hcalls⟩ := s.exists_act_tracked e
      obtain ⟨more, hmore⟩ := ih (s.act e)
      exact ⟨calls ++ more, by rw [actAll_cons, hmore, hcalls, Tracked.performAll_append]⟩

/-- The ledger only grows. -/
theorem grows_actAll (s : CalendarStation) (events : List Event) :
    s.ledger.Grows .any (s.actAll events).ledger := by
  obtain ⟨calls, hcalls⟩ := s.exists_actAll_tracked events
  rw [ledger, ledger, hcalls]
  exact .performAll_any _ _

/-- A job that is done stays as it is. -/
theorem getElem?_act {s : CalendarStation} {k : Nat} {w : Finalizer} {outcome : Outcome}
    (hw : s.finalizers[k]? = some w) (hdone : w.progress = .settled outcome) (e : Event) :
    (s.act e).finalizers[k]? = some w := by
  cases e with
  | ingest number =>
      rw [act]
      cases s.inHand[number]? with
      | none => exact hw
      | some d => exact hw
  | finalize =>
      rw [act, finalize]
      exact (List.getElem?_append_left (List.getElem?_eq_some_iff.1 hw).1).trans hw
  | advance number =>
      rw [act, advance]
      cases hv : s.finalizers[number]? with
      | none => exact hw
      | some v =>
          by_cases hk : number = k
          · subst hk
            obtain rfl : v = w := Option.some.inj (hv.symm.trans hw)
            dsimp only
            rw [v.advance_of_settled hdone]
            exact List.getElem?_set_self (List.getElem?_eq_some_iff.1 hw).1
          · exact (List.getElem?_set_ne hk).trans hw
  | call c => exact hw
  | attempt incident => exact hw
  | closeLink => exact hw
  | detach => exact hw
  | receive => exact hw
  | tick id => exact hw

theorem getElem?_actAll {s : CalendarStation} {k : Nat} {w : Finalizer} {outcome : Outcome}
    (hw : s.finalizers[k]? = some w) (hdone : w.progress = .settled outcome)
    (events : List Event) : (s.actAll events).finalizers[k]? = some w :=
  actAll_induction (P := fun s => s.finalizers[k]? = some w)
    (fun _ e hs => getElem?_act hs hdone e) hw events

/-- The tier while a job makes its calls: nothing else of it changes. -/
def working (s : CalendarStation) (number : Nat) (t : Tracked) (w : Finalizer) : CalendarStation :=
  { s with tracked := t, finalizers := s.finalizers.set number w }

/-- The calls of a job are those of its batch. -/
theorem iterate_advance {s : CalendarStation} {number : Nat} {w : Finalizer}
    (h : s.finalizers[number]? = some w) (n : Nat) :
    ∃ t w', (fun s => act s (.advance number))^[n] s = s.working number t w' ∧ w'.job = w.job ∧
      (t.broker, w'.progress) =
        (Progress.advance w.job.channel w.job.handles)^[n] (s.broker, w.progress) := by
  obtain ⟨hlt, rfl⟩ := List.getElem?_eq_some_iff.1 h
  refine iterate_related (R := fun (s' : CalendarStation) (u : Broker × Progress) =>
    ∃ t w', s' = s.working number t w' ∧ w'.job = s.finalizers[number].job ∧
      (t.broker, w'.progress) = u) ?_ ⟨s.tracked, s.finalizers[number], ?_, rfl, rfl⟩ n
  · rintro _ _ ⟨t, w', rfl, hjob, rfl⟩
    have hw' : (s.working number t w').finalizers[number]? = some w' := List.getElem?_set_self hlt
    refine ⟨t.performAll w'.calls, w'.advance t.broker, ?_, hjob, ?_⟩
    · simp only [act]
      rw [advance_of_getElem? hw']
      simp only [working, Line.performAll, List.set_set]
      rfl
    · rw [Tracked.performAll_broker, ← hjob]
      rfl
  · rw [working, List.set_getElem_self]

/-- The calls of a job in a row carry out the job: this is what comes of it when nothing happens in
between, with the block that is emitted then. -/
theorem exists_iterate_advance {s : CalendarStation} {number : Nat} {w : Finalizer}
    (h : s.finalizers[number]? = some w) (hstart : w.progress = .publishing w.job.messages) :
    ∃ n t w', (fun s => act s (.advance number))^[n] s = s.working number t w' ∧
      t.broker = (w.job.run s.broker).1 ∧
      w'.progress = .settled (w.job.run s.broker).2.1.settled ∧
      w'.block? = (w.job.run s.broker).2.2 := by
  obtain ⟨n, hn⟩ :=
    @Progress.leads_publishAndSettle w.job.channel w.job.handles s.broker w.job.messages
  obtain ⟨t, w', hworking, hjob, heq⟩ := iterate_advance h n
  rw [hstart, hn] at heq
  obtain ⟨hbroker, hprogress⟩ := Prod.ext_iff.1 heq
  dsimp only at hbroker hprogress
  obtain ⟨hrun, hsettled, hblock⟩ := w.job.run_eq s.broker
  refine ⟨n, t, w', hworking, hbroker.trans hrun.symm, ?_, ?_⟩
  · rw [hprogress, hsettled]
  · rw [Finalizer.block?, hprogress, hblock, hjob]

end CalendarStation

end HashCalendar
