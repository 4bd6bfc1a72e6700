/-
**What is known of a job under way.**

The messages of a job that were enqueued are the first ones of its list, in their order.  A job
starts to acknowledge its deliveries after its whole list was enqueued, and it gives them back if
that will never be.  Whatever the broker is made to do between two calls of the job, this stays
true.

Main definitions:

* `HashCalendar.Worker.Complete` — the whole list of a job was enqueued;
* `HashCalendar.Worker.Honest` — what is known of a job under way.

Main results:

* `HashCalendar.Worker.Honest.mono` — it stays true while others call the broker;
* `HashCalendar.Worker.Honest.advance` — **it stays true over a call of the job**.
-/

import HashCalendar.Proofs.Aggregation.Layout
import HashCalendar.Proofs.Aggregation.Runs
import HashCalendar.Proofs.Broker.Conservation

set_option relaxedAutoImplicit false
set_option autoImplicit false

namespace HashCalendar

/-! ### Submissions -/

/-- A submission was read from a delivery that was handed over. -/
def Ledger.Submitted (l : Ledger) (p : PendingSubmission) : Prop :=
  ∃ u ∈ l.handed, u.tag = p.handle.tag ∧
    Submission.read u.message.content.payload = .ok p.submission

theorem Ledger.Submitted.mono {p : Broker.Policy} {l l' : Ledger} {q : PendingSubmission}
    (h : l.Submitted q) (hg : l.Grows p l') : l'.Submitted q := by
  obtain ⟨u, hu, hq⟩ := h
  exact ⟨u, hg.handed.mem hu, hq⟩

/-! ### Jobs -/

/-- The messages of a job. -/
def AggregationJob.messages (job : AggregationJob) : List Outbound :=
  match job.prepared with
  | .ok (_, messages) => messages
  | .error _ => []

theorem AggregationJob.messages_of_ok {job : AggregationJob}
    {p : AggregationTree × List Outbound} (h : job.prepared = .ok p) : job.messages = p.2 := by
  rw [messages, h]

namespace Worker

/-- The submissions of a job. -/
def submissions (w : Worker) : List Submission := w.batch.map PendingSubmission.submission

/-- The next call of a job, if there is one. -/
def calls (w : Worker) : List Broker.Call := (w.progress.call? w.job.channel).toList

/-- The job has a tree. -/
def Built (w : Worker) : Prop := ∃ p, w.job.prepared = .ok p

/-- The whole list of messages of a job was enqueued. -/
def Complete (w : Worker) : Prop := w.Built ∧ w.sent.length = w.job.messages.length

/-- How many messages of a job were enqueued goes with how far the work on it has got. -/
def OnCourse (w : Worker) : Progress → Prop
  | .publishing left => w.Built ∧ w.job.messages.drop w.sent.length = left
  | .acking left _ => w.Complete ∧ ∀ h ∈ left, h ∈ w.job.handles
  | .returning left => ¬ w.Complete ∧ ∀ h ∈ left, h ∈ w.job.handles
  | .settled (.rejected _) => ¬ w.Complete
  | .settled _ => w.Complete

/-- What is known of a job under way. -/
structure Honest (queues : Config.Queues) (l : Ledger) (w : Worker) : Prop where
  handles : w.job.handles = w.batch.map PendingSubmission.handle
  messages : ∀ p, w.job.prepared = .ok p → p.2 = p.1.messages queues w.submissions
  tree : ∀ p, w.job.prepared = .ok p →
    ∃ id f beacon, AggregationTree.build id f beacon w.submissions = .ok p.1
  small : w.batch.length < UInt64.size
  submitted : ∀ p ∈ w.batch, l.Submitted p
  holds : l.HoldsPrefix w.sent w.job.messages
  onCourse : w.OnCourse w.progress

namespace Honest

variable {queues : Config.Queues} {l l' : Ledger} {w : Worker}

/-- What is known of a job stays true while the ledger grows. -/
theorem mono {p : Broker.Policy} (h : w.Honest queues l) (hg : l.Grows p l') :
    w.Honest queues l' :=
  { h with
    submitted := fun q hq => (h.submitted q hq).mono hg
    holds := h.holds.mono hg }

/-- A job that has just been prepared. -/
theorem prepare {agg : Aggregator} (channel : Channel) (beacon : Option String) (id : Uuid)
    {batch : List PendingSubmission} (hsmall : batch.length < UInt64.size)
    (hsubmitted : ∀ p ∈ batch, l.Submitted p) :
    Honest agg.queues l
      { job := agg.prepare channel beacon id batch
        batch
        progress := (agg.prepare channel beacon id batch).start } := by
  have hok : ∀ p, (agg.prepare channel beacon id batch).prepared = .ok p →
      AggregationTree.build id agg.config.function beacon
        (batch.map PendingSubmission.submission) = .ok p.1 ∧
      p.2 = p.1.messages agg.queues (batch.map PendingSubmission.submission) := by
    intro p hp
    rw [Aggregator.prepare] at hp
    cases hbuild : AggregationTree.build id agg.config.function beacon
        (batch.map PendingSubmission.submission) with
    | error e =>
        rw [hbuild] at hp
        cases hp
    | ok tree =>
        rw [hbuild] at hp
        cases hp
        exact ⟨rfl, rfl⟩
  constructor
  case handles => rfl
  case messages => exact fun p hp => (hok p hp).2
  case tree => exact fun p hp => ⟨id, _, beacon, (hok p hp).1⟩
  case small => exact hsmall
  case submitted => exact hsubmitted
  case holds => exact .nil l _
  case onCourse =>
    rw [AggregationJob.start]
    cases hprepared : (agg.prepare channel beacon id batch).prepared with
    | ok p =>
        refine ⟨⟨p, hprepared⟩, ?_⟩
        simp [AggregationJob.messages_of_ok hprepared]
    | error e =>
        refine ⟨?_, fun h hh => hh⟩
        rintro ⟨⟨p, hp⟩, -⟩
        rw [hprepared] at hp
        cases hp

/-- The list of a complete job is enqueued as it stands. -/
theorem exists_sent (h : w.Honest queues l) (hc : w.Complete) {k : Nat} {m : Outbound}
    (hm : w.job.messages[k]? = some m) :
    ∃ n, w.sent[k]? = some n ∧ l.arrived[n]? = some (m.queue, m.content) :=
  h.holds.exists_sent hc.2 hm

/-- What a complete job has enqueued: an answer to each of its submissions, and after all of them
the root. -/
theorem exists_answers (h : w.Honest queues l) (hc : w.Complete) :
    ∃ id f beacon tree root, AggregationTree.build id f beacon w.submissions = .ok tree ∧
      w.sent.length = w.submissions.length + 1 ∧ w.sent.getLast? = some root ∧
      l.arrived[root]? = some (queues.calendarIn, tree.rootContent) ∧
      ∀ (i : Nat) s, w.submissions[i]? = some s → ∃ path n, tree.paths[i]? = some path ∧
        w.sent[i]? = some n ∧ n < root ∧
        l.arrived[n]? = some (queues.stateOut, tree.answer s path) := by
  obtain ⟨p, hprepared⟩ := hc.1
  obtain ⟨id, f, beacon, hbuild⟩ := h.tree p hprepared
  have hover := AggregationTree.of_build_eq_ok hbuild
  have hmessages : w.job.messages = p.1.messages queues w.submissions :=
    (AggregationJob.messages_of_ok hprepared).trans (h.messages p hprepared)
  have hlen : w.sent.length = w.submissions.length + 1 := by
    rw [hc.2, hmessages, AggregationTree.length_messages queues hover]
  obtain ⟨root, hroot, harrived⟩ := h.exists_sent hc
    (hmessages ▸ AggregationTree.getElem?_messages_length queues hover)
  refine ⟨id, f, beacon, p.1, root, hbuild, hlen, ?_, harrived, ?_⟩
  · rw [List.getLast?_eq_getElem?, hlen]
    exact hroot
  · intro i s hs
    obtain ⟨path, hpath, hm⟩ := AggregationTree.exists_getElem?_messages queues hover hs
    obtain ⟨n, hn, hanswer⟩ := h.exists_sent hc (hmessages ▸ hm)
    refine ⟨path, n, hpath, hn, ?_, hanswer⟩
    -- The root stands behind the answer, and serial numbers increase.
    have hi := (List.getElem?_eq_some_iff.1 hs).1
    obtain ⟨hlt, rfl⟩ := List.getElem?_eq_some_iff.1 hn
    obtain ⟨hlast, rfl⟩ := List.getElem?_eq_some_iff.1 hroot
    exact List.pairwise_iff_getElem.1 h.holds.increasing i w.submissions.length hlt hlast hi

/-- A complete job has enqueued what it had to. -/
theorem enqueues?_of_complete (h : w.Honest queues l) (hc : w.Complete) (b : Broker) :
    w.progress.enqueues? w.job.channel b = none := by
  have hcourse := h.onCourse
  cases hp : w.progress with
  | publishing left =>
      rw [hp] at hcourse
      cases left with
      | nil => rfl
      | cons m ms =>
          -- There would be a message left, but as many were enqueued as there are.
          have hlen := congrArg List.length hcourse.2
          rw [List.length_drop, hc.2, List.length_cons] at hlen
          omega
  | acking left count => rfl
  | returning left => rfl
  | settled outcome => rfl

theorem complete_advance (h : w.Honest queues l) (hc : w.Complete) (b : Broker) :
    (w.advance b).Complete := by
  have hsent : (w.advance b).sent = w.sent := by
    simp [Worker.advance, h.enqueues?_of_complete hc b]
  exact ⟨hc.1, hsent ▸ hc.2⟩

/-- The next call of a job enqueues the next message of its list, or it enqueues nothing. -/
theorem call_cases {t : Tracked} (h : w.Honest queues t.ledger) :
    (∃ m, w.job.messages[w.sent.length]? = some m ∧
        w.progress.enqueues? w.job.channel t.broker = some t.broker.nextSerial ∧
        (t.performAll w.calls).ledger.arrived = t.ledger.arrived ++ [(m.queue, m.content)]) ∨
      (w.progress.enqueues? w.job.channel t.broker = none ∧
        (t.performAll w.calls).ledger.arrived = t.ledger.arrived) := by
  rcases w.progress.enqueue_cases w.job.channel t with ⟨m, ms, hp, -, hsome, harrived⟩ | hnone
  · have hcourse := h.onCourse
    rw [hp] at hcourse
    refine Or.inl ⟨m, ?_, hsome, harrived⟩
    rw [← List.head?_drop, hcourse.2]
    rfl
  · exact Or.inr hnone

/-- A message of a job that goes where the roots go is the last one of its list. -/
theorem built_of_root (h : w.Honest queues l) (hq : queues.stateOut ≠ queues.calendarIn) {k : Nat}
    {m : Outbound} (hm : w.job.messages[k]? = some m) (hqueue : m.queue = queues.calendarIn) :
    w.Built ∧ k + 1 = w.job.messages.length := by
  cases hprepared : w.job.prepared with
  | error e =>
      rw [AggregationJob.messages, hprepared] at hm
      cases hm
  | ok p =>
      obtain ⟨id, f, beacon, hbuild⟩ := h.tree p hprepared
      have hover := AggregationTree.of_build_eq_ok hbuild
      rw [AggregationJob.messages_of_ok hprepared, h.messages p hprepared] at hm ⊢
      rw [AggregationTree.length_messages queues hover,
        AggregationTree.eq_length_of_queue queues hover hq hm hqueue]
      exact ⟨⟨p, hprepared⟩, rfl⟩

/-- A message that a call brings to where the roots go is the root of the job, and with it the whole
list was enqueued. -/
theorem root_of_call {t : Tracked} (h : w.Honest queues t.ledger)
    (hq : queues.stateOut ≠ queues.calendarIn)
    (hserial : t.ledger.arrived.length = t.broker.nextSerial) {n : Nat} {content : Content}
    (hn : (t.performAll w.calls).ledger.arrived[n]? = some (queues.calendarIn, content)) :
    t.ledger.arrived[n]? = some (queues.calendarIn, content) ∨
      ((w.advance t.broker).Complete ∧ (w.advance t.broker).sent.getLast? = some n) := by
  rcases h.call_cases with ⟨m, hm, hsome, harrived⟩ | ⟨-, harrived⟩
  · rw [harrived] at hn
    by_cases hlt : n < t.ledger.arrived.length
    · exact Or.inl ((List.getElem?_append_left hlt).symm.trans hn)
    · have hlen := (List.getElem?_eq_some_iff.1 hn).1
      rw [List.length_append, List.length_singleton] at hlen
      obtain rfl : n = t.ledger.arrived.length := by omega
      rw [List.getElem?_concat_length] at hn
      obtain ⟨hbuilt, hlast⟩ := h.built_of_root hq hm (congrArg Prod.fst (Option.some.inj hn))
      refine Or.inr ⟨⟨hbuilt, ?_⟩, ?_⟩
      · rw [Worker.advance, hsome, ← hlast]
        simp
      · rw [Worker.advance, hsome, hserial]
        simp
  · exact Or.inl (harrived ▸ hn)

theorem complete_of_drop_eq_nil (h : w.Honest queues l) (hb : w.Built)
    (hdrop : w.job.messages.drop w.sent.length = []) : w.Complete := by
  have hle := h.holds.length_le
  have hge := List.drop_eq_nil_iff.1 hdrop
  exact ⟨hb, by omega⟩

theorem onCourse_advance (h : w.Honest queues l) (b : Broker) :
    (w.advance b).OnCourse (w.progress.next w.job.channel w.job.handles b) := by
  have hcourse := h.onCourse
  -- Unless a message is enqueued, the job is as complete as it was.
  have hsame : w.progress.enqueues? w.job.channel b = none →
      ((w.advance b).Complete ↔ w.Complete) := by
    intro hnone
    simp [Complete, Built, Worker.advance, hnone]
  cases hp : w.progress with
  | publishing left =>
      rw [hp] at hcourse hsame
      obtain ⟨hbuilt, hdrop⟩ := hcourse
      cases left with
      | nil => exact ⟨(hsame rfl).2 (h.complete_of_drop_eq_nil hbuilt hdrop), fun _ hh => hh⟩
      | cons m ms =>
          rw [Progress.next]
          cases hr : (b.publish w.job.channel m).2 with
          | ok u =>
              refine ⟨hbuilt, ?_⟩
              have hsent : (w.advance b).sent.length = w.sent.length + 1 := by
                simp [Worker.advance, hp, Progress.enqueues?, hr]
              rw [hsent, ← List.tail_drop]
              exact congrArg List.tail hdrop
          | error e =>
              have hnone : Progress.enqueues? w.job.channel b (.publishing (m :: ms)) = none := by
                rw [Progress.enqueues?, hr]
              -- The message that was not taken is missing for good.
              refine ⟨?_, fun _ hh => hh⟩
              rw [hsame hnone]
              rintro ⟨-, hlen⟩
              have := congrArg List.length hdrop
              rw [List.length_drop, hlen, List.length_cons] at this
              omega
  | acking left count =>
      rw [hp] at hcourse hsame
      obtain ⟨hcomplete, hleft⟩ := hcourse
      cases left with
      | nil =>
          rw [Progress.next]
          by_cases hcount : count = w.job.handles.length
          · rw [if_pos hcount]
            exact (hsame rfl).2 hcomplete
          · rw [if_neg hcount]
            exact (hsame rfl).2 hcomplete
      | cons handle rest =>
          have hrest : ∀ x ∈ rest, x ∈ w.job.handles :=
            fun x hx => hleft x (List.mem_cons_of_mem _ hx)
          rw [Progress.next]
          cases (b.ack handle).2 with
          | ok u => exact ⟨(hsame rfl).2 hcomplete, hrest⟩
          | error e => exact ⟨(hsame rfl).2 hcomplete, hrest⟩
  | returning left =>
      rw [hp] at hcourse hsame
      obtain ⟨hincomplete, hleft⟩ := hcourse
      have hincomplete' := mt (hsame rfl).1 hincomplete
      cases left with
      | nil => exact hincomplete'
      | cons handle rest => exact ⟨hincomplete', fun x hx => hleft x (List.mem_cons_of_mem _ hx)⟩
  | settled outcome =>
      rw [hp] at hcourse hsame
      cases outcome with
      | acked count => exact (hsame rfl).2 hcourse
      | rejected count => exact mt (hsame rfl).1 hcourse
      | abandoned acked unacked => exact (hsame rfl).2 hcourse

/-- What is known of a job stays true over its next call. -/
theorem advance {t : Tracked} (h : w.Honest queues t.ledger)
    (hserial : t.ledger.arrived.length = t.broker.nextSerial) :
    (w.advance t.broker).Honest queues (t.performAll w.calls).ledger := by
  have hmono := h.mono (Ledger.Grows.performAll_any t w.calls)
  refine ⟨h.handles, h.messages, h.tree, h.small, hmono.submitted, ?_, h.onCourse_advance _⟩
  rcases h.call_cases with ⟨m, hm, hsome, harrived⟩ | ⟨hnone, -⟩
  · rw [Worker.advance, hsome, ← hserial]
    exact h.holds.concat hm harrived
  · rw [Worker.advance, hnone]
    simpa using hmono.holds

end Honest

end Worker

end HashCalendar
