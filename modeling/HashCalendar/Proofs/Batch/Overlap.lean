/-
**Jobs that overlap.**

Several jobs may be outstanding at a time, each with deliveries of its own.  Whatever becomes of one
of them, the deliveries of the others stay unacknowledged unless the connection closes.  And where
nothing fails, the jobs can be carried out in any order.  Each of them enqueues its messages and
acknowledges its deliveries; what a queue looks like afterwards depends only on how many deliveries
of it were acknowledged, as long as the jobs publish to other queues.

Main definitions:

* `HashCalendar.Job.workAll`, `HashCalendar.Job.callsAll` — jobs that are carried out one after the
  other, and the calls that they make;
* `HashCalendar.Tracked.CanWork` — jobs that nothing keeps from being carried out.

Main results:

* `HashCalendar.Job.mem_unacked_work` — **a job settles no other deliveries than its own**;
* `HashCalendar.Tracked.CanWork.step` — what a job does that nothing keeps from it;
* `HashCalendar.Tracked.CanWork.outlook_all` — **what a queue looks like after all jobs**.
-/

import HashCalendar.Proofs.Batch.Faults
import HashCalendar.Proofs.Broker.Outlook

set_option relaxedAutoImplicit false
set_option autoImplicit false

namespace HashCalendar

/-! ### Deliveries of other jobs -/

namespace Job

/-- A job publishes through its channel and settles its deliveries, and makes no other calls. -/
theorem mem_calls {job : Job} {b : Broker} {c : Broker.Call} (hc : c ∈ job.calls b) :
    (∃ m, c = .publish job.channel m) ∨
      ∃ published, ∃ h ∈ job.handles, c = Broker.settleCall published h := by
  rw [calls] at hc
  cases hm : job.messages? with
  | some messages =>
      rw [hm] at hc
      rcases List.mem_append.1 hc with hc | hc
      · obtain ⟨m, -, rfl⟩ := Broker.mem_publishCalls hc
        exact Or.inl ⟨m, rfl⟩
      · obtain ⟨h, hh, rfl⟩ := List.mem_map.1 hc
        exact Or.inr ⟨_, h, hh, rfl⟩
  | none =>
      rw [hm] at hc
      obtain ⟨h, hh, rfl⟩ := List.mem_map.1 hc
      exact Or.inr ⟨false, h, hh, rfl⟩

/-- A job settles no other deliveries than its own: unless it makes the connection close, they stay
unacknowledged. -/
theorem mem_unacked_work (job : Job) {t : Tracked} (hs : t.Sound)
    (hgeneration : (job.work t.broker).1.generation = t.broker.generation) {u : Broker.Unacked}
    (hu : u ∈ t.broker.unacked) (hout : u.handle ∉ job.handles) :
    u ∈ (job.work t.broker).1.unacked := by
  have hallows : ∀ c ∈ job.calls t.broker, ∀ b,
      (Broker.Policy.settling (· ∈ job.handles)).free.Allows b c := by
    intro c hc b
    refine Broker.Policy.free_allows (Broker.Policy.settling_allows (fun h hh => ?_) b)
    rcases mem_calls hc with ⟨m, rfl⟩ | ⟨published, h', hh', rfl⟩
    · cases hh
    · rw [Broker.settles?_settleCall] at hh
      exact Option.some.inj hh ▸ hh'
  rcases (Tracked.moves_performAll hallows).unacked_or_lost hs hu fun _ => hout with hu' | ⟨-, hlt⟩
  · exact job.performAll_calls_broker t ▸ hu'
  · rw [job.performAll_calls_broker, hgeneration] at hlt
    exact absurd hlt (Nat.lt_irrefl _)

/-! ### Jobs in a row -/

/-- The messages that a job publishes, as they arrive. -/
def sent (job : Job) : List (String × Content) :=
  (job.messages?.getD []).map fun m => (m.queue, m.content)

/-- Carries jobs out one after the other; how the deliveries of each were settled. -/
def workAll (b : Broker) : List Job → Broker × List Outcome
  | [] => (b, [])
  | job :: jobs =>
    let (b, outcome) := job.work b
    let (b, outcomes) := workAll b jobs
    (b, outcome :: outcomes)

/-- The calls that jobs make when they are carried out one after the other and nobody calls in
between. -/
def callsAll (b : Broker) : List Job → List Broker.Call
  | [] => []
  | job :: jobs => job.calls b ++ callsAll (job.work b).1 jobs

/-- The calls of jobs carry them out. -/
theorem performAll_callsAll (b : Broker) (jobs : List Job) :
    b.performAll (callsAll b jobs) = (workAll b jobs).1 := by
  induction jobs generalizing b with
  | nil => rfl
  | cons job jobs ih => rw [callsAll, Broker.performAll_append, performAll_calls, ih, workAll]

end Job

namespace Broker

/-- The queue of the unacknowledged delivery that a handle belongs to. -/
def queueOf? (b : Broker) (h : Handle) : Option String :=
  (b.unacked? h.generation h.tag).map Unacked.queue

/-- How many of the deliveries are of a queue. -/
def countOf (b : Broker) (name : String) (handles : List Handle) : Nat :=
  handles.countP fun h => b.queueOf? h = some name

@[simp] theorem countOf_append (b : Broker) (name : String) (hs hs' : List Handle) :
    b.countOf name (hs ++ hs') = b.countOf name hs + b.countOf name hs' := List.countP_append

theorem closeAfter_publish {b : Broker} (h : b.closeAfter = none) (ch : Channel) (m : Outbound) :
    (b.publish ch m).1.closeAfter = none := by
  rcases b.publish_cases ch m with ⟨e, budget, heq⟩ | heq
  · rw [heq]
    exact h
  · have hclose : ((({ b with budget := b.budget.map (· - 1) } : Broker).enqueue m.queue
        m.content).dispatch m.queue).closeAfter = none :=
      (steady_dispatch _ _).closeAfter.trans h
    rw [heq, countDown_of_none hclose]
    exact hclose

end Broker

namespace Tracked

/-! ### Deliveries that are settled one after the other -/

namespace CanSettle

variable {t t' : Tracked} {h : Handle} {handles handles' : List Handle}

theorem perm (hc : t.CanSettle handles) (hp : handles.Perm handles') : t.CanSettle handles' where
  sound := hc.sound
  nodup := hp.nodup_iff.1 hc.nodup
  isOpen h hh := hc.isOpen h (hp.mem_iff.2 hh)
  held h hh := hc.held h (hp.mem_iff.2 hh)

theorem of_append_left (hc : t.CanSettle (handles ++ handles')) : t.CanSettle handles where
  sound := hc.sound
  nodup := hc.nodup.of_append_left
  isOpen h hh := hc.isOpen h (List.mem_append_left _ hh)
  held h hh := hc.held h (List.mem_append_left _ hh)

/-- After the first deliveries were settled, the others can be. -/
theorem drop (hc : t.CanSettle (handles ++ handles')) (fate : Fate) :
    (t.settleAll handles fate).CanSettle handles' := by
  induction handles generalizing t with
  | nil => exact hc
  | cons h hs ih => exact ih (hc.next fate)

/-- While deliveries stay unacknowledged, so does what their handles belong to. -/
theorem unacked?_eq (hc : t.CanSettle handles) (hc' : t'.CanSettle handles')
    (hkeep : ∀ u ∈ t.broker.unacked, u.handle ∈ handles' → u ∈ t'.broker.unacked)
    (hsub : handles' ⊆ handles) (hh : h ∈ handles') :
    t'.broker.unacked? h.generation h.tag = t.broker.unacked? h.generation h.tag := by
  obtain ⟨u, hu, rfl⟩ := hc.held h (hsub hh)
  exact (Broker.unacked?_of_mem hc'.sound.unacked_tags (hkeep u hu hh)).trans
    (Broker.unacked?_of_mem hc.sound.unacked_tags hu).symm

/-- So does the number of those of a queue. -/
theorem countOf_eq (hc : t.CanSettle handles) (hc' : t'.CanSettle handles')
    (hkeep : ∀ u ∈ t.broker.unacked, u.handle ∈ handles' → u ∈ t'.broker.unacked)
    (hsub : handles' ⊆ handles) (name : String) :
    t'.broker.countOf name handles' = t.broker.countOf name handles' := by
  refine List.countP_congr fun h hh => ?_
  rw [Broker.queueOf?, Broker.queueOf?, hc.unacked?_eq hc' hkeep hsub hh]

/-- What a queue looks like after deliveries were acknowledged depends only on how many of them are
of the queue. -/
theorem outlook_ackAll (hc : t.CanSettle handles) (hcurrent : t.Current) (name : String) :
    (t.settleAll handles .acked).outlook name =
      Broker.Outlook.acked^[t.broker.countOf name handles] (t.outlook name) := by
  induction handles generalizing t with
  | nil => rfl
  | cons h hs ih =>
      obtain ⟨u, -, -, hu⟩ := hc.unacked?
      have hfirst := outlook_ack hc.sound hcurrent (hc.isOpen h List.mem_cons_self) hu name
      have hnext := hc.next .acked
      have hcurrent' : (t.settleHandle h .acked).Current :=
        Moves.keep Current.move (t.moves_finish_one h .acked) hcurrent
      have hrest : (t.settleHandle h .acked).broker.countOf name hs = t.broker.countOf name hs := by
        refine hc.countOf_eq hnext (fun v hv hv' => ?_) (List.subset_cons_self h hs) name
        refine hc.mem_unacked .acked hv ?_
        rintro rfl
        exact (List.nodup_cons.1 hc.nodup).1 hv'
      have hcount : t.broker.countOf name (h :: hs) =
          t.broker.countOf name hs + if u.queue = name then 1 else 0 := by
        rw [Broker.countOf, List.countP_cons, Broker.queueOf?, hu]
        simp [Broker.countOf]
      rw [settleAll_cons, ih hnext hcurrent', hfirst, hrest, hcount]
      by_cases hq : u.queue = name
      · rw [if_pos hq, if_pos hq, Function.iterate_succ_apply]
      · rw [if_neg hq, if_neg hq, Nat.add_zero]

end CanSettle

/-! ### Jobs that nothing keeps from being carried out -/

/-- Publishing to other queues leaves what a queue looks like as it is, unless the connection is to
close. -/
theorem outlook_publishCalls {name : String} {calls : List Broker.Call}
    (hcalls : ∀ c ∈ calls, ∃ ch m, c = .publish ch m ∧ m.queue ≠ name) {t : Tracked}
    (h : t.broker.closeAfter = none) : (t.performAll calls).outlook name = t.outlook name := by
  induction calls generalizing t with
  | nil => rfl
  | cons c cs ih =>
      obtain ⟨ch, m, rfl, hm⟩ := hcalls c List.mem_cons_self
      have hclose : (t.publish ch m).broker.closeAfter = none := by
        rw [publish_broker]
        exact Broker.closeAfter_publish h ch m
      exact (ih (fun d hd => hcalls d (List.mem_cons_of_mem _ hd)) hclose).trans
        (outlook_publish h ch hm.symm)

/-- Jobs that nothing keeps from being carried out: no publish fails, no connection closes, all
their deliveries can be settled, and the queues that they publish to are there. -/
structure CanWork (t : Tracked) (jobs : List Job) : Prop where
  current : t.Current
  budget : t.broker.budget = none
  closeAfter : t.broker.closeAfter = none
  isOpen : ∀ job ∈ jobs, t.broker.isOpen job.channel.generation = true
  settle : t.CanSettle (jobs.flatMap Job.handles)
  supplied : ∀ job ∈ jobs, ∃ messages, job.messages? = some messages ∧
    ∀ m ∈ messages, t.broker.IsDeclared m.queue

namespace CanWork

variable {t : Tracked} {job : Job} {jobs jobs' : List Job} {name : String}

/-- The order of the jobs does not matter. -/
theorem perm (h : t.CanWork jobs) (hp : jobs.Perm jobs') : t.CanWork jobs' where
  current := h.current
  budget := h.budget
  closeAfter := h.closeAfter
  isOpen job hjob := h.isOpen job (hp.mem_iff.2 hjob)
  settle := h.settle.perm (hp.flatMap_right _)
  supplied job hjob := h.supplied job (hp.mem_iff.2 hjob)

/-- The first of the jobs publishes all its messages, and then it acknowledges its deliveries. -/
theorem exists_published (h : t.CanWork (job :: jobs)) :
    ∃ messages, job.messages? = some messages ∧
      Published job.channel messages messages.length t
        (t.performAll (t.broker.publishCalls job.channel messages)) ∧
      t.performAll (job.calls t.broker) =
        (t.performAll (t.broker.publishCalls job.channel messages)).settleAll job.handles
          .acked := by
  obtain ⟨messages, hmessages, hqueues⟩ := h.supplied job List.mem_cons_self
  have hclose : t.broker.closeAfter ≠ some 0 := by simp [h.closeAfter]
  have hpublished := published (h.isOpen job List.mem_cons_self) hclose hqueues
  have hall : t.broker.accepts messages.length = messages.length := by
    simp [Broker.accepts, h.budget, h.closeAfter]
  rw [hall] at hpublished
  refine ⟨messages, hmessages, hpublished, ?_⟩
  rw [Job.calls, hmessages]
  dsimp only
  rw [t.performAll_batchCalls, hpublished.isOk, decide_eq_true rfl, if_pos rfl]

/-- The first of the jobs leaves the connection and the limits as they are. -/
theorem sameConnection (h : t.CanWork (job :: jobs)) :
    t.broker.SameConnection (t.performAll (job.calls t.broker)).broker := by
  obtain ⟨messages, -, hpublished, hcalls⟩ := h.exists_published
  have hnone : t.broker.closeAfter ≠ some messages.length := by simp [h.closeAfter]
  have hendures := hpublished.endures hnone
  rw [hcalls]
  refine .trans ⟨hendures.generation, hendures.reachable, ?_, ?_⟩
    (sameConnection_settleAll _ job.handles .acked)
  · rw [hpublished.budget, h.budget]
    rfl
  · rw [hpublished.closeAfter hnone, h.closeAfter]
    rfl

/-- The first of the jobs enqueues its messages and acknowledges its deliveries, and then nothing
keeps the others from being carried out. -/
theorem step (h : t.CanWork (job :: jobs)) :
    (t.performAll (job.calls t.broker)).CanWork jobs ∧
      (job.work t.broker).2 = .acked job.handles.length ∧
      (t.performAll (job.calls t.broker)).ledger.arrived = t.ledger.arrived ++ job.sent := by
  obtain ⟨messages, hmessages, hpublished, hcalls⟩ := h.exists_published
  have hnone : t.broker.closeAfter ≠ some messages.length := by simp [h.closeAfter]
  have hconnection := h.sameConnection
  have hsettle : t.CanSettle (job.handles ++ jobs.flatMap Job.handles) := h.settle
  refine ⟨?_, ?_, ?_⟩
  · constructor
    case current => exact Moves.keep Current.move (moves_any t _) h.current
    case budget => exact hconnection.budget.trans h.budget
    case closeAfter => exact hconnection.closeAfter.trans h.closeAfter
    case isOpen =>
      intro job' hjob'
      rw [hconnection.isOpen]
      exact h.isOpen job' (List.mem_cons_of_mem _ hjob')
    case settle =>
      have hsound := hsettle.sound.performAll (t.broker.publishCalls job.channel messages)
      rw [hcalls]
      exact (hsettle.endures hsound (hpublished.endures hnone)).drop .acked
    case supplied =>
      intro job' hjob'
      obtain ⟨messages', hmessages', hqueues⟩ := h.supplied job' (List.mem_cons_of_mem _ hjob')
      exact ⟨messages', hmessages', fun m hm => t.keepsQueues_performAll _ _ (hqueues m hm)⟩
  · rw [Job.work_of_messages? hmessages, outcome_of_published hpublished (Nat.le_refl _)
      hsettle.of_append_left fun hclose => absurd hclose hnone,
      if_neg (Nat.lt_irrefl _), if_neg hnone]
  · have harrived := (moves_finish (t.performAll (t.broker.publishCalls job.channel messages))
      job.handles .acked).grows.arrived.eq_of_forall_not fun _ => not_false
    rw [hcalls, harrived, hpublished.arrived, List.take_length, Job.sent, hmessages]
    rfl

/-- Deliveries that are not of the first job stay unacknowledged meanwhile. -/
theorem mem_unacked_step (h : t.CanWork (job :: jobs)) {u : Broker.Unacked}
    (hu : u ∈ t.broker.unacked) (hout : u.handle ∉ job.handles) :
    u ∈ (t.performAll (job.calls t.broker)).broker.unacked := by
  have hgeneration := h.sameConnection.generation
  rw [job.performAll_calls_broker] at hgeneration ⊢
  exact job.mem_unacked_work h.settle.sound hgeneration hu hout

/-- Those of the first job are acknowledged. -/
theorem mem_acked_step (h : t.CanWork (job :: jobs)) {u : Broker.Unacked}
    (hu : u ∈ t.broker.unacked) (hhandle : u.handle ∈ job.handles) :
    u ∈ (t.performAll (job.calls t.broker)).ledger.acked := by
  obtain ⟨messages, -, hpublished, hcalls⟩ := h.exists_published
  have hendures := hpublished.endures (by simp [h.closeAfter])
  have hsettle : t.CanSettle job.handles := CanSettle.of_append_left h.settle
  have hsound := hsettle.sound.performAll (t.broker.publishCalls job.channel messages)
  rw [hcalls]
  exact (hsettle.endures hsound hendures).mem_settled .acked (hendures.unacked.subset hu) hhandle

/-- What a queue looks like after the first of the jobs depends only on how many of its deliveries
are of the queue, if it publishes to other queues. -/
theorem outlook_step (h : t.CanWork (job :: jobs)) (hqueues : ∀ p ∈ job.sent, p.1 ≠ name) :
    (t.performAll (job.calls t.broker)).outlook name =
      Broker.Outlook.acked^[t.broker.countOf name job.handles] (t.outlook name) := by
  obtain ⟨messages, hmessages, hpublished, hcalls⟩ := h.exists_published
  have hendures := hpublished.endures (by simp [h.closeAfter])
  have hsettle : t.CanSettle job.handles := CanSettle.of_append_left h.settle
  have hsound := hsettle.sound.performAll (t.broker.publishCalls job.channel messages)
  have hsettle' := hsettle.endures hsound hendures
  have hcurrent : (t.performAll (t.broker.publishCalls job.channel messages)).Current :=
    Moves.keep Current.move (moves_any t _) h.current
  have hsame : (t.performAll (t.broker.publishCalls job.channel messages)).outlook name =
      t.outlook name := by
    refine outlook_publishCalls (fun c hc => ?_) h.closeAfter
    obtain ⟨m, hm, rfl⟩ := Broker.mem_publishCalls hc
    refine ⟨job.channel, m, rfl, hqueues (m.queue, m.content) ?_⟩
    rw [Job.sent, hmessages]
    exact List.mem_map_of_mem hm
  rw [hcalls, hsettle'.outlook_ackAll hcurrent, hsame, hsettle.countOf_eq hsettle'
    (fun u hu _ => hendures.unacked.subset hu) (List.Subset.refl _)]

/-- All jobs enqueue their messages and acknowledge their deliveries. -/
theorem all (h : t.CanWork jobs) :
    (Job.workAll t.broker jobs).2 = jobs.map (fun job => .acked job.handles.length) ∧
      (t.performAll (Job.callsAll t.broker jobs)).ledger.arrived =
        t.ledger.arrived ++ jobs.flatMap Job.sent := by
  induction jobs generalizing t with
  | nil => exact ⟨rfl, (List.append_nil _).symm⟩
  | cons job jobs ih =>
      obtain ⟨hnext, houtcome, harrived⟩ := h.step
      obtain ⟨houtcomes, hrest⟩ := ih hnext
      rw [job.performAll_calls_broker] at houtcomes hrest
      constructor
      · rw [Job.workAll]
        dsimp only
        rw [houtcomes, houtcome]
        rfl
      · rw [Job.callsAll, performAll_append, hrest, harrived, List.flatMap_cons,
          List.append_assoc]

/-- The deliveries of all jobs are acknowledged. -/
theorem mem_acked_all (h : t.CanWork jobs) {u : Broker.Unacked} (hu : u ∈ t.broker.unacked)
    (hhandle : u.handle ∈ jobs.flatMap Job.handles) :
    u ∈ (t.performAll (Job.callsAll t.broker jobs)).ledger.acked := by
  induction jobs generalizing t with
  | nil => cases hhandle
  | cons job jobs ih =>
      rw [Job.callsAll, performAll_append]
      by_cases hown : u.handle ∈ job.handles
      · exact (Ledger.Grows.performAll_any _ _).acked.mem (h.mem_acked_step hu hown)
      · have hrest : u.handle ∈ jobs.flatMap Job.handles :=
          (List.mem_append.1 hhandle).resolve_left hown
        have hlater := ih h.step.1 (h.mem_unacked_step hu hown) hrest
        rwa [job.performAll_calls_broker] at hlater

/-- What a queue looks like after all jobs depends only on how many of their deliveries are of the
queue, if they publish to other queues. -/
theorem outlook_all (h : t.CanWork jobs) (hqueues : ∀ job ∈ jobs, ∀ p ∈ job.sent, p.1 ≠ name) :
    (t.performAll (Job.callsAll t.broker jobs)).outlook name =
      Broker.Outlook.acked^[t.broker.countOf name (jobs.flatMap Job.handles)]
        (t.outlook name) := by
  induction jobs generalizing t with
  | nil => rfl
  | cons job jobs ih =>
      obtain ⟨hnext, houtcome, -⟩ := h.step
      have hfirst := h.outlook_step (hqueues job List.mem_cons_self)
      have hrest := ih hnext fun job' hjob' => hqueues job' (List.mem_cons_of_mem _ hjob')
      -- The deliveries of the other jobs are still unacknowledged.
      have hcount : (t.performAll (job.calls t.broker)).broker.countOf name
          (jobs.flatMap Job.handles) = t.broker.countOf name (jobs.flatMap Job.handles) := by
        refine h.settle.countOf_eq hnext.settle ?_ (List.subset_append_right _ _) name
        intro u hu hhandle
        refine h.mem_unacked_step hu fun hown => ?_
        exact (List.nodup_append.1 h.settle.nodup).2.2 _ hown _ hhandle rfl
      rw [hcount, hfirst, job.performAll_calls_broker] at hrest
      rw [Job.callsAll, performAll_append, hrest, List.flatMap_cons, Broker.countOf_append,
        Nat.add_comm, Function.iterate_add_apply]

end CanWork

end Tracked

end HashCalendar
