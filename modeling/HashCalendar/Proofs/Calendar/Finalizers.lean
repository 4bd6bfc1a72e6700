/-
**What is known of a calendar job under way.**

A job enqueues the messages of its tree, starts to acknowledge its deliveries after it has enqueued
all of them, and acknowledges each of its deliveries once.  It emits its block if all went well with
all of them.  Whatever the broker is made to do between two calls of the job, this stays true.

Main definitions:

* `HashCalendar.Ledger.Rooted` — an aggregate root was read from a delivery;
* `HashCalendar.Finalizer.Complete` — all messages of a job were enqueued;
* `HashCalendar.Finalizer.Honest` — what is known of a job under way.

Main results:

* `HashCalendar.Finalizer.Honest.mono` — it stays true while others call the broker;
* `HashCalendar.Finalizer.Honest.advance` — **it stays true over a call of the job**;
* `HashCalendar.Finalizer.Honest.of_block` — what is known of a job that has emitted a block.
-/

import HashCalendar.Proofs.Calendar.Runs

set_option relaxedAutoImplicit false
set_option autoImplicit false

namespace HashCalendar

/-! ### Trees and their messages -/

namespace CalendarTree

variable {tree : CalendarTree} {batch : List AggregateRoot}

/-- A tree has a path for each of its aggregate roots. -/
theorem length_paths {id : Uuid} {f : HashFunction} (h : build id f batch = .ok tree) :
    tree.paths.length = batch.length := by
  have hne : batch.map AggregateRoot.aggRoot ≠ [] := by
    intro hnil
    rw [build, hnil] at h
    cases h
  obtain ⟨t, ht, -, hleaves⟩ := Merkle.Tree.build_eq_ok f hne
  rw [build, ht] at h
  cases h
  rw [Merkle.Tree.length_proofs, Merkle.Tree.leafCount, hleaves, List.length_map]

/-- An answer as it is sent. -/
def answer (tree : CalendarTree) (baseUri : String) (root : AggregateRoot) (path : Path) :
    Content :=
  ⟨some calendarKind, (tree.stateMessage baseUri root path).toJson.render⟩

/-- An aggregate root has its answer under its own number. -/
theorem exists_getElem?_messages (h : tree.paths.length = batch.length) (queue baseUri : String)
    {i : Nat} {root : AggregateRoot} (hroot : batch[i]? = some root) :
    ∃ path, tree.paths[i]? = some path ∧
      (tree.messages queue baseUri batch)[i]? = some ⟨queue, tree.answer baseUri root path⟩ := by
  have hpath : i < tree.paths.length := h ▸ (List.getElem?_eq_some_iff.1 hroot).1
  refine ⟨tree.paths[i], List.getElem?_eq_getElem hpath, ?_⟩
  rw [messages, List.getElem?_zipWith_eq_some]
  exact ⟨root, tree.paths[i], hroot, List.getElem?_eq_getElem hpath, rfl⟩

end CalendarTree

/-- An aggregate root was read from a delivery of a queue. -/
def Ledger.Rooted (l : Ledger) (queue : String) (p : PendingRoot) : Prop :=
  ∃ u ∈ l.handed, u.tag = p.handle.tag ∧ u.queue = queue ∧
    Inbound.read u.message.content = .ok (.aggregateRoot p.message)

theorem Ledger.Rooted.mono {policy : Broker.Policy} {l l' : Ledger} {queue : String}
    {p : PendingRoot} (h : l.Rooted queue p) (hg : l.Grows policy l') : l'.Rooted queue p := by
  obtain ⟨u, hu, hprops⟩ := h
  exact ⟨u, hg.handed.mem hu, hprops⟩

/-- A tree is one over the given aggregate roots. -/
def BuiltTree.IsOver (tree : CalendarTree) (roots : List PendingRoot) : Prop :=
  ∃ id f built, CalendarTree.build id f (roots.map PendingRoot.message) = .ok built ∧
    tree.id = built.id ∧ tree.root = built.root ∧ tree.paths = built.paths

/-! ### Jobs -/

namespace Finalizer

/-- All messages of a job were enqueued. -/
def Complete (w : Finalizer) : Prop := w.sent.length = w.job.messages.length

/-- The tags of the deliveries of a job. -/
def tags (w : Finalizer) : List Nat := w.job.handles.map Handle.tag

/-- How much was enqueued and acknowledged goes with how far the work on a job has got. -/
def OnCourse (w : Finalizer) : Progress → Prop
  | .publishing left => w.job.messages.drop w.sent.length = left ∧ w.acked = []
  | .acking left count => w.Complete ∧ w.acked.length = count ∧
      ∃ past, past ++ left = w.job.handles ∧ w.acked.Sublist (past.map Handle.tag)
  | .returning _ => w.acked = []
  | .settled (.acked _) => w.Complete ∧ w.acked = w.tags
  | .settled (.rejected _) => w.acked = []
  | .settled (.abandoned acked unacked) => w.Complete ∧ w.acked.length = acked ∧
      w.acked.Sublist w.tags ∧ acked + unacked = w.job.handles.length ∧ 0 < unacked

/-- What is known of a job under way. -/
structure Honest (queues : Config.Queues) (baseUri : String) (l : Ledger) (w : Finalizer) :
    Prop where
  handles : w.job.handles = w.roots.map PendingRoot.handle
  tree : BuiltTree.IsOver w.job.tree w.roots
  messages : w.job.messages =
    w.job.tree.messages queues.stateOut baseUri (w.roots.map PendingRoot.message)
  holds : l.HoldsPrefix w.sent w.job.messages
  acked : ∀ tag ∈ w.acked, ∃ u ∈ l.acked, u.tag = tag
  onCourse : w.OnCourse w.progress

namespace Honest

variable {queues : Config.Queues} {baseUri : String} {l l' : Ledger} {w : Finalizer}

/-- What is known of a job stays true while the ledger grows. -/
theorem mono {p : Broker.Policy} (h : w.Honest queues baseUri l) (hg : l.Grows p l') :
    w.Honest queues baseUri l' where
  handles := h.handles
  tree := h.tree
  messages := h.messages
  holds := h.holds.mono hg
  acked tag htag := by
    obtain ⟨u, hu, hutag⟩ := h.acked tag htag
    exact ⟨u, hg.acked.mem hu, hutag⟩
  onCourse := h.onCourse

/-- A job that has just been handed out. -/
theorem start (l : Ledger) {chainer : Chainer} (ch : Channel) {built : BuiltTree}
    (hb : BuiltTree.IsOver built.tree built.roots) :
    Honest chainer.queues chainer.config.baseUri l
      (.start (chainer.jobOf ch built) built.roots) where
  handles := rfl
  tree := hb
  messages := rfl
  holds := .nil l _
  acked := by simp [Finalizer.start]
  onCourse := ⟨rfl, rfl⟩

/-- Enqueueing goes on as it should, and turns to acknowledging once all was enqueued. -/
theorem onCourse_publishing (h : w.Honest queues baseUri l) {left : List Outbound}
    (hp : w.progress = .publishing left) (b : Broker) :
    (w.advance b).OnCourse (w.advance b).progress := by
  obtain ⟨hdrop, hacked⟩ : w.OnCourse (.publishing left) := hp ▸ h.onCourse
  have hacks : (w.advance b).acked = [] := by
    simp [Finalizer.advance, hp, Progress.acks?, hacked]
  cases left with
  | nil =>
      have hsent : (w.advance b).sent = w.sent := by
        simp [Finalizer.advance, hp, Progress.enqueues?]
      have hcomplete : (w.advance b).Complete := by
        rw [Complete, hsent]
        exact Nat.le_antisymm h.holds.length_le (List.drop_eq_nil_iff.1 hdrop)
      rw [show (w.advance b).progress = .acking w.job.handles 0 by
        simp [Finalizer.advance, hp, Progress.next]]
      exact ⟨hcomplete, congrArg List.length hacks, [], rfl, hacks ▸ List.Sublist.refl _⟩
  | cons m ms =>
      cases hr : (b.publish w.job.channel m).2 with
      | ok u =>
          have hsent : (w.advance b).sent.length = w.sent.length + 1 := by
            simp [Finalizer.advance, hp, Progress.enqueues?, hr]
          rw [show (w.advance b).progress = .publishing ms by
            simp [Finalizer.advance, hp, Progress.next, hr]]
          refine ⟨?_, hacks⟩
          rw [hsent, ← List.tail_drop]
          exact congrArg List.tail hdrop
      | error e =>
          rw [show (w.advance b).progress = .returning w.job.handles by
            simp [Finalizer.advance, hp, Progress.next, hr]]
          exact hacks

/-- A job that has tried to acknowledge all its deliveries is settled by how many it did. -/
theorem onCourse_acking_nil {count : Nat} (hcourse : w.OnCourse (.acking [] count))
    (hp : w.progress = .acking [] count) (b : Broker) :
    (w.advance b).OnCourse (w.advance b).progress := by
  obtain ⟨hcomplete, hcount, past, hpast, hsub⟩ := hcourse
  rw [List.append_nil] at hpast
  subst hpast
  have hcomplete' : (w.advance b).Complete := by
    simpa [Complete, Finalizer.advance, hp, Progress.enqueues?] using hcomplete
  have hacked : (w.advance b).acked = w.acked := by
    simp [Finalizer.advance, hp, Progress.acks?]
  have hle := hsub.length_le
  rw [List.length_map] at hle
  by_cases hall : count = w.job.handles.length
  · rw [show (w.advance b).progress = .settled (.acked count) by
      simp [Finalizer.advance, hp, Progress.next, hall]]
    refine ⟨hcomplete', hacked.trans (hsub.eq_of_length ?_)⟩
    rw [hcount, hall, List.length_map]
  · rw [show (w.advance b).progress =
        .settled (.abandoned count (w.job.handles.length - count)) by
      simp [Finalizer.advance, hp, Progress.next, hall]]
    refine ⟨hcomplete', by rw [hacked, hcount], hacked ▸ hsub, ?_, ?_⟩
    · simp only [Finalizer.advance]
      omega
    · omega

/-- A job tries to acknowledge one delivery after the other. -/
theorem onCourse_acking_cons {handle : Handle} {rest : List Handle} {count : Nat}
    (hcourse : w.OnCourse (.acking (handle :: rest) count))
    (hp : w.progress = .acking (handle :: rest) count) (b : Broker) :
    (w.advance b).OnCourse (w.advance b).progress := by
  obtain ⟨hcomplete, hcount, past, hpast, hsub⟩ := hcourse
  have hcomplete' : (w.advance b).Complete := by
    simpa [Complete, Finalizer.advance, hp, Progress.enqueues?] using hcomplete
  have hpast' : (past ++ [handle]) ++ rest = w.job.handles := by simp [← hpast]
  cases hr : (b.ack handle).2 with
  | ok u =>
      have hacked : (w.advance b).acked = w.acked ++ [handle.tag] := by
        simp [Finalizer.advance, hp, Progress.acks?, hr]
      rw [show (w.advance b).progress = .acking rest (count + 1) by
        simp [Finalizer.advance, hp, Progress.next, hr]]
      refine ⟨hcomplete', by simp [hacked, hcount], past ++ [handle], hpast', ?_⟩
      rw [hacked, List.map_append]
      exact hsub.append (List.Sublist.refl _)
  | error e =>
      have hacked : (w.advance b).acked = w.acked := by
        simp [Finalizer.advance, hp, Progress.acks?, hr]
      rw [show (w.advance b).progress = .acking rest count by
        simp [Finalizer.advance, hp, Progress.next, hr]]
      refine ⟨hcomplete', by rw [hacked, hcount], past ++ [handle], hpast', ?_⟩
      rw [hacked, List.map_append]
      exact hsub.trans (List.sublist_append_left _ _)

/-- A job that gives its deliveries back acknowledges none of them. -/
theorem onCourse_returning {left : List Handle} (hcourse : w.OnCourse (.returning left))
    (hp : w.progress = .returning left) (b : Broker) :
    (w.advance b).OnCourse (w.advance b).progress := by
  have hacked : (w.advance b).acked = [] := by
    simp [Finalizer.advance, hp, Progress.acks?]
    exact hcourse
  cases left with
  | nil =>
      rw [show (w.advance b).progress = .settled (.rejected w.job.handles.length) by
        simp [Finalizer.advance, hp, Progress.next]]
      exact hacked
  | cons handle rest =>
      rw [show (w.advance b).progress = .returning rest by
        simp [Finalizer.advance, hp, Progress.next]]
      exact hacked

/-- The next call moves the work on as it should, given what it enqueues and acknowledges. -/
theorem onCourse_advance (h : w.Honest queues baseUri l) (b : Broker) :
    (w.advance b).OnCourse (w.advance b).progress := by
  have hcourse := h.onCourse
  cases hp : w.progress with
  | publishing left => exact h.onCourse_publishing hp b
  | acking left count =>
      rw [hp] at hcourse
      cases left with
      | nil => exact onCourse_acking_nil hcourse hp b
      | cons handle rest => exact onCourse_acking_cons hcourse hp b
  | returning left => exact onCourse_returning (hp ▸ hcourse) hp b
  | settled outcome =>
      rw [w.advance_of_settled hp]
      exact hcourse

/-- What is known of a job stays true over its next call. -/
theorem advance {t : Tracked} (h : w.Honest queues baseUri t.ledger) (hs : t.Sound) :
    (w.advance t.broker).Honest queues baseUri (t.performAll w.calls).ledger := by
  have hmono := h.mono (Ledger.Grows.performAll_any t w.calls)
  refine ⟨h.handles, h.tree, h.messages, ?_, ?_, h.onCourse_advance _⟩
  · rcases w.progress.enqueue_cases w.job.channel t with
      ⟨m, ms, hp, -, hsome, harrived⟩ | ⟨hnone, -⟩
    · have hcourse := h.onCourse
      rw [hp] at hcourse
      have hm : w.job.messages[w.sent.length]? = some m := by
        rw [← List.head?_drop, hcourse.1]
        rfl
      rw [Finalizer.advance, hsome, ← hs.arrived_length]
      exact h.holds.concat hm harrived
    · rw [Finalizer.advance, hnone]
      simpa using hmono.holds
  · intro tag htag
    rcases w.progress.ack_cases w.job.channel t with
      ⟨handle, -, -, u, -, -, hutag, -, hsome, hacked⟩ | ⟨hnone, -⟩
    · rw [Finalizer.advance, hsome] at htag
      rcases List.mem_append.1 htag with htag | htag
      · exact hmono.acked tag htag
      · rw [Option.toList_some, List.mem_singleton] at htag
        refine ⟨u, ?_, hutag.trans htag.symm⟩
        rw [Finalizer.calls, hacked]
        exact List.mem_append_right _ List.mem_cons_self
    · rw [Finalizer.advance, hnone] at htag
      exact hmono.acked tag (by simpa using htag)

/-- A job that has emitted a block has enqueued all its messages and acknowledged all its
deliveries. -/
theorem of_block (h : w.Honest queues baseUri l) {block : Block} (hb : w.block? = some block) :
    block = w.job.tree.block ∧ w.Complete ∧ w.acked = w.tags := by
  obtain ⟨outcome, hp⟩ := w.exists_outcome_of_block hb
  have hcourse := h.onCourse
  rw [block?, hp] at hb
  rw [hp] at hcourse
  cases outcome with
  | acked count =>
      cases hb
      exact ⟨rfl, hcourse⟩
  | rejected count => cases hb
  | abandoned acked unacked => cases hb

end Honest

end Finalizer

end HashCalendar
