/-
**Nothing is acknowledged before it is answered.**

In every run of the aggregation tier, whatever the others do and whenever connections are lost, the
messages of a job are enqueued as the first ones of its list, so that an aggregate root never gets
to its queue before all answers that belong to it were enqueued.  A submission is acknowledged only
after that, and discarded only if it cannot be read.  So no valid submission leaves the broker
before it is answered.

The invariant says this of the ledger, job by job: whatever the ledger holds of the queues of the
tier is accounted for by one of the jobs.

Main definitions:

* `HashCalendar.Station.Accounted` — what the ledger holds is accounted for by the jobs;
* `HashCalendar.Station.Disciplined` — the invariant.

Main results:

* `HashCalendar.Station.Reachable.disciplined` — every run keeps the invariant;
* `HashCalendar.submissions_answered_before_acknowledged` — **the discipline of the tier**.
-/

import HashCalendar.Proofs.Aggregation.Workers

set_option relaxedAutoImplicit false
set_option autoImplicit false

namespace HashCalendar

namespace Worker

/-- A message of the job was not taken, so that its deliveries are given back. -/
def GivenUp (w : Worker) : Prop :=
  (∃ left, w.progress = .returning left) ∨ ∃ count, w.progress = .settled (.rejected count)

theorem Honest.not_complete {queues : Config.Queues} {l : Ledger} {w : Worker}
    (h : w.Honest queues l) (hg : w.GivenUp) : ¬ w.Complete := by
  have hcourse := h.onCourse
  rcases hg with ⟨left, hp⟩ | ⟨count, hp⟩
  · rw [hp] at hcourse
    exact hcourse.1
  · rw [hp] at hcourse
    exact hcourse

theorem GivenUp.advance {w : Worker} (hg : w.GivenUp) (b : Broker) : (w.advance b).GivenUp := by
  rcases hg with ⟨left, hp⟩ | ⟨count, hp⟩
  · cases left with
    | nil => exact Or.inr ⟨_, congrArg (Progress.next _ _ b) hp⟩
    | cons handle rest => exact Or.inl ⟨rest, congrArg (Progress.next _ _ b) hp⟩
  · exact Or.inr ⟨count, congrArg (Progress.next _ _ b) hp⟩

/-- A delivery is one of those of the job. -/
def Covers (w : Worker) (u : Broker.Unacked) : Prop := ∃ p ∈ w.batch, p.handle.tag = u.tag

end Worker

namespace Station

/-- What the broker of the tier did to each message. -/
def ledger (s : Station) : Ledger := s.tracked.ledger

/-! ### Jobs go on -/

/-- Jobs that are at least as far as others. -/
def Succeed (ws ws' : List Worker) : Prop :=
  ∀ w ∈ ws, ∃ w' ∈ ws', w'.batch = w.batch ∧ (w.Complete → w'.Complete ∧ w'.sent = w.sent) ∧
    (w.GivenUp → w'.GivenUp)

theorem Succeed.append (ws more : List Worker) : Succeed ws (ws ++ more) := by
  intro w hw
  exact ⟨w, List.mem_append_left _ hw, rfl, fun hc => ⟨hc, rfl⟩, fun hg => hg⟩

theorem Succeed.set {ws : List Worker} {number : Nat} {w : Worker} (hw : ws[number]? = some w)
    {queues : Config.Queues} {l : Ledger} (h : w.Honest queues l) (b : Broker) :
    Succeed ws (ws.set number (w.advance b)) := by
  have hlt := (List.getElem?_eq_some_iff.1 hw).1
  intro v hv
  obtain ⟨k, hk⟩ := List.mem_iff_getElem?.1 hv
  by_cases hkn : number = k
  · subst hkn
    obtain rfl : w = v := Option.some.inj (hw.symm.trans hk)
    have hmem := List.mem_of_getElem? (List.getElem?_set_self (a := w.advance b) hlt)
    refine ⟨w.advance b, hmem, rfl, ?_, fun hg => hg.advance b⟩
    intro hc
    refine ⟨h.complete_advance hc b, ?_⟩
    simp [Worker.advance, h.enqueues?_of_complete hc b]
  · refine ⟨v, ?_, rfl, fun hc => ⟨hc, rfl⟩, fun hg => hg⟩
    exact List.mem_of_getElem? ((List.getElem?_set_ne hkn).trans hk)

/-! ### The ledger is accounted for -/

/-- What the ledger holds of the queues of the tier is accounted for by its jobs. -/
structure Accounted (queues : Config.Queues) (l : Ledger) (ws : List Worker) : Prop where
  /-- Where the roots go there are only roots of jobs whose whole list was enqueued. -/
  roots : ∀ (n : Nat) content, l.arrived[n]? = some (queues.calendarIn, content) →
    ∃ w ∈ ws, w.Complete ∧ w.sent.getLast? = some n
  acked : ∀ u ∈ l.acked, u.queue = queues.aggregatorIn → ∃ w ∈ ws, w.Complete ∧ w.Covers u
  returned : ∀ u ∈ l.returned, u.queue = queues.aggregatorIn → ∃ w ∈ ws, w.GivenUp ∧ w.Covers u
  discarded : ∀ u ∈ l.discarded, u.queue = queues.aggregatorIn →
    ∃ e, Submission.read u.message.content.payload = .error e
  not_taken : ∀ p ∈ l.taken, p.1 ≠ queues.aggregatorIn

namespace Accounted

variable {queues : Config.Queues} {l l' : Ledger} {ws ws' : List Worker}

theorem succeed (h : Accounted queues l ws) (hs : Succeed ws ws') : Accounted queues l ws' where
  roots n content hn := by
    obtain ⟨w, hw, hc, hlast⟩ := h.roots n content hn
    obtain ⟨w', hw', -, hcomplete, -⟩ := hs w hw
    exact ⟨w', hw', (hcomplete hc).1, (hcomplete hc).2 ▸ hlast⟩
  acked u hu hq := by
    obtain ⟨w, hw, hc, p, hp, htag⟩ := h.acked u hu hq
    obtain ⟨w', hw', hbatch, hcomplete, -⟩ := hs w hw
    exact ⟨w', hw', (hcomplete hc).1, p, hbatch ▸ hp, htag⟩
  returned u hu hq := by
    obtain ⟨w, hw, hg, p, hp, htag⟩ := h.returned u hu hq
    obtain ⟨w', hw', hbatch, -, hgiven⟩ := hs w hw
    exact ⟨w', hw', hgiven hg, p, hbatch ▸ hp, htag⟩
  discarded := h.discarded
  not_taken := h.not_taken

/-- A ledger that grows needs an account of what is new. -/
theorem grow {p : Broker.Policy} (h : Accounted queues l ws) (hg : l.Grows p l')
    (hroots : ∀ (n : Nat) content, l'.arrived[n]? = some (queues.calendarIn, content) →
      p.arrive queues.calendarIn content → ∃ w ∈ ws, w.Complete ∧ w.sent.getLast? = some n)
    (hacked : ∀ u ∈ l'.acked, u.queue = queues.aggregatorIn → p.settle u .acked →
      ∃ w ∈ ws, w.Complete ∧ w.Covers u)
    (hreturned : ∀ u ∈ l'.returned, u.queue = queues.aggregatorIn → p.settle u .returned →
      ∃ w ∈ ws, w.GivenUp ∧ w.Covers u)
    (hdiscarded : ∀ u ∈ l'.discarded, u.queue = queues.aggregatorIn → p.settle u .discarded →
      ∃ e, Submission.read u.message.content.payload = .error e)
    (htaken : ¬ p.take queues.aggregatorIn) : Accounted queues l' ws where
  roots n content hn := by
    rcases hg.arrived.getElem?_or hn with hold | hnew
    · exact h.roots n content hold
    · exact hroots n content hn hnew
  acked u hu hq := by
    rcases hg.acked.mem_or hu with hold | hnew
    · exact h.acked u hold hq
    · exact hacked u hu hq hnew
  returned u hu hq := by
    rcases hg.returned.mem_or hu with hold | hnew
    · exact h.returned u hold hq
    · exact hreturned u hu hq hnew
  discarded u hu hq := by
    rcases hg.discarded.mem_or hu with hold | hnew
    · exact h.discarded u hold hq
    · exact hdiscarded u hu hq hnew
  not_taken q hq := by
    rcases hg.taken.mem_or hq with hold | hnew
    · exact h.not_taken q hold
    · intro heq
      exact htaken (heq ▸ hnew)

/-- What others do needs no account. -/
theorem others (h : Accounted queues l ws) (hg : l.Grows (others queues) l') :
    Accounted queues l' ws := by
  refine h.grow hg ?_ ?_ ?_ ?_ (fun hne => hne rfl)
  · exact fun _ _ _ hne => absurd rfl hne
  · exact fun _ _ hq hne => absurd hq hne
  · exact fun _ _ hq hne => absurd hq hne
  · exact fun _ _ hq hne => absurd hq hne

/-- Settling one delivery needs an account of it. -/
theorem only (h : Accounted queues l ws) {fate : Fate} {tag : Nat}
    (hg : l.Grows (.only fate tag) l')
    (hacked : fate = .acked → ∀ u ∈ l'.acked, u.tag = tag → ∃ w ∈ ws, w.Complete ∧ w.Covers u)
    (hreturned : fate = .returned → ∀ u ∈ l'.returned, u.tag = tag →
      ∃ w ∈ ws, w.GivenUp ∧ w.Covers u)
    (hdiscarded : fate = .discarded → ∀ u ∈ l'.discarded, u.tag = tag →
      ∃ e, Submission.read u.message.content.payload = .error e) :
    Accounted queues l' ws := by
  refine h.grow hg (fun _ _ _ hno => hno.elim) ?_ ?_ ?_ id
  · rintro u hu - ⟨hfate, htag⟩
    exact hacked hfate.symm u hu htag
  · rintro u hu - ⟨hfate, htag⟩
    exact hreturned hfate.symm u hu htag
  · rintro u hu - ⟨hfate, htag⟩
    exact hdiscarded hfate.symm u hu htag

/-- The next call of a job is accounted for by the job. -/
theorem advance {t : Tracked} (h : Accounted queues t.ledger ws) (hs : t.Sound)
    (hq : queues.stateOut ≠ queues.calendarIn) {number : Nat} {w : Worker}
    (hw : ws[number]? = some w) (hon : w.Honest queues t.ledger) :
    Accounted queues (t.performAll w.calls).ledger (ws.set number (w.advance t.broker)) := by
  have h' := h.succeed (Succeed.set hw hon t.broker)
  have hlt := (List.getElem?_eq_some_iff.1 hw).1
  have hmem : w.advance t.broker ∈ ws.set number (w.advance t.broker) :=
    List.mem_of_getElem? (List.getElem?_set_self hlt)
  have hcovers : ∀ handle ∈ w.job.handles, ∀ u : Broker.Unacked, u.tag = handle.tag →
      (w.advance t.broker).Covers u := by
    intro handle hhandle u hu
    rw [hon.handles] at hhandle
    obtain ⟨p, hp, rfl⟩ := List.mem_map.1 hhandle
    exact ⟨p, hp, hu.symm⟩
  have hcourse := hon.onCourse
  cases hp : w.progress with
  | publishing left =>
      have hcalls : ∀ c ∈ w.calls, ∀ b, Broker.Policy.bring.Allows b c := by
        intro c hc b
        rw [Worker.calls, hp] at hc
        cases left with
        | nil => cases hc
        | cons m ms =>
            rw [List.mem_singleton.1 hc]
            exact trivial
      refine h'.grow (.performAll hcalls) ?_ (fun _ _ _ hno => hno.elim)
        (fun _ _ _ hno => hno.elim) (fun _ _ _ hno => hno.elim) id
      intro n content hn _
      rcases hon.root_of_call hq hs.arrived_length hn with hold | ⟨hcomplete, hlast⟩
      · exact h'.roots n content hold
      · exact ⟨_, hmem, hcomplete, hlast⟩
  | acking left count =>
      rw [hp] at hcourse
      cases left with
      | nil =>
          rw [Worker.calls, hp]
          exact h'
      | cons handle rest =>
          have hg : t.ledger.Grows (.only .acked handle.tag) (t.performAll w.calls).ledger := by
            rw [Worker.calls, hp]
            exact .perform (Broker.Policy.only_allows_ack _ handle)
          refine h'.only hg ?_ (by simp) (by simp)
          intro _ u _ hu
          exact ⟨_, hmem, hon.complete_advance hcourse.1 _,
            hcovers handle (hcourse.2 handle List.mem_cons_self) u hu⟩
  | returning left =>
      rw [hp] at hcourse
      cases left with
      | nil =>
          rw [Worker.calls, hp]
          exact h'
      | cons handle rest =>
          have hg : t.ledger.Grows (.only .returned handle.tag) (t.performAll w.calls).ledger := by
            rw [Worker.calls, hp]
            exact .perform (Broker.Policy.only_allows_nack _ handle true)
          refine h'.only hg (by simp) ?_ (by simp)
          intro _ u _ hu
          have hgiven : w.GivenUp := Or.inl ⟨_, hp⟩
          exact ⟨_, hmem, hgiven.advance _,
            hcovers handle (hcourse.2 handle List.mem_cons_self) u hu⟩
  | settled outcome =>
      rw [Worker.calls, hp]
      exact h'

end Accounted

/-! ### The invariant -/

/-- What is true of the tier in every run. -/
structure Disciplined (queues : Config.Queues) (s : Station) : Prop where
  queues_eq : s.aggregator.queues = queues
  sound : s.tracked.Sound
  in_hand : ∀ d ∈ s.inHand, ∃ u ∈ s.ledger.handed, u.tag = d.1.tag ∧ u.message.content = d.2
  pending : ∀ p ∈ s.aggregator.pending.items, s.ledger.Submitted p
  honest : ∀ w ∈ s.workers, w.Honest queues s.ledger
  accounted : Accounted queues s.ledger s.workers

namespace Disciplined

variable {queues : Config.Queues} {s : Station}

theorem start (c : Config) : Disciplined c.queues (.ofConfig c) where
  queues_eq := rfl
  sound := Tracked.sound_empty
  in_hand := by simp [ofConfig]
  pending := by simp [ofConfig]
  honest := by simp [ofConfig]
  accounted :=
    { roots := by simp [ofConfig, ledger]
      acked := by simp [ofConfig, ledger]
      returned := by simp [ofConfig, ledger]
      discarded := by simp [ofConfig, ledger]
      not_taken := by simp [ofConfig, ledger] }

/-- What others do to the broker, and whatever becomes of the link, keeps the invariant. -/
theorem others (h : Disciplined queues s) {t : Tracked} (ht : t.Sound)
    (hg : s.ledger.Grows (others queues) t.ledger) (link : Link) (receiver : Option Receiver) :
    Disciplined queues { s with tracked := t, link, receiver } where
  queues_eq := h.queues_eq
  sound := ht
  in_hand d hd := by
    obtain ⟨u, hu, heq⟩ := h.in_hand d hd
    exact ⟨u, hg.handed.mem hu, heq⟩
  pending p hp := (h.pending p hp).mono hg
  honest w hw := (h.honest w hw).mono hg
  accounted := h.accounted.others hg

/-- Calls that are within every policy keep the invariant. -/
theorem performAll (h : Disciplined queues s) (calls : List Broker.Call)
    (ha : ∀ c ∈ calls, ∀ b, (Station.others queues).Allows b c) (link : Link)
    (receiver : Option Receiver) :
    Disciplined queues { s with tracked := s.tracked.performAll calls, link, receiver } :=
  h.others (h.sound.performAll calls) (.performAll ha) link receiver

theorem attempt (h : Disciplined queues s) (incident : Incident) :
    Disciplined queues { s with toLine := s.toLine.attempt incident } := by
  have hconnected := h.performAll (s.link.calls s.broker incident)
    (fun c hc b => Link.allows_of_mem_calls hc _ b)
  rw [Line.attempt]
  cases hattempt : s.link.attempt s.broker incident with
  | mk b rest =>
      obtain ⟨link, result⟩ := rest
      cases result with
      | error e => exact hconnected link s.receiver
      | ok r =>
          refine (hconnected link s.receiver).performAll _ ?_ link (some r)
          intro c hc b
          cases hr : s.receiver with
          | none =>
              rw [hr] at hc
              cases hc
          | some old =>
              rw [hr] at hc
              rw [List.mem_singleton.1 hc]
              exact trivial

theorem receive (h : Disciplined queues s) : Disciplined queues s.receive := by
  rw [Station.receive]
  rcases s.toLine.receive_cases with ⟨r, d, -, hreceived, heq⟩ | heq
  · rw [heq]
    have hperformed := h.performAll [.receive r.stream]
      (fun c hc b => by rw [List.mem_singleton.1 hc]; exact trivial) s.link s.receiver
    refine { hperformed with in_hand := ?_ }
    intro e he
    rcases List.mem_append.1 he with he | he
    · exact hperformed.in_hand e he
    · obtain ⟨u, hu, htag, hmessage⟩ := h.sound.buffered_handed d (Broker.mem_buffered hreceived)
      have hgrows := Ledger.Grows.performAll_any s.tracked [.receive r.stream]
      rw [List.mem_singleton.1 he]
      exact ⟨u, hgrows.handed.mem hu, htag, congrArg Message.content hmessage⟩
  · rw [heq, Option.toList_none, List.append_nil]
    exact h

theorem ingest (h : Disciplined queues s) {number : Nat} {d : Handle × Content}
    (hd : s.inHand[number]? = some d) :
    Disciplined queues { s.ingest d.1 d.2 with inHand := s.inHand.eraseIdx number } := by
  obtain ⟨handle, content⟩ := d
  obtain ⟨u, hu, htag, hcontent⟩ := h.in_hand _ (List.mem_of_getElem? hd)
  rw [Station.ingest, Aggregator.ingest, ingestCalls]
  cases hread : Submission.read content.payload with
  | ok submission =>
      refine { h with in_hand := ?_, pending := ?_ }
      · intro e he
        exact h.in_hand e (List.mem_of_mem_eraseIdx he)
      · intro p hp
        rcases List.mem_append.1 hp with hp | hp
        · exact h.pending p hp
        · rw [List.mem_singleton.1 hp]
          exact ⟨u, hu, htag, hcontent ▸ hread⟩
  | error e =>
      have hg : s.ledger.Grows (.only .discarded handle.tag)
          (s.tracked.performAll [.nack handle false]).ledger :=
        .perform (Broker.Policy.only_allows_nack _ handle false)
      have ht := h.sound.performAll [.nack handle false]
      constructor
      case queues_eq => exact h.queues_eq
      case sound => exact ht
      case in_hand =>
        intro e he
        obtain ⟨v, hv, heq⟩ := h.in_hand e (List.mem_of_mem_eraseIdx he)
        exact ⟨v, hg.handed.mem hv, heq⟩
      case pending => exact fun p hp => (h.pending p hp).mono hg
      case honest => exact fun w hw => (h.honest w hw).mono hg
      case accounted =>
        refine h.accounted.only hg (by simp) (by simp) ?_
        intro _ v hv hvtag
        -- The tag is that of the delivery in hand, so what is discarded is what was read.
        have heq : u = v := ht.eq_of_tag_eq (hg.handed.mem hu) (ht.mem_handed_of_discarded hv)
          (htag.trans hvtag.symm)
        exact ⟨e, heq ▸ hcontent ▸ hread⟩

theorem tick (h : Disciplined queues s) (feed : Feed) (id : Uuid) :
    Disciplined queues (s.tick feed id) := by
  rcases s.tick_cases feed id with heq | ⟨ch, beacon, -, heq⟩
  · rw [heq]
    exact h
  · rw [heq]
    have hitems : ∀ p ∈ s.nextBatch, p ∈ s.aggregator.pending.items :=
      fun p hp => List.mem_of_mem_take hp
    have hsmall : s.nextBatch.length < UInt64.size :=
      Nat.lt_of_le_of_lt (s.aggregator.pending.length_splice_le _) (UInt64.toNat_lt _)
    refine { h with pending := ?_, honest := ?_, accounted := ?_ }
    · intro p hp
      exact h.pending p (List.mem_of_mem_drop hp)
    · intro w hw
      rcases List.mem_append.1 hw with hw | hw
      · exact h.honest w hw
      · rw [List.mem_singleton.1 hw, ← h.queues_eq]
        exact .prepare ch beacon id hsmall fun p hp => h.pending p (hitems p hp)
    · exact h.accounted.succeed (Succeed.append _ _)

theorem advance (h : Disciplined queues s) (hq : queues.stateOut ≠ queues.calendarIn)
    (number : Nat) : Disciplined queues (s.advance number) := by
  rw [Station.advance]
  cases hw : s.workers[number]? with
  | none => exact h
  | some w =>
      have hon := h.honest w (List.mem_of_getElem? hw)
      have hg := Ledger.Grows.performAll_any s.tracked w.calls
      constructor
      case queues_eq => exact h.queues_eq
      case sound => exact h.sound.performAll w.calls
      case in_hand =>
        intro d hd
        obtain ⟨u, hu, heq⟩ := h.in_hand d hd
        exact ⟨u, hg.handed.mem hu, heq⟩
      case pending => exact fun p hp => (h.pending p hp).mono hg
      case honest =>
        intro v hv
        rcases List.mem_or_eq_of_mem_set hv with hv | rfl
        · exact (h.honest v hv).mono hg
        · exact hon.advance h.sound.arrived_length
      case accounted => exact h.accounted.advance h.sound hq hw hon

/-- Whatever happens keeps the invariant. -/
theorem act (h : Disciplined queues s) (hq : queues.stateOut ≠ queues.calendarIn) {e : Event}
    (he : Permits queues s e) : Disciplined queues (s.act e) := by
  cases e with
  | call c => exact h.others (h.sound.perform c) (.perform he) s.link s.receiver
  | attempt incident => exact h.attempt incident
  | closeLink => exact { h with }
  | detach => exact { h with pending := fun _ hp => absurd hp List.not_mem_nil }
  | receive => exact h.receive
  | ingest number =>
      rw [Station.act]
      cases hd : s.inHand[number]? with
      | none => exact h
      | some d => exact h.ingest hd
  | tick feed id => exact h.tick feed id
  | advance number => exact h.advance hq number

end Disciplined

/-- Every run keeps the invariant. -/
theorem Reachable.disciplined {c : Config} (hq : c.queues.stateOut ≠ c.queues.calendarIn)
    {s : Station} (h : Reachable c s) : Disciplined c.queues s := by
  induction h with
  | start => exact .start c
  | next _ he ih => exact ih.act hq he

end Station

/-! ### The discipline -/

namespace Worker.Honest

variable {queues : Config.Queues} {l : Ledger} {w : Worker}

/-- The root of a complete job is read back, and all answers that belong to it were enqueued before
it. -/
theorem answered (h : w.Honest queues l) (hc : w.Complete) {n : Nat}
    (hlast : w.sent.getLast? = some n) {content : Content}
    (hn : l.arrived[n]? = some (queues.calendarIn, content)) :
    ∃ (root : AggregateRoot) (answers : List Nat),
      Json.decode? AggregateRoot.ofJson? content.payload = some root ∧
      answers.length = root.hashCount ∧ answers.Pairwise (fun j k => j < k) ∧
      ∀ k ∈ answers, k < n ∧ ∃ (answer : Content) (state : AggregationState),
        l.arrived[k]? = some (queues.stateOut, answer) ∧
        Json.decode? AggregationState.ofJson? answer.payload = some state ∧
        state.aggId = root.aggId := by
  obtain ⟨id, f, beacon, tree, root, hbuild, hlen, hroot, harrived, hanswers⟩ :=
    h.exists_answers hc
  obtain rfl : n = root := Option.some.inj (hlast.symm.trans hroot)
  cases hn.symm.trans harrived
  have hover := AggregationTree.of_build_eq_ok hbuild
  have hcount : tree.leafCount < UInt64.size := by
    rw [hover.leafCount, submissions, List.length_map]
    exact h.small
  refine ⟨tree.rootMessage, w.sent.dropLast, AggregateRoot.decode?_render hcount, ?_,
    h.holds.increasing.sublist (List.dropLast_sublist _), ?_⟩
  · rw [List.length_dropLast, hlen]
    exact hover.leafCount.symm
  · intro k hk
    obtain ⟨i, hi⟩ := List.mem_iff_getElem?.1 hk
    have hlt : i < w.submissions.length := by
      have := (List.getElem?_eq_some_iff.1 hi).1
      rw [List.length_dropLast] at this
      omega
    obtain ⟨path, n', -, hsent, hbefore, hanswer⟩ := hanswers i _ (List.getElem?_eq_getElem hlt)
    rw [List.getElem?_dropLast, if_pos (by omega)] at hi
    obtain rfl : k = n' := Option.some.inj (hi.symm.trans hsent)
    exact ⟨hbefore, _, _, hanswer, AggregationState.decode?_render _, rfl⟩

end Worker.Honest

namespace Station.Disciplined

variable {queues : Config.Queues} {s : Station}

/-- What was acknowledged was answered, in a job that it was read for. -/
theorem acked_answered (h : Disciplined queues s) {u : Broker.Unacked} (hu : u ∈ s.ledger.acked)
    (hq : u.queue = queues.aggregatorIn) :
    ∃ w ∈ s.workers, w.Complete ∧ ∃ p ∈ w.batch, p.handle.tag = u.tag ∧
      Submission.read u.message.content.payload = .ok p.submission := by
  obtain ⟨w, hw, hc, p, hp, htag⟩ := h.accounted.acked u hu hq
  obtain ⟨v, hv, hvtag, hread⟩ := (h.honest w hw).submitted p hp
  obtain rfl : v = u :=
    h.sound.eq_of_tag_eq hv (h.sound.mem_handed_of_acked hu) (hvtag.trans htag)
  exact ⟨w, hw, hc, p, hp, htag, hread⟩

/-- A valid submission is in the broker still, or it was acknowledged. -/
theorem in_broker_or_acked (h : Disciplined queues s) {n : Nat} {content : Content}
    {submission : Submission} (hn : s.ledger.arrived[n]? = some (queues.aggregatorIn, content))
    (hread : Submission.read content.payload = .ok submission) :
    (∃ m ∈ s.broker.ready queues.aggregatorIn, m.serial = n) ∨
      (∃ u ∈ s.broker.unacked, u.message.serial = n) ∨
      ∃ u ∈ s.ledger.acked, u.message.serial = n ∧ u.queue = queues.aggregatorIn ∧
        u.message.content = content := by
  have hone := h.sound.one_place n _ _ hn
  have hown : ∀ u ∈ s.ledger.handed, u.message.serial = n →
      u.queue = queues.aggregatorIn ∧ u.message.content = content := by
    intro u hu hserial
    have harrived := h.sound.handed_own u hu
    rw [hserial] at harrived
    have hpair := Option.some.inj (harrived.symm.trans hn)
    exact ⟨congrArg Prod.fst hpair, congrArg Prod.snd hpair⟩
  -- It is in one place, and it was neither taken nor discarded.
  have htaken : copies n (s.ledger.taken.map Prod.snd) = 0 := by
    refine copies_eq_zero ?_
    intro m hm hserial
    obtain ⟨p, hp, rfl⟩ := List.mem_map.1 hm
    have harrived := h.sound.taken_own p hp
    rw [hserial] at harrived
    exact h.accounted.not_taken p hp (congrArg Prod.fst (Option.some.inj (harrived.symm.trans hn)))
  have hdiscarded : copies n (s.ledger.discarded.map Broker.Unacked.message) = 0 := by
    refine copies_eq_zero ?_
    intro m hm hserial
    obtain ⟨u, hu, rfl⟩ := List.mem_map.1 hm
    obtain ⟨hqueue, hcontent⟩ := hown u (h.sound.mem_handed_of_discarded hu) hserial
    obtain ⟨e, he⟩ := h.accounted.discarded u hu hqueue
    rw [hcontent, hread] at he
    cases he
  simp only [ledger, Line.broker] at htaken hdiscarded ⊢
  rw [Tracked.places, htaken, hdiscarded] at hone
  by_cases hready : 0 < copies n (s.tracked.broker.ready queues.aggregatorIn)
  · exact Or.inl (exists_of_copies_pos hready)
  by_cases hunacked : 0 < copies n (s.tracked.broker.unacked.map Broker.Unacked.message)
  · obtain ⟨m, hm, hserial⟩ := exists_of_copies_pos hunacked
    obtain ⟨u, hu, rfl⟩ := List.mem_map.1 hm
    exact Or.inr (Or.inl ⟨u, hu, hserial⟩)
  · have hacked : 0 < copies n (s.tracked.ledger.acked.map Broker.Unacked.message) := by omega
    obtain ⟨m, hm, hserial⟩ := exists_of_copies_pos hacked
    obtain ⟨u, hu, rfl⟩ := List.mem_map.1 hm
    exact Or.inr (Or.inr ⟨u, hu, hserial, hown u (h.sound.mem_handed_of_acked hu) hserial⟩)

end Station.Disciplined

/-- **The discipline of the tier.**  At every moment of every run of the aggregation tier:

* the messages of a job that were enqueued are the first ones of its list, in their order, and
  where the roots go there are only roots to which as many answers as they count were enqueued
  before;
* a submission that was acknowledged belongs to a job whose whole list was enqueued;
* a submission that was discarded cannot be read;
* a valid submission that has left the broker was answered: its answer, with its path in a tree over
  it, and then the root of the tree were enqueued. -/
theorem submissions_answered_before_acknowledged (c : Config)
    (hq : c.queues.stateOut ≠ c.queues.calendarIn) {s : Station} (h : Station.Reachable c s) :
    (∀ w ∈ s.workers, s.ledger.HoldsPrefix w.sent w.job.messages) ∧
    (∀ (n : Nat) content, s.ledger.arrived[n]? = some (c.queues.calendarIn, content) →
      ∃ (root : AggregateRoot) (answers : List Nat),
        Json.decode? AggregateRoot.ofJson? content.payload = some root ∧
        answers.length = root.hashCount ∧ answers.Pairwise (fun j k => j < k) ∧
        ∀ k ∈ answers, k < n ∧ ∃ (answer : Content) (state : AggregationState),
          s.ledger.arrived[k]? = some (c.queues.stateOut, answer) ∧
          Json.decode? AggregationState.ofJson? answer.payload = some state ∧
          state.aggId = root.aggId) ∧
    (∀ u ∈ s.ledger.acked, u.queue = c.queues.aggregatorIn →
      ∃ w ∈ s.workers, w.Complete ∧ ∃ p ∈ w.batch, p.handle.tag = u.tag ∧
        Submission.read u.message.content.payload = .ok p.submission) ∧
    (∀ u ∈ s.ledger.discarded, u.queue = c.queues.aggregatorIn →
      ∃ e, Submission.read u.message.content.payload = .error e) ∧
    (∀ (n : Nat) content submission,
      s.ledger.arrived[n]? = some (c.queues.aggregatorIn, content) →
      Submission.read content.payload = .ok submission →
      (∃ m ∈ s.broker.ready c.queues.aggregatorIn, m.serial = n) ∨
      (∃ u ∈ s.broker.unacked, u.message.serial = n) ∨
      ∃ id f beacon batch tree path, ∃ i k root : Nat,
        AggregationTree.build id f beacon batch = .ok tree ∧
        batch[i]? = some submission ∧ tree.paths[i]? = some path ∧ k < root ∧
        s.ledger.arrived[k]? = some (c.queues.stateOut, tree.answer submission path) ∧
        s.ledger.arrived[root]? = some (c.queues.calendarIn, tree.rootContent)) := by
  have hd := h.disciplined hq
  refine ⟨fun w hw => (hd.honest w hw).holds, ?_, fun u hu => hd.acked_answered hu,
    hd.accounted.discarded, ?_⟩
  · intro n content hn
    obtain ⟨w, hw, hc, hlast⟩ := hd.accounted.roots n content hn
    exact (hd.honest w hw).answered hc hlast hn
  · intro n content submission hn hread
    rcases hd.in_broker_or_acked hn hread with hready | hunacked | ⟨u, hu, -, hqueue, hcontent⟩
    · exact Or.inl hready
    · exact Or.inr (Or.inl hunacked)
    · refine Or.inr (Or.inr ?_)
      obtain ⟨w, hw, hc, p, hp, -, hreadp⟩ := hd.acked_answered hu hqueue
      rw [hcontent, hread] at hreadp
      cases hreadp
      obtain ⟨i, hi⟩ := List.mem_iff_getElem?.1 hp
      have hs : w.submissions[i]? = some p.submission := by
        rw [Worker.submissions, List.getElem?_map, hi]
        rfl
      obtain ⟨id, f, beacon, tree, root, hbuild, -, -, harrived, hanswers⟩ :=
        (hd.honest w hw).exists_answers hc
      obtain ⟨path, k, hpath, -, hbefore, hanswer⟩ := hanswers i _ hs
      exact ⟨id, f, beacon, w.submissions, tree, path, i, k, root, hbuild, hs, hpath, hbefore,
        hanswer, harrived⟩

/-- A submission of twenty zero bytes, as it is sent. -/
def zeroSubmission : Content :=
  ⟨none, Text.encode ("\x7b\"hash_id\":\"a\",\"hash\":\"" ++
    "0000000000000000000000000000000000000000\"\x7d")⟩

/-- The tier connects, takes in a submission, and carries out a job over it. -/
def answerOne : List Station.Event :=
  [.attempt .nothing, .call (.inject "work.agg" zeroSubmission), .receive, .ingest 0,
    .tick {} .zero, .advance 0, .advance 0, .advance 0, .advance 0, .advance 0]

/-- A submission that was acknowledged after its answer and the root were enqueued. -/
theorem zero_submission_answered :
    ({} : Config).queues.stateOut ≠ ({} : Config).queues.calendarIn ∧
    Station.Reachable {} (.run {} answerOne) ∧
    (Station.run {} answerOne).ledger.acked.length = 1 ∧
    ∀ u ∈ (Station.run {} answerOne).ledger.acked, u.queue = ({} : Config).queues.aggregatorIn →
      ∃ w ∈ (Station.run {} answerOne).workers, w.Complete ∧
        ∃ p ∈ w.batch, p.handle.tag = u.tag ∧
          Submission.read u.message.content.payload = .ok p.submission := by
  have hreachable : Station.Reachable {} (.run {} answerOne) := by
    refine Station.reachable_run ?_
    simp only [answerOne, PermitsAll, Station.Permits, Broker.Policy.Allows,
      Station.others, true_and, and_true]
    decide
  have hq : ({} : Config).queues.stateOut ≠ ({} : Config).queues.calendarIn := by decide
  exact ⟨hq, hreachable, by decide +kernel,
    (submissions_answered_before_acknowledged {} hq hreachable).2.2.1⟩

end HashCalendar
