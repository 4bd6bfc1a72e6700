/-
**Whether the outcome of a job is true.**

The outcome of a job says how many of its deliveries were acknowledged, and that the messages of all
others have come back to their queues.  A job takes a delivery that it cannot settle for lost: its
connection must have closed, so that the broker delivers the message again.  But a broker that is
out of reach for a while refuses the call just as well, and its connection lasts.  Then the delivery
stays unacknowledged under its old tag, and nobody is going to settle it any more.

Nothing else can make an outcome false, whatever is called between the calls of the job.

Main definitions:

* `HashCalendar.Job.Turn`, `HashCalendar.Job.Underway`, `HashCalendar.Job.proceed` — a job that is
  carried out while others call the broker.

Main results:

* `HashCalendar.Job.Underway.Accounted.turn` — **every turn keeps account of the deliveries**;
* `HashCalendar.outcomes_hold_iff` — **an outcome is true unless the job called a broker that was
  out of reach**;
* `HashCalendar.rejected_deliveries_stay_unacked` — deliveries that count as rejected and did not
  come back.
-/

import HashCalendar.Proofs.Batch.Accounts

set_option relaxedAutoImplicit false
set_option autoImplicit false

namespace HashCalendar

/-! ### A job among other calls -/

/-- The number of deliveries that were acknowledged so far. -/
def Progress.acknowledged : Progress → Nat
  | .acking _ count => count
  | .settled outcome => outcome.acknowledged
  | _ => 0

namespace Job

/-- What may happen next while a job is carried out. -/
inductive Turn where
  /-- Somebody else calls the broker. -/
  | other (c : Broker.Call)
  /-- The job makes its next call. -/
  | own
  deriving DecidableEq, Repr

/-- A job under way at its broker. -/
structure Underway where
  tracked : Tracked
  progress : Progress
  /-- The deliveries that the job could not settle since the broker was out of reach, although their
  connection was there. -/
  missed : List Handle := []

/-- A job at its start. -/
def underway (job : Job) (t : Tracked) : Underway := { tracked := t, progress := job.start }

/-- The delivery that the next call settles. -/
def settles? (job : Job) (s : Underway) : Option Handle :=
  (s.progress.call? job.channel).bind Broker.Call.settles?

/-- A job under way after a turn. -/
def turn (job : Job) (s : Underway) : Turn → Underway
  | .other c => { s with tracked := s.tracked.perform c }
  | .own =>
    { tracked := s.tracked.performAll (s.progress.call? job.channel).toList
      progress := s.progress.next job.channel job.handles s.tracked.broker
      missed :=
        match job.settles? s with
        | none => s.missed
        | some h => s.tracked.broker.note s.missed h }

/-- A job under way after several turns. -/
def proceed (job : Job) (t : Tracked) (turns : List Turn) : Underway :=
  turns.foldl job.turn (job.underway t)

/-- Somebody else settles none of the deliveries. -/
def Turn.Spares (handles : List Handle) : Turn → Prop
  | .other c => ∀ h ∈ c.settles?, h ∉ handles
  | .own => True

/-- What is known of the deliveries of a job under way. -/
structure Underway.Accounted (job : Job) (us : List Broker.Unacked) (s : Underway) : Prop where
  accounts : s.tracked.Accounts us (s.progress.outstanding job.handles ++ s.missed)
    s.progress.acknowledged
  complete : ∀ outcome, s.progress = .settled outcome →
    outcome.acknowledged + outcome.returned = us.length

namespace Underway.Accounted

variable {job : Job} {us : List Broker.Unacked} {s : Underway}

/-- A call of somebody else that settles none of the deliveries leaves them as they are. -/
theorem other (ha : s.Accounted job us) (hus : us.map Broker.Unacked.handle = job.handles)
    {c : Broker.Call} (hc : (Turn.other c).Spares job.handles) :
    (job.turn s (.other c)).Accounted job us := by
  have hallows := Broker.Policy.settling_allows (p := (· ∉ job.handles)) hc s.tracked.broker
  have hmoves := Tracked.moves_perform (Broker.Policy.free_allows hallows)
  refine ⟨ha.accounts.spared hmoves ?_, ha.complete⟩
  intro u hu _ hsettle
  exact hsettle (hus ▸ List.mem_map_of_mem hu)

/-- So does the next call of the job, or it settles the next of them. -/
theorem own (ha : s.Accounted job us) (hus : us.map Broker.Unacked.handle = job.handles) :
    (job.turn s .own).Accounted job us := by
  obtain ⟨t, p, missed⟩ := s
  have hlength : us.length = job.handles.length := by rw [← hus, List.length_map]
  have haccounts : t.Accounts us (p.outstanding job.handles ++ missed) p.acknowledged := ha.accounts
  cases p with
  | publishing left =>
      cases left with
      | nil => exact ⟨haccounts, fun _ => Progress.noConfusion⟩
      | cons m ms =>
          have hmoves : Tracked.Moves Broker.Policy.bring.free t (t.publish job.channel m) :=
            Tracked.moves_publish trivial
          have hafter : (t.publish job.channel m).Accounts us (job.handles ++ missed) 0 :=
            haccounts.spared hmoves fun _ _ _ => id
          rw [turn]
          dsimp only [Progress.next]
          cases (t.broker.publish job.channel m).2 with
          | ok u => exact ⟨hafter, fun _ => Progress.noConfusion⟩
          | error e => exact ⟨hafter, fun _ => Progress.noConfusion⟩
  | acking left count =>
      cases left with
      | nil =>
          rw [turn]
          dsimp only [Progress.next]
          have hle : us.countP (· ∈ t.ledger.acked) ≤ us.length := List.countP_le_length
          rw [haccounts.acked] at hle
          change count ≤ us.length at hle
          by_cases hall : count = job.handles.length
          · rw [if_pos hall]
            refine ⟨haccounts, ?_⟩
            rintro _ ⟨⟩
            exact hall.trans hlength.symm
          · rw [if_neg hall]
            refine ⟨haccounts, ?_⟩
            rintro _ ⟨⟩
            change count + (job.handles.length - count) = us.length
            omega
      | cons h hs =>
          have hafter := haccounts.settleNext (show Fate.acked ≠ .discarded by decide)
          rw [turn]
          dsimp only [Progress.next]
          by_cases ho : t.broker.isOpen h.generation = true
          · have hok : (t.broker.ack h).2 = .ok () := (haccounts.canSettle ho).1.ack
            rw [hok]
            rw [if_pos (And.intro ho rfl)] at hafter
            exact ⟨hafter, fun _ => Progress.noConfusion⟩
          · rw [Broker.ack_of_not_isOpen ho]
            rw [if_neg (mt And.left ho)] at hafter
            exact ⟨hafter, fun _ => Progress.noConfusion⟩
  | returning left =>
      cases left with
      | nil =>
          refine ⟨haccounts, ?_⟩
          rintro _ ⟨⟩
          exact (Nat.zero_add _).trans hlength.symm
      | cons h hs =>
          have hafter := haccounts.settleNext (show Fate.returned ≠ .discarded by decide)
          rw [if_neg (mt And.right (by decide))] at hafter
          exact ⟨hafter, fun _ => Progress.noConfusion⟩
  | settled outcome => exact ha

/-- Every turn keeps account of the deliveries. -/
theorem turn (ha : s.Accounted job us) (hus : us.map Broker.Unacked.handle = job.handles)
    {e : Turn} (he : e.Spares job.handles) : (job.turn s e).Accounted job us := by
  cases e with
  | other c => exact ha.other hus he
  | own => exact ha.own hus

/-- So do several turns. -/
theorem foldl (ha : s.Accounted job us) (hus : us.map Broker.Unacked.handle = job.handles)
    {turns : List Turn} (hturns : ∀ e ∈ turns, e.Spares job.handles) :
    (turns.foldl job.turn s).Accounted job us := by
  induction turns generalizing s with
  | nil => exact ha
  | cons e es ih =>
      exact ih (ha.turn hus (hturns e List.mem_cons_self))
        fun e' he' => hturns e' (List.mem_cons_of_mem e he')

/-- At the start of a job nothing is settled. -/
theorem start {t : Tracked} (hlatest : t.Latest) (hdated : t.Dated)
    (hus : us.map Broker.Unacked.handle = job.handles) (hnodup : job.handles.Nodup)
    (hunsettled : ∀ u ∈ us, t.Unsettled u) : (job.underway t).Accounted job us := by
  obtain ⟨houtstanding, hzero, hgoing⟩ : job.start.outstanding job.handles = job.handles ∧
      job.start.acknowledged = 0 ∧ ∀ outcome, job.start ≠ .settled outcome := by
    rw [Job.start]
    cases job.messages? with
    | some messages => exact ⟨rfl, rfl, fun _ => Progress.noConfusion⟩
    | none => exact ⟨rfl, rfl, fun _ => Progress.noConfusion⟩
  constructor
  case accounts =>
    rw [underway, houtstanding, hzero, List.append_nil]
    constructor
    case latest => exact hlatest
    case dated => exact hdated
    case nodup => exact List.Nodup.of_map _ (hus ▸ hnodup)
    case handed =>
      intro u hu
      rcases hunsettled u hu with hu | hu
      · exact hlatest.sound.mem_handed_of_unacked hu
      · exact hlatest.sound.mem_handed_of_lost hu
    case undiscarded =>
      exact fun u hu => (hlatest.sound.not_mem_of_unsettled (hunsettled u hu)).2
    case distinct => exact hnodup
    case unsettled =>
      intro h hh
      rw [← hus] at hh
      obtain ⟨u, hu, heq⟩ := List.mem_map.1 hh
      exact ⟨u, hu, heq, hunsettled u hu⟩
    case unacked => exact fun u hu _ => hus ▸ List.mem_map_of_mem hu
    case acked =>
      rw [List.countP_eq_zero]
      intro u hu
      simpa using (hlatest.sound.not_mem_of_unsettled (hunsettled u hu)).1
  case complete => exact fun outcome hdone => absurd hdone (hgoing outcome)

/-- An outcome is true exactly if no delivery was missed, or the connection closed since. -/
theorem holds_iff (ha : s.Accounted job us)
    (hreceived : ∀ u ∈ us, u.generation = job.channel.generation) {outcome : Outcome}
    (hdone : s.progress = .settled outcome) :
    outcome.Holds s.tracked us ↔
      s.missed = [] ∨ job.channel.generation < s.tracked.broker.generation := by
  have haccounts := ha.accounts
  rw [hdone] at haccounts
  change s.tracked.Accounts us s.missed outcome.acknowledged at haccounts
  constructor
  · intro hholds
    cases hmissed : s.missed with
    | nil => exact Or.inl rfl
    | cons h hs =>
        obtain ⟨u, hu, -, hunsettled⟩ := haccounts.unsettled h (hmissed ▸ List.mem_cons_self)
        have hlost := hunsettled.resolve_left (hholds.not_mem_unacked hu)
        exact Or.inr (hreceived u hu ▸ haccounts.dated.lost u hlost)
  · intro hnone
    refine haccounts.holds ?_ rfl (ha.complete outcome hdone)
    intro u hu hunacked
    rcases hnone with hnil | hlt
    · have hmem := haccounts.unacked u hu hunacked
      rw [hnil] at hmem
      cases hmem
    · rw [← hreceived u hu, haccounts.dated.current.unacked u hunacked] at hlt
      exact Nat.lt_irrefl _ hlt

end Underway.Accounted

/-! ### A job that is carried out in one go -/

/-- The calls of a job in a row carry it out. -/
theorem leads_work (job : Job) (b : Broker) :
    Progress.Leads job.channel job.handles (b, job.start)
      ((job.work b).1, .settled (job.work b).2) := by
  rw [start]
  cases h : job.messages? with
  | some messages =>
      rw [work_of_messages? h]
      exact Progress.leads_publishAndSettle b messages
  | none =>
      rw [work_of_messages?_none h]
      exact Progress.leads_giveBackAll b job.handles

/-- Turns of the job alone are its calls in a row. -/
theorem foldl_replicate_own (job : Job) (s : Underway) (n : Nat) :
    (((List.replicate n Turn.own).foldl job.turn s).tracked.broker,
        ((List.replicate n Turn.own).foldl job.turn s).progress) =
      (Progress.advance job.channel job.handles)^[n] (s.tracked.broker, s.progress) := by
  induction n generalizing s with
  | zero => rfl
  | succ n ih =>
      rw [List.replicate_succ, List.foldl_cons, ih, Function.iterate_succ_apply]
      congr 1
      rw [turn, Progress.advance, Tracked.performAll_broker]

/-- A job does not put its broker out of reach. -/
theorem reachable_own {job : Job} {s : Underway} (hr : s.tracked.broker.reachable = true) :
    (job.turn s .own).tracked.broker.reachable = true := by
  rw [turn]
  rcases s.progress.settle_cases job.channel job.handles s.tracked with
    ⟨hpublish, -⟩ | ⟨h, rest, fate, -, -, hsettle⟩
  · let r : Broker.Rules := { Broker.Policy.bring.free with vanish := fun _ => False }
    have hmoves : Tracked.Moves r s.tracked
        (s.tracked.performAll (s.progress.call? job.channel).toList) := by
      refine Tracked.moves_performAll fun c hc b => ?_
      obtain ⟨m, rfl⟩ := hpublish c hc
      exact trivial
    exact hmoves.keep (fun hm => hm.reachable fun _ => id) hr
  · dsimp only
    rw [hsettle, (s.tracked.sameConnection_settleHandle h fate).reachable]
    exact hr

/-- While the broker is out of reach a job changes nothing. -/
theorem tracked_own_of_unreachable {job : Job} {s : Underway}
    (hr : s.tracked.broker.reachable = false) : (job.turn s .own).tracked = s.tracked := by
  have hclosed : ∀ generation, s.tracked.broker.isOpen generation = false := fun generation => by
    rw [Broker.isOpen, hr, Bool.false_and]
  rw [turn]
  dsimp only
  rcases s.progress.settle_cases job.channel job.handles s.tracked with
    ⟨hpublish, -⟩ | ⟨h, rest, fate, -, -, hsettle⟩
  · cases hc : s.progress.call? job.channel with
    | none => rfl
    | some c =>
        obtain ⟨m, rfl⟩ := hpublish c (by rw [hc]; exact List.mem_singleton_self c)
        exact (Tracked.publish_of_closed (hclosed _)).1
  · rw [hsettle, Tracked.settleHandle_of_closed (hclosed _)]

/-- While the broker is within reach a job misses no delivery. -/
theorem missed_own_of_reachable {job : Job} {s : Underway}
    (hr : s.tracked.broker.reachable = true) : (job.turn s .own).missed = s.missed := by
  rw [turn]
  dsimp only
  cases job.settles? s with
  | none => rfl
  | some h => exact Broker.note_of_reachable hr _ h

/-- A job that is carried out in one go misses no delivery if the broker is within reach, and else
it changes nothing. -/
theorem foldl_own (job : Job) (s : Underway) (n : Nat) :
    if s.tracked.broker.reachable then
      ((List.replicate n Turn.own).foldl job.turn s).missed = s.missed
    else ((List.replicate n Turn.own).foldl job.turn s).tracked = s.tracked := by
  by_cases hr : s.tracked.broker.reachable = true
  · rw [if_pos hr]
    induction n generalizing s with
    | zero => rfl
    | succ n ih =>
        rw [List.replicate_succ, List.foldl_cons, ih _ (reachable_own hr),
          missed_own_of_reachable hr]
  · rw [if_neg hr]
    induction n generalizing s with
    | zero => rfl
    | succ n ih =>
        have hsame : (job.turn s .own).tracked = s.tracked :=
          tracked_own_of_unreachable (Bool.eq_false_iff.2 hr)
        rw [List.replicate_succ, List.foldl_cons, ih _ (by rwa [hsame]), hsame]

/-- No turn goes back to an earlier connection. -/
theorem generation_le_foldl (job : Job) (s : Underway) (turns : List Turn) :
    s.tracked.broker.generation ≤ (turns.foldl job.turn s).tracked.broker.generation := by
  induction turns generalizing s with
  | nil => exact Nat.le_refl _
  | cons e es ih =>
      refine Nat.le_trans ?_ (ih _)
      cases e with
      | other c => exact s.tracked.generation_le_performAll [c]
      | own => exact s.tracked.generation_le_performAll _

/-- After a job was carried out in one go its outcome is true exactly if it had no deliveries, or
the broker was within reach, or the connection was gone. -/
theorem Underway.Accounted.holds_iff_of_own {job : Job} {us : List Broker.Unacked}
    {t : Tracked} {s : Underway} (hend : s.Accounted job us)
    (hstart : (job.underway t).Accounted job us)
    (hus : us.map Broker.Unacked.handle = job.handles)
    (hreceived : ∀ u ∈ us, u.generation = job.channel.generation ∧ t.Unsettled u)
    {outcome : Outcome} (hdone : s.progress = .settled outcome)
    (hown : if t.broker.reachable then s.missed = [] else s.tracked = t)
    (hle : t.broker.generation ≤ s.tracked.broker.generation) :
    outcome.Holds s.tracked us ↔
      job.handles = [] ∨ t.broker.reachable = true ∨
        job.channel.generation ≠ t.broker.generation := by
  have hdated : t.Dated := hstart.accounts.dated
  have hgeneration : ∀ u ∈ us, u.generation = job.channel.generation := fun u hu =>
    (hreceived u hu).1
  have hlost : ∀ u ∈ us, job.channel.generation ≠ t.broker.generation → u ∈ t.ledger.lost :=
    fun u hu hne => (hreceived u hu).2.resolve_left fun hunacked =>
      hne ((hgeneration u hu).symm.trans (hdated.current.unacked u hunacked))
  constructor
  · intro hholds
    by_contra hnot
    obtain ⟨hne, hunreachable, hsame⟩ : job.handles ≠ [] ∧ ¬ t.broker.reachable = true ∧
        job.channel.generation = t.broker.generation := by
      push Not at hnot
      exact hnot
    rw [if_neg hunreachable] at hown
    obtain ⟨u, hu⟩ := List.exists_mem_of_ne_nil us fun hnil => hne (by rw [← hus, hnil]; rfl)
    -- A delivery that is unacknowledged before is so after.
    have hunacked : u ∈ t.broker.unacked := by
      refine (hreceived u hu).2.resolve_right fun hgone => ?_
      have hlt := hdated.lost u hgone
      rw [hgeneration u hu, hsame] at hlt
      exact Nat.lt_irrefl _ hlt
    exact hholds.not_mem_unacked hu (hown ▸ hunacked)
  · intro hcases
    rw [hend.holds_iff hgeneration hdone]
    by_cases hnil : us = []
    · left
      refine List.eq_nil_iff_forall_not_mem.2 fun h hh => ?_
      obtain ⟨u, hu, -⟩ := hend.accounts.unsettled h (List.mem_append_right _ hh)
      rw [hnil] at hu
      cases hu
    · obtain ⟨u, hu⟩ := List.exists_mem_of_ne_nil us hnil
      rcases hcases with hempty | hreachable | hne
      · rw [← hus, List.map_eq_nil_iff] at hempty
        exact absurd hempty hnil
      · rw [if_pos hreachable] at hown
        exact Or.inl hown
      · have hlt := hdated.lost u (hlost u hu hne)
        rw [hgeneration u hu] at hlt
        exact Or.inr (Nat.lt_of_lt_of_le hlt hle)

end Job

/-- **Outcomes are true unless the broker was out of reach.**  After any calls to a new broker, let
a job have distinct deliveries that were received on the connection of its channel and that nobody
has settled; their connection may have closed since.

* However others call the broker between the calls of the job, as long as they settle none of its
  deliveries: once the job has its outcome, what it says is true if and only if the job never tried
  to settle a delivery while the broker was out of reach and the connection still there, or the
  connection has closed since then.
* When the job is carried out in one go, what its outcome says is true if and only if it has no
  deliveries, or the broker is within reach, or the connection of its channel is gone. -/
theorem outcomes_hold_iff (calls : List Broker.Call) (job : Job) {us : List Broker.Unacked}
    (hus : us.map Broker.Unacked.handle = job.handles) (hnodup : job.handles.Nodup)
    (hreceived : ∀ u ∈ us, u.generation = job.channel.generation ∧
      (trackedRun calls).Unsettled u) :
    let t := trackedRun calls
    (∀ turns outcome, (∀ e ∈ turns, e.Spares job.handles) →
      (job.proceed t turns).progress = .settled outcome →
      (outcome.Holds (job.proceed t turns).tracked us ↔
        (job.proceed t turns).missed = [] ∨
          job.channel.generation < (job.proceed t turns).tracked.broker.generation)) ∧
    ∃ n, let s := job.proceed t (List.replicate n .own)
      s.tracked.broker = (job.work t.broker).1 ∧
      s.progress = .settled (job.work t.broker).2 ∧
      ((job.work t.broker).2.Holds s.tracked us ↔
        job.handles = [] ∨ t.broker.reachable = true ∨
          job.channel.generation ≠ t.broker.generation) := by
  intro t
  have hdated := dated_trackedRun calls
  have hstart : (job.underway t).Accounted job us :=
    .start (latest_trackedRun calls) hdated hus hnodup fun u hu => (hreceived u hu).2
  have hgeneration : ∀ u ∈ us, u.generation = job.channel.generation := fun u hu =>
    (hreceived u hu).1
  constructor
  · intro turns outcome hspare hdone
    exact (hstart.foldl hus hspare).holds_iff hgeneration hdone
  · obtain ⟨n, hn⟩ := job.leads_work t.broker
    have hown := job.foldl_replicate_own (job.underway t) n
    have hall := job.foldl_own (job.underway t) n
    have hend : (job.proceed t (List.replicate n .own)).Accounted job us := by
      refine hstart.foldl hus fun e he => ?_
      rw [List.eq_of_mem_replicate he]
      exact trivial
    rw [show ((job.underway t).tracked.broker, (job.underway t).progress) =
      (t.broker, job.start) from rfl, hn] at hown
    obtain ⟨hbroker, hdone⟩ := Prod.ext_iff.1 hown
    refine ⟨n, hbroker, hdone, ?_⟩
    exact hend.holds_iff_of_own hstart hus hreceived hdone hall
      (job.generation_le_foldl (job.underway t) (List.replicate n .own))

/-! ### Two runs -/

/-- Two messages are unacknowledged. -/
def twoReceived : List Broker.Call :=
  [.declareQueue ⟨0, 0⟩ "out", .inject "q" ⟨none, []⟩, .inject "q" ⟨none, []⟩, .consume ⟨0, 0⟩ "q"]

/-- Both answers are published.  The broker is out of reach when the first delivery is acknowledged,
and within reach again at the second. -/
def outOfReachAtFirst : List Job.Turn :=
  [.own, .own, .own, .other (.setReachable false), .own, .other (.setReachable true), .own, .own]

/-- The first delivery was missed: the outcome is not true, and it gets true when the connection
closes. -/
theorem outcome_true_after_close :
    let t := trackedRun twoReceived
    let us := t.broker.unacked
    let later := outOfReachAtFirst ++ [.other .closeNow]
    (Job.proceed (.finalize twoAnswers) t outOfReachAtFirst).progress =
      .settled (.abandoned 1 1) ∧
    ¬ (Outcome.abandoned 1 1).Holds
      (Job.proceed (.finalize twoAnswers) t outOfReachAtFirst).tracked us ∧
    (Outcome.abandoned 1 1).Holds (Job.proceed (.finalize twoAnswers) t later).tracked us := by
  have hreceived : ∀ u ∈ (trackedRun twoReceived).broker.unacked, u.generation = 0 := by decide
  have hturns := (@outcomes_hold_iff twoReceived (.finalize twoAnswers)
    (trackedRun twoReceived).broker.unacked (by decide) (by decide)
    fun u hu => ⟨hreceived u hu, Or.inl hu⟩).1
  have hspare : ∀ e ∈ outOfReachAtFirst ++ [.other .closeNow],
      e.Spares (Job.handles (.finalize twoAnswers)) := by
    simp [outOfReachAtFirst, Job.Turn.Spares, Broker.Call.settles?]
  refine ⟨by decide, ?_, ?_⟩
  · rw [hturns outOfReachAtFirst _ (fun e he => hspare e (List.mem_append_left _ he)) (by decide)]
    decide
  · rw [hturns _ _ hspare (by decide)]
    decide

/-- The broker is out of reach when the job is carried out: both deliveries count as rejected, and
both stay unacknowledged under their tags, also when the broker is within reach again. -/
theorem rejected_deliveries_stay_unacked :
    let b := (trackedRun (twoReceived ++ [.setReachable false])).broker
    let b' := (Job.work b (.finalize twoAnswers)).1.setReachable true
    (Job.work b (.finalize twoAnswers)).2 = .rejected 2 ∧
    b.unacked.map Broker.Unacked.handle = twoAnswers.handles ∧
    b'.unacked = b.unacked ∧
    b'.ready "q" = [] := by
  decide

end HashCalendar
