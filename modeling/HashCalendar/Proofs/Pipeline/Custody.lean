/-
**Who holds a delivery.**

A component that alone consumes its queue holds its deliveries in several places.  They wait in the
stream of its receiver, then the component has them itself, and then they are in one of its tasks,
which publish and settle batches of them.  No delivery is held twice, and as long as it is
unacknowledged it is held.  What the component has itself arrived on the connection of the channel
that is shared, and what a task has arrived on the connection of the channel of the task.

This is kept by whatever the component and the others do, and nothing in it depends on which of the
two tiers the component is.

Main definitions:

* `HashCalendar.Task` — a batch that is published and settled;
* `HashCalendar.Line.undelivered` — what waits to be received;
* `HashCalendar.Line.Custody` — the deliveries of a component are where they should be.

Main results:

* `HashCalendar.Line.Custody.performAll`, `HashCalendar.Line.Custody.connect`,
  `HashCalendar.Line.Custody.receive`, `HashCalendar.Line.Custody.settle`,
  `HashCalendar.Line.Custody.assign`, `HashCalendar.Line.Custody.advance`,
  `HashCalendar.Line.Custody.hangUp` — **everything that happens keeps it**;
* `HashCalendar.Line.Custody.nodup_all`, `HashCalendar.Line.Custody.mem_all` — nothing is held
  twice, and what is unacknowledged is held.
-/

import HashCalendar.Proofs.Batch.Effects
import HashCalendar.Proofs.Broker.Connecting
import HashCalendar.Proofs.Broker.Holding

set_option relaxedAutoImplicit false
set_option autoImplicit false

namespace HashCalendar

namespace Broker

/-- A call that prepares a channel is within all rules. -/
theorem Call.Prepares.within {c : Call} (h : c.Prepares) (r : Rules) (b : Broker) :
    r.Allows b c := by
  cases c with
  | setReachable reachable => exact Or.inl h
  | closeNow => exact trivial
  | declareQueue ch queue => exact trivial
  | _ => exact h.elim

end Broker

/-! ### Tasks -/

/-- A batch that is published and settled. -/
structure Task where
  channel : Channel
  handles : List Handle
  progress : Progress

namespace Task

/-- The deliveries that a task has not settled yet. -/
def outstanding (w : Task) : List Handle := w.progress.outstanding w.handles

/-- The next call of a task, if there is one. -/
def calls (w : Task) : List Broker.Call := (w.progress.call? w.channel).toList

/-- A task after its next call, which is made to a given broker. -/
def advance (w : Task) (b : Broker) : Task :=
  { w with progress := w.progress.next w.channel w.handles b }

/-- The next call of a task publishes, if there is one, and then no delivery is settled; or it
settles the first of them. -/
theorem outstanding_cases (w : Task) (t : Tracked) :
    ((∀ c ∈ w.calls, ∃ m, c = .publish w.channel m) ∧
        (w.advance t.broker).outstanding = w.outstanding) ∨
      ∃ handle fate, w.outstanding = handle :: (w.advance t.broker).outstanding ∧
        t.performAll w.calls = t.settleHandle handle fate := by
  rcases w.progress.settle_cases w.channel w.handles t with
    hpublishes | ⟨handle, rest, fate, hbefore, hafter, hsettles⟩
  · exact Or.inl hpublishes
  · exact Or.inr ⟨handle, fate, hbefore.trans (congrArg _ hafter.symm), hsettles⟩

/-- All tasks have the channels and the batches that they had before one of them went on. -/
theorem exists_of_mem_set {tasks : List Task} {number : Nat} {w : Task} {b : Broker}
    (hw : tasks[number]? = some w) :
    ∀ v ∈ tasks.set number (w.advance b),
      ∃ v' ∈ tasks, v'.channel = v.channel ∧ v'.handles = v.handles := by
  intro v hv
  rcases List.mem_or_eq_of_mem_set hv with hv | rfl
  · exact ⟨v, hv, rfl, rfl⟩
  · exact ⟨w, List.mem_of_getElem? hw, rfl, rfl⟩

end Task

namespace Line

/-! ### Deliveries that are held -/

/-- What waits to be received. -/
def undelivered (l : Line) : List Handle :=
  match l.receiver with
  | none => []
  | some r => (l.broker.waiting r.stream).map r.handle

/-- The broker feeds a component that holds deliveries, none of them twice. -/
def Holds (l : Line) (held : List Handle) : Prop :=
  l.Feeds (held.map Handle.tag) ∧ (held.map Handle.tag).Nodup

namespace Holds

variable {l : Line} {held held' : List Handle}

theorem perm (h : l.Holds held) (hp : held.Perm held') : l.Holds held' := by
  have htags := hp.map Handle.tag
  exact ⟨h.1.subset htags.symm.subset, htags.nodup_iff.1 h.2⟩

theorem sublist (h : l.Holds held) (hs : held'.Sublist held) : l.Holds held' :=
  ⟨h.1.subset (hs.map Handle.tag).subset, h.2.sublist (hs.map Handle.tag)⟩

theorem performAll (h : l.Holds held) (calls : List Broker.Call) :
    (l.performAll calls).Holds held :=
  ⟨h.1.performAll calls, h.2⟩

/-- What is received was not held before. -/
theorem receive (h : l.Holds held) {r : Receiver} {d : Delivery} (hr : l.receiver = some r)
    (hd : (l.broker.receive r.stream).2 = .delivery d) :
    (l.perform (.receive r.stream)).Holds (r.handle d :: held) := by
  refine ⟨(h.1.receive hr hd).1, List.nodup_cons.2 ⟨?_, h.2⟩⟩
  intro hmem
  obtain ⟨rest, hw, -⟩ := Broker.waiting_of_receive hd
  have hwaits : d ∈ l.broker.waiting r.stream := hw ▸ List.mem_cons_self
  exact Nat.lt_irrefl _ ((h.1.serves r hr).after _ hmem d hwaits)

/-- What waits to be received is not held yet. -/
theorem nodup_all (h : l.Holds held) : (l.undelivered ++ held).Nodup := by
  refine List.Nodup.of_map Handle.tag ?_
  rw [List.map_append, undelivered]
  cases hr : l.receiver with
  | none => exact h.2
  | some r =>
      have hserves := h.1.serves r hr
      have htags : ((l.broker.waiting r.stream).map r.handle).map Handle.tag =
          (l.broker.waiting r.stream).map Delivery.tag := by
        rw [List.map_map]
        rfl
      rw [htags]
      refine List.nodup_append'.2 ⟨?_, h.2, ?_⟩
      · exact List.pairwise_map.2 (hserves.sorted.imp fun hlt => Nat.ne_of_lt hlt)
      · intro tag hwaits hheld
        obtain ⟨d, hd, rfl⟩ := List.mem_map.1 hwaits
        exact Nat.lt_irrefl _ (hserves.after _ hheld d hd)

end Holds

/-! ### Custody -/

/-- All that a component holds after it was received. -/
def held (near : List Handle) (tasks : List Task) : List Handle :=
  near ++ tasks.flatMap Task.outstanding

/-- A component that does not receive has nothing itself, nobody consumes its queue, and its tasks
are those of connections that are closed. -/
structure Away (k : Contact) (l : Line) (near : List Handle) (tasks : List Task) : Prop where
  contact : k ≠ .receiving
  receiver : l.receiver = none
  shared : ∀ ch, k = .sharing ch → l.link.channel = some ch
  near : near = []
  idle : l.tracked.Idle l.link.settings.consumes
  closed : ∀ w ∈ tasks, w.channel.generation < l.broker.generation

/-- A component that receives shares a channel of the same connection, on which arrived all that it
has itself; its tasks have this channel or that of an earlier connection. -/
structure Joined (k : Contact) (l : Line) (near : List Handle) (tasks : List Task) (r : Receiver)
    (ch : Channel) : Prop where
  contact : k = .receiving
  receiver : l.receiver = some r
  channel : l.link.channel = some ch
  generation : ch.generation = r.generation
  bound : ∀ h ∈ near, h.generation = ch.generation
  earlier : ∀ w ∈ tasks, w.channel = ch ∨ w.channel.generation < ch.generation
  covered : l.tracked.Covered l.link.settings.consumes r (held near tasks)

/-- The deliveries of a component are where they should be. -/
structure Custody (k : Contact) (l : Line) (near : List Handle) (tasks : List Task) : Prop where
  holds : l.Holds (held near tasks)
  bound : ∀ w ∈ tasks, ∀ h ∈ w.handles, h.generation = w.channel.generation
  place : l.Away k near tasks ∨ ∃ r ch, l.Joined k near tasks r ch

namespace Custody

variable {k : Contact} {l : Line} {near near' : List Handle} {tasks : List Task}

/-- At the start there are no deliveries. -/
theorem start (link : Link) : ({ link } : Line).Custody .away [] [] where
  holds := ⟨.empty _, List.nodup_nil⟩
  bound := by simp
  place := Or.inl
    { contact := Contact.noConfusion
      receiver := rfl
      shared := fun _ hk => Contact.noConfusion hk
      near := rfl
      idle := Tracked.idle_empty _
      closed := by simp }

/-- The moves of others keep the component where it is. -/
theorem moves (h : l.Custody k near tasks) {t : Tracked}
    (hm : Tracked.Moves (.alone l.link.settings.consumes l.receiver) l.tracked t)
    (hholds : ({ l with tracked := t } : Line).Holds (held near tasks)) :
    ({ l with tracked := t } : Line).Custody k near tasks := by
  refine ⟨hholds, h.bound, ?_⟩
  rcases h.place with ha | ⟨r, ch, hj⟩
  · obtain ⟨hidle, hle⟩ := ha.idle.moves hm
    exact Or.inl { ha with
      idle := hidle
      closed := fun w hw => Nat.lt_of_lt_of_le (ha.closed w hw) hle }
  · rw [hj.receiver] at hm
    have hfeeds := h.holds.1
    rw [Feeds, hj.receiver] at hfeeds
    exact Or.inr ⟨r, ch, { hj with covered := hj.covered.moves hm hfeeds }⟩

/-- Calls that others may make keep the component where it is. -/
theorem perform (h : l.Custody k near tasks) {c : Broker.Call}
    (hc : (Broker.Rules.alone l.link.settings.consumes l.receiver).Allows l.broker c) :
    (l.perform c).Custody k near tasks :=
  h.moves (Tracked.moves_perform hc) (h.holds.performAll [c])

theorem performAll (h : l.Custody k near tasks) {calls : List Broker.Call}
    (hc : ∀ c ∈ calls, ∀ b, (Broker.Rules.alone l.link.settings.consumes l.receiver).Allows b c) :
    (l.performAll calls).Custody k near tasks := by
  induction calls generalizing l with
  | nil => exact h
  | cons c cs ih =>
      exact ih (h.perform (hc c List.mem_cons_self _)) fun d hd => hc d (List.mem_cons_of_mem c hd)

/-- A step of connecting: once the component consumes, the new connection is later than those of all
its tasks. -/
theorem connect (h : l.Custody k near tasks) (hk : k ≠ .receiving) :
    (l.connect k).2.Custody (l.connect k).1 near tasks := by
  obtain ha := h.place.resolve_right fun ⟨r, ch, hj⟩ => hk hj.contact
  rcases l.connect_cases hk with ⟨calls, link, hcalls, hsettings, haway, hshared, heq⟩ |
    ⟨ch, rfl, ho, heq⟩
  · have hprepared : (l.performAll calls).Custody k near tasks :=
      h.performAll fun c hc b => (hcalls c hc).within _ b
    have ha' := hprepared.place.resolve_right fun ⟨r, ch, hj⟩ => hk hj.contact
    rw [heq]
    refine ⟨?_, h.bound, Or.inl { ha' with contact := haway, shared := hshared, idle := ?_ }⟩
    · rw [Holds, Feeds, hsettings]
      exact hprepared.holds
    · rw [hsettings]
      exact ha'.idle
  · rw [heq]
    obtain rfl := ha.near
    have hregistered := Tracked.Feeding.register h.holds.1 ch
    have hattached : Tracked.Attached l.link.settings.consumes _ (held [] tasks) _ :=
      .register ha.idle ho
    have hcovered := Tracked.Covered.moves (Tracked.moves_dispatch _ l.link.settings.consumes)
      hregistered (Or.inl hattached)
    rw [Broker.isOpen, Bool.and_eq_true, decide_eq_true_eq] at ho
    refine ⟨⟨hregistered.dispatch _, h.holds.2⟩, h.bound,
      Or.inr ⟨⟨ch.generation, l.broker.streams.length⟩, ch, ?_⟩⟩
    exact
      { contact := rfl
        receiver := rfl
        channel := ha.shared ch rfl
        generation := rfl
        bound := by simp
        earlier := fun w hw => Or.inr (ho.2 ▸ ha.closed w hw)
        covered := hcovered }

/-- What is received the component has itself. -/
theorem receive (h : l.Custody k near tasks) :
    l.receive.1.Custody k (near ++ (l.receive.2.map Prod.fst).toList) tasks := by
  rcases l.receive_cases with ⟨r, d, hr, hd, heq⟩ | heq
  · rcases h.place with ha | ⟨r', ch, hj⟩
    · rw [ha.receiver] at hr
      cases hr
    · obtain rfl : r = r' := Option.some.inj (hr.symm.trans hj.receiver)
      have hperm : (r.handle d :: held near tasks).Perm (held (near ++ [r.handle d]) tasks) := by
        rw [held, held, List.append_assoc, List.singleton_append]
        exact List.perm_middle.symm
      have hcovered := (hj.covered.receive hd).subset hperm.subset
      have hbound : ∀ g ∈ near ++ [r.handle d], g.generation = ch.generation := by
        intro g hg
        rcases List.mem_append.1 hg with hg | hg
        · exact hj.bound g hg
        · rw [List.mem_singleton.1 hg, hj.generation]
          rfl
      rw [heq]
      exact ⟨(h.holds.receive hr hd).perm hperm, h.bound,
        Or.inr ⟨r, ch, { hj with bound := hbound, covered := hcovered }⟩⟩
  · rw [heq]
    simpa using h

theorem covered (h : l.Custody k near tasks) {r : Receiver} (hr : l.receiver = some r) :
    l.tracked.Covered l.link.settings.consumes r (held near tasks) := by
  rcases h.place with ha | ⟨r', ch, hj⟩
  · rw [ha.receiver] at hr
    cases hr
  · obtain rfl : r' = r := Option.some.inj (hj.receiver.symm.trans hr)
    exact hj.covered

/-- What is held may be held elsewhere, as long as neither the component itself nor a task gets
anything new. -/
theorem rearrange (h : l.Custody k near tasks) {tasks' : List Task}
    (hnear : near' ⊆ near)
    (htasks : ∀ v ∈ tasks', ∃ w ∈ tasks, w.channel = v.channel ∧ w.handles = v.handles)
    (hholds : l.Holds (held near' tasks'))
    (hcovered : ∀ r, l.receiver = some r →
      l.tracked.Covered l.link.settings.consumes r (held near' tasks')) :
    l.Custody k near' tasks' := by
  refine ⟨hholds, ?_, ?_⟩
  · intro v hv
    obtain ⟨w, hw, hchannel, hhandles⟩ := htasks v hv
    rw [← hchannel, ← hhandles]
    exact h.bound w hw
  · rcases h.place with ha | ⟨r, ch, hj⟩
    · refine Or.inl { ha with near := List.subset_nil.1 (ha.near ▸ hnear), closed := ?_ }
      intro v hv
      obtain ⟨w, hw, hchannel, -⟩ := htasks v hv
      exact hchannel ▸ ha.closed w hw
    · refine Or.inr ⟨r, ch, { hj with
        bound := fun g hg => hj.bound g (hnear hg)
        earlier := ?_
        covered := hcovered r hj.receiver }⟩
      intro v hv
      obtain ⟨w, hw, hchannel, -⟩ := htasks v hv
      exact hchannel ▸ hj.earlier w hw

/-- What the component has itself may be put in another order. -/
theorem perm (h : l.Custody k near tasks) (hp : near.Perm near') : l.Custody k near' tasks := by
  have hheld : (held near tasks).Perm (held near' tasks) := hp.append_right _
  exact h.rearrange hp.symm.subset (fun w hw => ⟨w, hw, rfl, rfl⟩) (h.holds.perm hheld)
    fun r hr => (h.covered hr).subset hheld.subset

/-- A delivery that is settled need not be held any more. -/
theorem drop (h : l.Custody k near tasks) {tasks' : List Task} {handle : Handle}
    (hp : (held near tasks).Perm (handle :: held near' tasks')) (hnear : near' ⊆ near)
    (htasks : ∀ v ∈ tasks', ∃ w ∈ tasks, w.channel = v.channel ∧ w.handles = v.handles)
    {calls : List Broker.Call} {fate : Fate}
    (hc : l.tracked.performAll calls = l.tracked.settleHandle handle fate) :
    (l.performAll calls).Custody k near' tasks' := by
  have hline : l.performAll calls = { l with tracked := l.tracked.settleHandle handle fate } := by
    rw [Line.performAll, hc]
  have hholds := (h.holds.perm hp).performAll calls
  have hmoved : (l.performAll calls).Custody k near tasks := by
    rw [hline]
    refine h.moves (Tracked.moves_settleHandle fun _ _ => trivial) (hline ▸ ?_)
    exact h.holds.performAll calls
  refine hmoved.rearrange hnear htasks (hholds.sublist (List.sublist_cons_self _ _)) fun r hr => ?_
  have hfeeds := (h.holds.perm hp).1
  rw [Feeds, show l.receiver = some r from hr] at hfeeds
  have hcovered := Tracked.Covered.settleHandle hfeeds ((h.covered hr).subset hp.subset) fate
  rw [← hc] at hcovered
  exact hcovered

/-- The component settles a delivery that it has itself. -/
theorem settle (h : l.Custody k near tasks) {handle : Handle} (hp : near.Perm (handle :: near'))
    {calls : List Broker.Call} {fate : Fate}
    (hc : l.tracked.performAll calls = l.tracked.settleHandle handle fate) :
    (l.performAll calls).Custody k near' tasks :=
  h.drop (hp.append_right _) (fun _ hg => hp.symm.subset (List.mem_cons_of_mem handle hg))
    (fun w hw => ⟨w, hw, rfl, rfl⟩) hc

/-- New tasks over what the component has itself, on the channel that is shared. -/
theorem assign (h : l.Custody .receiving near tasks) {jobs : List Task}
    (hp : near.Perm (near' ++ jobs.flatMap Task.handles))
    (hjobs : ∀ w ∈ jobs, l.link.channel = some w.channel ∧ w.outstanding = w.handles) :
    l.Custody .receiving near' (tasks ++ jobs) := by
  obtain ⟨r, ch, hj⟩ := h.place.resolve_left fun ha => ha.contact rfl
  have hflat : jobs.flatMap Task.outstanding = jobs.flatMap Task.handles :=
    List.flatMap_congr fun w hw => (hjobs w hw).2
  have hheld : (held near tasks).Perm (held near' (tasks ++ jobs)) := by
    rw [held, held, List.flatMap_append, hflat]
    refine (hp.append_right _).trans ?_
    rw [List.append_assoc]
    exact List.perm_append_comm.append_left near'
  have hchannel : ∀ w ∈ jobs, w.channel = ch := fun w hw =>
    Option.some.inj ((hjobs w hw).1.symm.trans hj.channel)
  have hbound : ∀ w ∈ jobs, ∀ g ∈ w.handles, g.generation = w.channel.generation := by
    intro w hw g hg
    rw [hchannel w hw]
    exact hj.bound g (hp.symm.subset (List.mem_append_right _ (List.mem_flatMap.2 ⟨w, hw, hg⟩)))
  refine ⟨h.holds.perm hheld, ?_, Or.inr ⟨r, ch, { hj with
    bound := fun g hg => hj.bound g (hp.symm.subset (List.mem_append_left _ hg))
    earlier := ?_
    covered := hj.covered.subset hheld.subset }⟩⟩
  · intro w hw
    rcases List.mem_append.1 hw with hw | hw
    · exact h.bound w hw
    · exact hbound w hw
  · intro w hw
    rcases List.mem_append.1 hw with hw | hw
    · exact hj.earlier w hw
    · exact Or.inl (hchannel w hw)

/-- A task makes its next call. -/
theorem advance (h : l.Custody k near tasks) {number : Nat} {w : Task}
    (hw : tasks[number]? = some w) :
    (l.performAll w.calls).Custody k near (tasks.set number (w.advance l.broker)) := by
  have htasks := Task.exists_of_mem_set (b := l.broker) hw
  rcases w.outstanding_cases l.tracked with ⟨hpublishes, hsame⟩ | ⟨handle, fate, hrest, hsettles⟩
  · have hstep : ((w.advance l.broker).outstanding ++ []).Perm (w.outstanding ++ []) := by
      rw [broker, hsame]
    have hall := perm_flatMap_set (f := Task.outstanding) hw hstep
    rw [List.append_nil, List.append_nil] at hall
    have hheld : (held near tasks).Perm (held near (tasks.set number (w.advance l.broker))) :=
      hall.symm.append_left near
    have hpublished : (l.performAll w.calls).Custody k near tasks := by
      refine h.performAll fun c hc b => ?_
      obtain ⟨m, rfl⟩ := hpublishes c hc
      exact trivial
    exact hpublished.rearrange (List.Subset.refl _) htasks (hpublished.holds.perm hheld)
      fun r hr => (hpublished.covered hr).subset hheld.subset
  · have hstep : ((w.advance l.broker).outstanding ++ [handle]).Perm (w.outstanding ++ []) := by
      rw [hrest, List.append_nil]
      exact List.perm_append_comm
    have hall := perm_flatMap_set (f := Task.outstanding) hw hstep
    rw [List.append_nil] at hall
    have hheld : (held near tasks).Perm
        (handle :: held near (tasks.set number (w.advance l.broker))) :=
      ((hall.symm.trans List.perm_append_comm).append_left near).trans List.perm_middle
    exact h.drop hheld (List.Subset.refl _) htasks hsettles

/-- When everything has been received of a connection that is closed, the component may forget what
it has itself. -/
theorem hangUp (h : l.Custody .receiving near tasks) {r : Receiver} (hr : l.receiver = some r)
    (hd : (l.broker.receive r.stream).2 = .closed) : l.hangUp.Custody .away [] tasks := by
  obtain ⟨r', ch, hj⟩ := h.place.resolve_left fun ha => ha.contact rfl
  obtain rfl : r' = r := Option.some.inj (hj.receiver.symm.trans hr)
  obtain ⟨hidle, hlt⟩ := hj.covered.idle_of_closed hd
  have hhung : l.hangUp = ⟨l.tracked.perform (.dropStream r'.stream), l.link.close, none⟩ := by
    rw [Line.hangUp, hr]
    rfl
  have hmoves : Tracked.Moves (.alone l.link.settings.consumes none) l.tracked
      (l.tracked.perform (.dropStream r'.stream)) := Tracked.moves_perform (by rintro _ ⟨⟩)
  obtain ⟨hidle', hle⟩ := hidle.moves hmoves
  have hholds : l.Holds (held [] tasks) := h.holds.sublist (List.sublist_append_right _ _)
  rw [hhung]
  refine ⟨⟨(hholds.1.perform (.dropStream r'.stream)).forget, hholds.2⟩, h.bound, Or.inl ?_⟩
  constructor
  case contact => exact Contact.noConfusion
  case receiver => rfl
  case shared => exact fun _ hk => Contact.noConfusion hk
  case near => rfl
  case idle => exact hidle'
  case closed =>
    intro w hw
    have hgeneration : w.channel.generation ≤ r'.generation := by
      rcases hj.earlier w hw with heq | hearlier
      · exact Nat.le_of_eq (heq ▸ hj.generation)
      · exact hj.generation ▸ Nat.le_of_lt hearlier
    exact Nat.lt_of_lt_of_le (Nat.lt_of_le_of_lt hgeneration hlt) hle

/-- Nothing is held twice. -/
theorem nodup_all (h : l.Custody k near tasks) : (l.undelivered ++ held near tasks).Nodup :=
  h.holds.nodup_all

/-- Every unacknowledged delivery of the queue is held. -/
theorem mem_all (h : l.Custody k near tasks) {u : Broker.Unacked} (hu : u ∈ l.broker.unacked)
    (hqueue : u.queue = l.link.settings.consumes) :
    u.handle ∈ l.undelivered ++ held near tasks := by
  rcases h.place with ha | ⟨r, ch, hj⟩
  · exact absurd hqueue (ha.idle.unacked u hu)
  · rw [undelivered, hj.receiver]
    rcases hj.covered with hattached | ⟨hidle, -⟩
    · exact (hattached.unacked u hu hqueue).2
    · exact absurd hqueue (hidle.unacked u hu)

end Custody

end Line

end HashCalendar
