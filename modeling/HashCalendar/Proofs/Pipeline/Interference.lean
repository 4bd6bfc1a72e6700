/-
**When services get in each other's way.**

A configuration is accepted whatever names its queues have, as long as they have some.  But if both
services consume one queue, the second to come takes it from the first, whose stream then ends while
the connection lasts; and if a service consumes a queue that finished messages go to, it receives
what the services themselves have published, cannot read it, and discards it.  This happens in some
run of every such configuration and in no run of any other.

Main results:

* `HashCalendar.Tandem.exists_ended` — a service that has lost its queue to the other;
* `HashCalendar.Tandem.Anchored.exists_discarded` — an answer or a request that is discarded;
* `HashCalendar.tiers_keep_apart_iff` — **the services keep apart just if no queue that one of them
  consumes has another use**.
-/

import HashCalendar.Proofs.Pipeline.Answering

set_option relaxedAutoImplicit false
set_option autoImplicit false

namespace HashCalendar

/-- If a single message was acknowledged and none was discarded or taken, then the queue of another
message has a first one that is ready, and it is not the acknowledged one either. -/
theorem Tracked.Sound.exists_ready {t : Tracked} (h : t.Sound) (hunacked : t.broker.unacked = [])
    (hdiscarded : t.ledger.discarded = []) (htaken : t.ledger.taken = []) {u : Broker.Unacked}
    (hacked : t.ledger.acked = [u]) {serial : Nat} {queue : String} {content : Content}
    (harrived : t.ledger.arrived[serial]? = some (queue, content))
    (hserial : u.message.serial ≠ serial) :
    ∃ m rest, t.broker.ready queue = m :: rest ∧ u.message.serial ≠ m.serial := by
  have hplaces : ∀ n, t.places queue n =
      copies n (t.broker.ready queue) + copies n [u.message] := by
    intro n
    simp [places, hunacked, hdiscarded, htaken, hacked]
  have hone := h.one_place _ _ _ harrived
  have hzero : copies serial [u.message] = 0 := copies_eq_zero (by simpa using hserial)
  rw [hplaces, hzero] at hone
  cases hready : t.broker.ready queue with
  | nil =>
      rw [hready] at hone
      cases hone
  | cons m rest =>
      refine ⟨m, rest, rfl, fun heq => ?_⟩
      have hm : m ∈ t.broker.ready queue := by
        rw [hready]
        exact List.mem_cons_self
      have htwo := h.one_place _ _ _ (h.ready_own queue m hm)
      have hfirst := copies_pos hm rfl
      have hsecond := copies_pos (List.mem_singleton_self u.message) heq
      rw [hplaces] at htwo
      omega

namespace Tandem

variable {c : Config} {s s' : Tandem}

/-! ### What was published -/

/-- What the services have published has arrived. -/
theorem HasPublished.exists_arrived {serial : Nat} {queue : String}
    (h : HasPublished c s serial queue) :
    Reachable c s ∧ ∃ content, s.tracked.ledger.arrived[serial]? = some (queue, content) := by
  obtain ⟨s₀, e, hs₀, he, ⟨-, -, content, hcontent⟩, hreaches⟩ := h
  have hnext : Reachable c (s₀.act e) := hs₀.next he
  obtain ⟨-, calls, hcalls⟩ := exists_reaches_tracked hnext.isShared hreaches
  refine ⟨hnext.trans hreaches, content, ?_⟩
  rw [hcalls]
  exact (Ledger.Grows.performAll_any _ calls).arrived.getElem? hcontent

/-- What neither service consumes is not discarded. -/
theorem Reachable.serial_ne_of_discarded (h : Reachable c s) {serial : Nat} {queue : String}
    {content : Content} (harrived : s.tracked.ledger.arrived[serial]? = some (queue, content))
    (hqueue : ∀ tier, c.queues.consumedBy tier ≠ queue) {u : Broker.Unacked}
    (hu : u ∈ s.tracked.ledger.discarded) : u.message.serial ≠ serial := by
  intro hserial
  have hhanded := h.sound.mem_handed_of_discarded hu
  exact (h.untouched hqueue).handed u hhanded (h.sound.queue_of_serial harrived hhanded hserial)

/-! ### A queue that both services consume -/

/-- The aggregation tier connects undisturbed. -/
def firstConnected (c : Config) : Tandem :=
  (ofConfig c).setEnd .aggregation (.receiving, ((ofConfig c).line .aggregation).consuming)

/-- Both services connect undisturbed, the aggregation tier first. -/
def bothConnected (c : Config) : Tandem :=
  (firstConnected c).setEnd .calendar (.receiving, ((firstConnected c).line .calendar).consuming)

theorem steady_consuming (tier : Tier) (h : s.IsShared) :
    s.tracked.Steady (s.setEnd tier (.receiving, (s.line tier).consuming)).tracked := by
  rw [tracked_setEnd, ← h.line_tracked tier]
  exact (s.line tier).steady_consuming

theorem reachable_firstConnected (c : Config) : Reachable c (firstConnected c) :=
  reaches_consuming .aggregation (isShared_ofConfig c) rfl rfl

theorem steady_firstConnected (c : Config) :
    (ofConfig c).tracked.Steady (firstConnected c).tracked :=
  steady_consuming .aggregation (isShared_ofConfig c)

theorem reachable_bothConnected (c : Config) : Reachable c (bothConnected c) := by
  have hreachable : (firstConnected c).broker.reachable = true := by
    rw [broker, (steady_firstConnected c).reachable]
    rfl
  exact (reachable_firstConnected c).trans <|
    reaches_consuming .calendar (reachable_firstConnected c).isShared rfl hreachable

/-- Connecting leaves the connection as it is. -/
theorem bothConnected_generation (c : Config) : (bothConnected c).broker.generation = 0 := by
  have hsteady := (steady_firstConnected c).trans <|
    steady_consuming .calendar (reachable_firstConnected c).isShared
  rw [broker, bothConnected, hsteady.generation]
  rfl

/-- Each queue has the consumer that came last, and nothing waits in a stream. -/
theorem bothConnected_broker (c : Config) :
    (∀ name, ((bothConnected c).broker.consumer? name).map Broker.Consumer.stream =
      if name = c.queues.calendarIn then some 1
      else if name = c.queues.aggregatorIn then some 0 else none) ∧
    ∀ stream, (bothConnected c).broker.waiting stream = [] := by
  let l := (ofConfig c).line .aggregation
  let m := (firstConnected c).line .calendar
  obtain ⟨hready₁, hconsumer₁, hstreams₁, -⟩ := l.alike_shared
  obtain ⟨-, hconsumer₂, hstreams₂, -⟩ := m.alike_shared
  -- Nothing is ready, so connecting only registers the services.
  have hfirst : m.broker = l.shared.broker.register l.prepared c.queues.aggregatorIn :=
    Line.consuming_of_ready_nil rfl
  have hready : m.broker.ready c.queues.calendarIn = [] := by
    rw [hfirst, (Broker.quiet_register _ _ _).ready, hready₁]
    rfl
  have hboth : (bothConnected c).broker =
      m.shared.broker.register m.prepared c.queues.calendarIn :=
    Line.consuming_of_ready_nil hready
  rw [hfirst] at hconsumer₂ hstreams₂
  refine ⟨fun name => ?_, fun stream => ?_⟩
  · rw [hboth, Broker.consumer?_register, hconsumer₂, Broker.consumer?_register, hconsumer₁,
      hstreams₂, Broker.register, hstreams₁]
    by_cases hcalendar : name = c.queues.calendarIn
    · rw [if_pos hcalendar, if_pos hcalendar]
      rfl
    · rw [if_neg hcalendar, if_neg hcalendar]
      by_cases haggregator : name = c.queues.aggregatorIn
      · rw [if_pos haggregator, if_pos haggregator]
        rfl
      · rw [if_neg haggregator, if_neg haggregator]
        rfl
  · rw [hboth, Broker.waiting_register, Broker.waiting_of_streams hstreams₂,
      Broker.waiting_register, Broker.waiting, hstreams₁]
    rfl

/-- The second service that consumes a queue takes it from the first, whose stream ends while the
connection lasts. -/
theorem exists_ended (hqueues : c.queues.aggregatorIn = c.queues.calendarIn) :
    ∃ r, ((bothConnected c).line .aggregation).receiver = some r ∧
      ((bothConnected c).line .aggregation).hasEnded = true ∧
      r.generation = (bothConnected c).broker.generation := by
  have hreachable := reachable_bothConnected c
  obtain ⟨hconsumer, hwaiting⟩ := bothConnected_broker c
  have hfed : (bothConnected c).broker.isFed 0 = false := by
    rw [Bool.eq_false_iff, ne_eq, Broker.isFed_iff hreachable.namesDiffer]
    rintro ⟨name, consumer, hc, hstream⟩
    have hlast := hconsumer name
    rw [hc, hqueues, Option.map_some, hstream] at hlast
    by_cases hname : name = c.queues.calendarIn
    · simp [hname] at hlast
    · simp [hname] at hlast
  have hr : ((bothConnected c).line .aggregation).receiver = some ⟨0, 0⟩ := rfl
  refine ⟨⟨0, 0⟩, hr, ?_, (bothConnected_generation c).symm⟩
  have hclosed : ((bothConnected c).broker.receive 0).2 = .closed := by
    rcases (bothConnected c).broker.receive_waiting 0 with ⟨d, rest, -, hd, -⟩ | ⟨-, -, hnone⟩
    · cases (hwaiting 0).symm.trans hd
    · rw [hnone, hfed]
      rfl
  rw [Line.hasEnded, hr, hreachable.isShared.line_broker]
  exact decide_eq_true hclosed

/-! ### Messages that come back -/

/-- A tier discards what it cannot read. -/
theorem ingestCalls_of_answer (tier : Tier) (handle : Handle) (state : CalendarState) :
    ingestCalls tier handle ⟨some calendarKind, state.toJson.render⟩ = [.nack handle false] := by
  cases tier with
  | aggregation => rw [ingestCalls, Station.ingestCalls, state.read_submission]
  | calendar => rfl

theorem ingestCalls_of_request (tier : Tier) (handle : Handle) (request : AnchorRequest) :
    ingestCalls tier handle ⟨none, request.toJson.render⟩ = [.nack handle false] := by
  cases tier with
  | aggregation => rw [ingestCalls, Station.ingestCalls, request.read_submission]
  | calendar => rfl

/-- The connection may close, and then each tier can get away. -/
theorem Anchored.exists_closed (h : Anchored c s) (tier : Tier) :
    ∃ s' streams, Reaches Permits act s s' ∧ s'.contact tier = .away ∧ s'.inHand tier = [] ∧
      s'.tracked = s.tracked.close.setBroker { s.broker.close with streams } := by
  have hshared := h.reachable.isShared
  have hclose : Reaches Permits act s (s.act (.calendar (.call .closeNow))) :=
    Reaches.start.next (e := Event.calendar (.call .closeNow)) trivial
  have htracked : (s.act (.calendar (.call .closeNow))).tracked = s.tracked.close :=
    congrArg Tracked.close hshared
  cases tier with
  | aggregation =>
      exact ⟨_, s.broker.close.streams, hclose, h.away, h.inHand .aggregation, htracked⟩
  | calendar =>
      obtain ⟨r, hr, hgeneration⟩ := h.receiver
      have hreachable : Reachable c (s.act (.calendar (.call .closeNow))) :=
        h.reachable.trans hclose
      have hbroker : (s.act (.calendar (.call .closeNow))).broker = s.broker.close :=
        congrArg Tracked.broker htracked
      have hclosed : (s.act (.calendar (.call .closeNow))).broker.isOpen r.generation = false := by
        rw [hbroker, Broker.isOpen, Broker.close_generation, hgeneration]
        simp
      have hfed : (s.act (.calendar (.call .closeNow))).broker.isFed r.stream = false := by
        rw [Bool.eq_false_iff, ne_eq, Broker.isFed_iff hreachable.namesDiffer, hbroker]
        rintro ⟨name, consumer, hc, -⟩
        rw [Broker.consumer?_close] at hc
        cases hc
      obtain ⟨s', streams, hreaches, haway, hhand, hlast⟩ :=
        exists_away .calendar hreachable.isShared h.connected (h.inHand .calendar) hr hclosed hfed
      rw [hbroker, htracked] at hlast
      exact ⟨s', streams, hclose.trans hreaches, haway, hhand, hlast⟩

/-- A service that is away can get the first message of its queue, and discard it if it cannot read
it. -/
theorem exists_discarded_of_ready {tier : Tier} {m : Message} {rest : List Message}
    (h : s.IsShared) (haway : s.contact tier = .away) (hhand : s.inHand tier = [])
    (hreachable : s.broker.reachable = true) (hunacked : s.broker.unacked = [])
    (hready : s.broker.ready (s.line tier).link.settings.consumes = m :: rest)
    (hunread : ∀ handle, ingestCalls tier handle m.content = [.nack handle false]) :
    ∃ s', Reaches Permits act s s' ∧ ∃ u ∈ s'.tracked.ledger.discarded, u.message = m := by
  have hreaches := reaches_fetched tier h haway hhand hreachable
  obtain ⟨hshared, -, -, handle, u, hhand', -, hopen, hclaim, hm⟩ :=
    exists_fetched tier h hhand hreachable hunacked hready
  refine ⟨_, hreaches.next (permits_ingest _ tier), u, ?_, hm⟩
  have htracked : ((s.fetched tier).act (.at tier fun _ => .ingest)).tracked =
      (s.fetched tier).tracked.settleHandle handle .discarded := by
    rw [tracked_ingest tier hshared hhand', hunread]
    rfl
  rw [htracked, (Tracked.steady_settleHandle hopen hclaim .discarded).discarded]
  exact List.mem_append_right _ (List.mem_singleton_self u)

/-- The answer or the request has arrived after the root. -/
theorem Anchored.exists_arrived (h : Anchored c s) {queue : String}
    (hqueue : queue = c.queues.stateOut ∨ queue = c.queues.anchorOut) :
    ∃ serial content, serial ≠ 0 ∧ s.tracked.ledger.arrived[serial]? = some (queue, content) := by
  obtain ⟨root, state, request, u, hhealthy, -⟩ := h.healthy
  rw [hhealthy.arrived]
  rcases hqueue with rfl | rfl
  · exact ⟨1, _, by decide, rfl⟩
  · exact ⟨2, _, by decide, rfl⟩

/-- All that has arrived after the root was published by the services, and no tier can read it. -/
theorem Anchored.published_of_arrived (h : Anchored c s) {serial : Nat} {queue : String}
    {content : Content} (hserial : serial ≠ 0)
    (harrived : s.tracked.ledger.arrived[serial]? = some (queue, content)) :
    HasPublished c s serial queue ∧
      ∀ tier handle, ingestCalls tier handle content = [.nack handle false] := by
  obtain ⟨root, state, request, u, hhealthy, -⟩ := h.healthy
  obtain ⟨hanswer, hrequest⟩ := h.published
  rw [hhealthy.arrived] at harrived
  match serial with
  | 0 => exact absurd rfl hserial
  | 1 =>
      cases harrived
      exact ⟨hanswer, fun tier handle => ingestCalls_of_answer tier handle state⟩
  | 2 =>
      cases harrived
      exact ⟨hrequest, fun tier handle => ingestCalls_of_request tier handle request⟩
  | _ + 3 => cases harrived

/-- What the services have published to a queue that one of them consumes can come back to it, and
then it is discarded. -/
theorem Anchored.exists_discarded (h : Anchored c s) {tier : Tier}
    (htier : c.queues.consumedBy tier = c.queues.stateOut ∨
      c.queues.consumedBy tier = c.queues.anchorOut) :
    ∃ s' serial, HasPublished c s' serial (c.queues.consumedBy tier) ∧
      ∃ u ∈ s'.tracked.ledger.discarded, u.message.serial = serial := by
  obtain ⟨root, state, request, u, hhealthy, hroot⟩ := h.healthy
  obtain ⟨s', streams, hreaches, haway, hhand, htracked⟩ := h.exists_closed tier
  have hs' : Reachable c s' := h.reachable.trans hreaches
  have harrived : s'.tracked.ledger.arrived = s.tracked.ledger.arrived :=
    congrArg (·.ledger.arrived) htracked
  have hunacked : s'.broker.unacked = [] :=
    (congrArg (·.broker.unacked) htracked).trans s.broker.close_unacked
  have hreachable : s'.broker.reachable = true :=
    (congrArg (·.broker.reachable) htracked).trans <|
      s.broker.close_reachable.trans hhealthy.reachable
  -- What was published to the queue may wait behind the root, which was acknowledged, or behind
  -- something else that was published.
  obtain ⟨serial, content, hserial, hcontent⟩ := h.exists_arrived htier
  obtain ⟨m, rest, hready, hm⟩ := hs'.sound.exists_ready hunacked
    ((congrArg (·.ledger.discarded) htracked).trans hhealthy.discarded)
    ((congrArg (·.ledger.taken) htracked).trans hhealthy.taken)
    ((congrArg (·.ledger.acked) htracked).trans hhealthy.acked) (harrived ▸ hcontent)
    (hroot ▸ hserial.symm)
  have hown := hs'.sound.ready_own _ m (hready ▸ List.mem_cons_self)
  rw [harrived] at hown
  obtain ⟨hpublished, hunread⟩ := h.published_of_arrived (hroot ▸ hm.symm) hown
  rw [← hs'.settings tier] at hready
  obtain ⟨s'', hreaches', u', hu', hmessage⟩ :=
    exists_discarded_of_ready hs'.isShared haway hhand hreachable hunacked hready (hunread tier)
  exact ⟨s'', m.serial, hpublished.reaches (hreaches.trans hreaches'), u', hu', hmessage ▸ rfl⟩

end Tandem

/-- **The services keep apart just if no queue that one of them consumes has another use**: the
stream of a service ends only with its connection if the other one does not consume its queue, and
what they publish as finished is never discarded if neither of them consumes it. -/
theorem tiers_keep_apart_iff {c : Config} (hc : c.validate = .ok ()) :
    ((∀ s, Tandem.Reachable c s → ∀ tier r, (s.line tier).receiver = some r →
        (s.line tier).hasEnded = true → r.generation < s.broker.generation) ↔
      c.queues.aggregatorIn ≠ c.queues.calendarIn) ∧
    ((∀ s serial queue, Tandem.HasPublished c s serial queue →
        queue = c.queues.stateOut ∨ queue = c.queues.anchorOut →
        ∀ u ∈ s.tracked.ledger.discarded, u.message.serial ≠ serial) ↔
      ∀ tier, c.queues.consumedBy tier ≠ c.queues.stateOut ∧
        c.queues.consumedBy tier ≠ c.queues.anchorOut) := by
  refine ⟨⟨?_, ?_⟩, ?_, ?_⟩
  · intro h hqueues
    obtain ⟨r, hr, hended, hgeneration⟩ := Tandem.exists_ended hqueues
    exact absurd hgeneration
      (Nat.ne_of_lt (h _ (Tandem.reachable_bothConnected c) .aggregation r hr hended))
  · intro hqueues s hs tier r hr hended
    have hlasts := hs.lasts hqueues tier r hr
    rw [Line.hasEnded, hr] at hended
    have hlt := hlasts.of_closed (of_decide_eq_true hended)
    rwa [hs.isShared.line_tracked] at hlt
  · intro h tier
    by_contra hclash
    rw [not_and_or, not_not, not_not] at hclash
    obtain ⟨s, hanchored⟩ := Tandem.exists_anchored hc largestRoot (by decide)
    obtain ⟨s', serial, hpublished, u, hu, hserial⟩ := hanchored.exists_discarded hclash
    exact h s' serial _ hpublished hclash u hu hserial
  · intro hqueues s serial queue hpublished hqueue u hu
    obtain ⟨hs, content, harrived⟩ := hpublished.exists_arrived
    refine hs.serial_ne_of_discarded harrived (fun tier => ?_) hu
    rcases hqueue with rfl | rfl
    · exact (hqueues tier).1
    · exact (hqueues tier).2

/-- With the queues as they are by default the services keep apart. -/
theorem default_tiers_keep_apart :
    ({} : Config).validate = .ok () ∧
      (∀ s, Tandem.Reachable {} s → ∀ tier r, (s.line tier).receiver = some r →
        (s.line tier).hasEnded = true → r.generation < s.broker.generation) ∧
      ∀ s serial queue, Tandem.HasPublished {} s serial queue →
        queue = "work.state" ∨ queue = "work.btctx" →
        ∀ u ∈ s.tracked.ledger.discarded, u.message.serial ≠ serial := by
  have hc : ({} : Config).validate = .ok () := by decide
  obtain ⟨hended, hdiscarded⟩ := tiers_keep_apart_iff hc
  refine ⟨hc, hended.2 (by decide), hdiscarded.2 ?_⟩
  rintro (_ | _)
  · exact ⟨by decide, by decide⟩
  · exact ⟨by decide, by decide⟩

/-- Both services consume one queue. -/
def oneInput : Config := { queues := { calendarIn := "work.agg" } }

/-- The calendar tier consumes the queue that answers go to. -/
def answersBack : Config := { queues := { stateOut := "work.cal" } }

/-- Queues with two uses are accepted: then a stream ends while the connection lasts, and an answer
is discarded. -/
theorem accepted_queues_interfere :
    (oneInput.validate = .ok () ∧ Tandem.Reachable oneInput (Tandem.bothConnected oneInput) ∧
      ∃ r, ((Tandem.bothConnected oneInput).line .aggregation).receiver = some r ∧
        ((Tandem.bothConnected oneInput).line .aggregation).hasEnded = true ∧
        r.generation = (Tandem.bothConnected oneInput).broker.generation) ∧
    (answersBack.validate = .ok () ∧
      ∃ s serial, Tandem.HasPublished answersBack s serial answersBack.queues.stateOut ∧
        ∃ u ∈ s.tracked.ledger.discarded, u.message.serial = serial) := by
  have hanswers : answersBack.validate = .ok () := by decide
  obtain ⟨s, hs⟩ := Tandem.exists_anchored hanswers largestRoot (by decide)
  have hback : answersBack.queues.consumedBy .calendar = answersBack.queues.stateOut := rfl
  exact ⟨⟨by decide, Tandem.reachable_bothConnected _, Tandem.exists_ended rfl⟩,
    hanswers, hs.exists_discarded (.inl hback)⟩

end HashCalendar
