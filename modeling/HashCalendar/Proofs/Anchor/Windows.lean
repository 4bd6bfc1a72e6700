/-
**Every block is anchored once.**

Blocks come to the scheduler one by one, and at each tick it asks for all that it has to be
anchored, through whatever channel there is at the time: none, one whose connection is gone, or one
that works.  If the request is taken, its window is done with, even if the connection closes in the
same call; if not, the window stays as it was.  So the windows of the published requests, one after
the other, and then the present window are the blocks in the order in which they came.

Main definitions:

* `HashCalendar.Anchorage` — a scheduler at its broker, with all that came in and went out;
* `HashCalendar.Anchorage.Event`, `HashCalendar.Anchorage.act` — what may happen, and what comes of
  it;
* `HashCalendar.Anchorage.Orderly` — the invariant.

Main results:

* `HashCalendar.Scheduler.tick_cases` — **all that a tick can do**;
* `HashCalendar.Anchorage.Reachable.orderly` — every run keeps the invariant;
* `HashCalendar.blocks_anchored_in_order` — **every block is anchored once, in order**.
-/

import HashCalendar.Anchor.Scheduler
import HashCalendar.Proofs.Broker.Growth
import HashCalendar.Proofs.Merkle.Completeness
import HashCalendar.Proofs.Runs

set_option relaxedAutoImplicit false
set_option autoImplicit false

namespace HashCalendar

/-! ### Ticks -/

namespace Scheduler

/-- A request as it is sent. -/
def outbound (s : Scheduler) (request : AnchorRequest) : Outbound :=
  ⟨s.queue, none, request.toJson.render⟩

/-- A request commits to a window of blocks: it carries the root of the tree over their roots, and
their number. -/
structure Commits (f : HashFunction) (request : AnchorRequest) (blocks : List Block) : Prop where
  blocks_ne : blocks ≠ []
  blockCount : request.blockCount = blocks.length
  root : ∃ tree, Merkle.Tree.build f (blocks.map Block.calRoot) = .ok tree ∧
    request.anchorRoot = tree.root

/-- There is a request for every window with a block in it. -/
theorem exists_request (s : Scheduler) (id : Uuid) {blocks : List Block} (h : blocks ≠ []) :
    ∃ request, s.request id blocks = .ok request ∧
      Commits s.config.function request blocks := by
  have hne : blocks.map Block.calRoot ≠ [] := by simpa using h
  obtain ⟨tree, hbuild, -, -⟩ := Merkle.Tree.build_eq_ok s.config.function hne
  refine ⟨⟨id, tree.root, blocks.length⟩, ?_, ⟨h, rfl, tree, hbuild, rfl⟩⟩
  rw [request, hbuild]
  rfl

/-- Publishing a window publishes its request. -/
theorem publishWindow_of_request (b : Broker) {s : Scheduler} {id : Uuid} {blocks : List Block}
    {request : AnchorRequest} (h : s.request id blocks = .ok request) (ch : Channel) :
    s.publishWindow b (some ch) id blocks =
      match b.publish ch (s.outbound request) with
      | (b, .ok ()) => (b, .ok request)
      | (b, .error e) => (b, .error (.broker e)) := by
  rw [publishWindow, h]
  rfl

/-- The calls of a tick to the broker. -/
def calls (s : Scheduler) (channel : Option Channel) (id : Uuid) : List Broker.Call :=
  match channel with
  | none => []
  | some ch =>
    match s.request id s.window.items with
    | .ok request => [.publish ch (s.outbound request)]
    | .error _ => []

/-- At an empty window a tick does nothing. -/
theorem tick_of_items_eq_nil (b : Broker) {s : Scheduler} (h : s.window.items = [])
    (channel : Option Channel) (id : Uuid) :
    s.calls channel id = [] ∧ s.tick b channel id = (b, s, none) := by
  constructor
  · cases channel with
    | none => rfl
    | some ch =>
        rw [calls, h]
        rfl
  · rw [tick, Buffer.isEmpty, h]
    rfl

/-- A tick with blocks in the window publishes it, or else puts it back as it was. -/
theorem tick_of_items_ne_nil (b : Broker) {s : Scheduler} (h : s.window.items ≠ [])
    (channel : Option Channel) (id : Uuid) :
    s.tick b channel id =
      match s.publishWindow b channel id s.window.items with
      | (b, .ok request) => (b, { s with window := {} }, some (.published request))
      | (b, .error _) => (b, s, some (.deferred s.window.items.length)) := by
  have hne : ¬ s.window.isEmpty = true := by
    rw [Buffer.isEmpty, List.isEmpty_iff]
    exact h
  have hrestored : ({ s with window := (⟨[]⟩ : Buffer Block).restore s.window.items } : Scheduler)
      = s := by
    simp [Buffer.restore]
  rw [tick, if_neg hne, Buffer.spliceAll]
  dsimp only
  cases s.publishWindow b channel id s.window.items with
  | mk b' result =>
      cases result with
      | ok request => rfl
      | error e =>
          exact congrArg (fun s' => (b', s', some (AnchorOutcome.deferred s.window.items.length)))
            hrestored

/-- All that a tick can do: there is nothing to anchor, the request for the window is taken, or the
window stays as it was. -/
theorem tick_cases (b : Broker) (s : Scheduler) (channel : Option Channel) (id : Uuid) :
    (s.window.items = [] ∧ s.calls channel id = [] ∧ s.tick b channel id = (b, s, none)) ∨
      (∃ ch request, channel = some ch ∧ Commits s.config.function request s.window.items ∧
        s.calls channel id = [.publish ch (s.outbound request)] ∧
        (b.publish ch (s.outbound request)).2 = .ok () ∧
        s.tick b channel id =
          ((b.publish ch (s.outbound request)).1, { s with window := {} },
            some (.published request))) ∨
      (s.window.items ≠ [] ∧
        (s.calls channel id = [] ∨ ∃ ch request e, channel = some ch ∧
          s.calls channel id = [.publish ch (s.outbound request)] ∧
          (b.publish ch (s.outbound request)).2 = .error e) ∧
        s.tick b channel id =
          (b.performAll (s.calls channel id), s, some (.deferred s.window.items.length))) := by
  by_cases hempty : s.window.items = []
  · exact Or.inl ⟨hempty, tick_of_items_eq_nil b hempty channel id⟩
  · rw [tick_of_items_ne_nil b hempty]
    cases channel with
    | none => exact Or.inr (Or.inr ⟨hempty, Or.inl rfl, rfl⟩)
    | some ch =>
        obtain ⟨request, hrequest, hcommits⟩ := s.exists_request id hempty
        have hcalls : s.calls (some ch) id = [.publish ch (s.outbound request)] := by
          rw [calls, hrequest]
        rw [hcalls, publishWindow_of_request b hrequest, Broker.performAll_cons,
          Broker.performAll_nil, Broker.perform]
        cases hp : b.publish ch (s.outbound request) with
        | mk b' result =>
            cases result with
            | ok u =>
                exact Or.inr (Or.inl ⟨ch, request, rfl, hcommits, rfl, by rw [hp], by rw [hp]⟩)
            | error e =>
                exact Or.inr (Or.inr
                  ⟨hempty, Or.inr ⟨ch, request, e, rfl, rfl, by rw [hp]⟩, rfl⟩)

/-- A tick does to the broker what its calls do. -/
theorem tick_broker (b : Broker) (s : Scheduler) (channel : Option Channel) (id : Uuid) :
    (s.tick b channel id).1 = b.performAll (s.calls channel id) := by
  rcases s.tick_cases b channel id with ⟨-, hcalls, h⟩ | ⟨ch, request, -, -, hcalls, -, h⟩ |
    ⟨-, -, h⟩
  · rw [h, hcalls]
    rfl
  · rw [h, hcalls]
    rfl
  · rw [h]

end Scheduler

/-! ### Runs -/

/-- A scheduler at its broker, with all that came in and went out. -/
structure Anchorage where
  tracked : Tracked := {}
  scheduler : Scheduler
  /-- All blocks that were recorded, in their order. -/
  recorded : List Block := []
  /-- The requests that were published, in their order, each with its window. -/
  requests : List (AnchorRequest × List Block) := []

namespace Anchorage

/-- A scheduler at a new broker, without any block. -/
def ofConfig (config : Config.Anchoring) (queue : String) : Anchorage where
  scheduler := { config, queue }

/-- The broker of the scheduler. -/
def broker (s : Anchorage) : Broker := s.tracked.broker

/-- What the broker did to each message. -/
def ledger (s : Anchorage) : Ledger := s.tracked.ledger

/-- What may happen. -/
inductive Event where
  /-- Somebody else calls the broker. -/
  | call (c : Broker.Call)
  /-- A block comes in. -/
  | record (block : Block)
  /-- The scheduler works at a tick, with the channel that is shared at the time. -/
  | tick (channel : Option Channel) (id : Uuid)

/-- The request that a tick published, with its window. -/
def requested (window : List Block) : Option AnchorOutcome → List (AnchorRequest × List Block)
  | some (.published request) => [(request, window)]
  | _ => []

/-- What comes of an event. -/
def act (s : Anchorage) : Event → Anchorage
  | .call c => { s with tracked := s.tracked.perform c }
  | .record block =>
    { s with scheduler := s.scheduler.record block, recorded := s.recorded ++ [block] }
  | .tick channel id =>
    let (_, scheduler, outcome) := s.scheduler.tick s.broker channel id
    { s with
      tracked := s.tracked.performAll (s.scheduler.calls channel id)
      scheduler
      requests := s.requests ++ requested s.scheduler.window.items outcome }

/-- What others may do: they put nothing where the requests go. -/
def others (queue : String) : Broker.Policy where
  arrive name _ := name ≠ queue
  settle _ _ := True
  take _ := True

/-- Whether an event may happen; the scheduler itself may do everything it can. -/
def Permits (queue : String) (s : Anchorage) : Event → Prop
  | .call c => (others queue).Allows s.broker c
  | _ => True

/-- The states that a run may get to. -/
def Reachable (config : Config.Anchoring) (queue : String) : Anchorage → Prop :=
  Reaches (Permits queue) act (ofConfig config queue)

/-- A tick does to the broker what the scheduler does. -/
theorem act_tick_broker (s : Anchorage) (channel : Option Channel) (id : Uuid) :
    (s.act (.tick channel id)).broker = (s.scheduler.tick s.broker channel id).1 := by
  rw [Scheduler.tick_broker]
  exact Tracked.performAll_broker _ _

/-! ### The invariant -/

/-- The messages that were put into a queue. -/
def sentTo (l : Ledger) (queue : String) : List (String × Content) :=
  l.arrived.filter fun a => a.1 = queue

theorem sentTo_eq_of_grows {l l' : Ledger} {queue : String} (h : l.Grows (others queue) l') :
    sentTo l' queue = sentTo l queue := by
  obtain ⟨more, hmore, hother⟩ := h.arrived
  have hnone : more.filter (fun a => a.1 = queue) = [] := by
    refine List.filter_eq_nil_iff.2 ?_
    intro a ha
    have hne : a.1 ≠ queue := hother a ha
    simpa using hne
  rw [sentTo, hmore, List.filter_append, hnone, List.append_nil, sentTo]

/-- What is true of a scheduler in every run. -/
structure Orderly (config : Config.Anchoring) (queue : String) (s : Anchorage) : Prop where
  config_eq : s.scheduler.config = config
  queue_eq : s.scheduler.queue = queue
  /-- The windows of the requests and the present window are the blocks as they came. -/
  windows : s.requests.flatMap Prod.snd ++ s.scheduler.window.items = s.recorded
  commits : ∀ p ∈ s.requests, Scheduler.Commits config.function p.1 p.2
  /-- These requests were enqueued, one message each, and nothing else. -/
  sent : sentTo s.ledger queue =
    s.requests.map fun p => (queue, ⟨none, p.1.toJson.render⟩)

namespace Orderly

variable {config : Config.Anchoring} {queue : String} {s : Anchorage}

theorem start (config : Config.Anchoring) (queue : String) :
    Orderly config queue (.ofConfig config queue) where
  config_eq := rfl
  queue_eq := rfl
  windows := rfl
  commits := by simp [ofConfig]
  sent := rfl

/-- What others do to the broker keeps the invariant. -/
theorem others (h : Orderly config queue s) {t : Tracked}
    (hg : s.ledger.Grows (Anchorage.others queue) t.ledger) :
    Orderly config queue { s with tracked := t } :=
  { h with sent := (sentTo_eq_of_grows hg).trans h.sent }

theorem record (h : Orderly config queue s) (block : Block) :
    Orderly config queue (s.act (.record block)) :=
  { h with
    windows := by
      rw [act, Scheduler.record, Buffer.push, ← h.windows]
      exact (List.append_assoc _ _ _).symm }

theorem tick (h : Orderly config queue s) (channel : Option Channel) (id : Uuid) :
    Orderly config queue (s.act (.tick channel id)) := by
  rw [act]
  rcases s.scheduler.tick_cases s.broker channel id with
    ⟨-, hcalls, htick⟩ | ⟨ch, request, -, hcommits, hcalls, hok, htick⟩ | ⟨-, hfailed, htick⟩
  · rw [htick, hcalls]
    exact { h with windows := by simpa [requested] using h.windows
                   commits := by simpa [requested] using h.commits
                   sent := by simpa [requested] using h.sent }
  · rw [htick, hcalls]
    -- The request was confirmed, so its message was enqueued.
    have harrived : (s.tracked.publish ch (s.scheduler.outbound request)).ledger.arrived =
        s.ledger.arrived ++ [(queue, ⟨none, request.toJson.render⟩)] := by
      rcases s.tracked.publish_cases ch (s.scheduler.outbound request) with ⟨-, h'⟩ | ⟨e, he, -⟩
      · rw [h', Scheduler.outbound, h.queue_eq]
        rfl
      · exact absurd (hok.symm.trans he) (by simp)
    constructor
    case config_eq => exact h.config_eq
    case queue_eq => exact h.queue_eq
    case windows =>
      simp only [requested, List.flatMap_append, List.flatMap_cons, List.flatMap_nil,
        List.append_nil]
      exact h.windows
    case commits =>
      intro p hp
      rcases List.mem_append.1 hp with hp | hp
      · exact h.commits p hp
      · rw [List.mem_singleton.1 hp, ← h.config_eq]
        exact hcommits
    case sent =>
      simp only [requested, List.map_append, List.map_cons, List.map_nil]
      rw [← h.sent, sentTo, sentTo, ledger, Tracked.performAll_cons, Tracked.performAll_nil]
      refine (congrArg (List.filter _) harrived).trans ?_
      simp
  · rw [htick]
    have hsame : (s.tracked.performAll (s.scheduler.calls channel id)).ledger.arrived =
        s.ledger.arrived := by
      rcases hfailed with hcalls | ⟨ch, request, e, -, hcalls, herror⟩
      · rw [hcalls]
        rfl
      · rw [hcalls]
        rcases s.tracked.publish_cases ch (s.scheduler.outbound request) with ⟨hok, -⟩ | ⟨-, -, h'⟩
        · exact absurd (hok.symm.trans herror) (by simp)
        · exact h'
    exact { h with windows := by simpa [requested] using h.windows
                   commits := by simpa [requested] using h.commits
                   sent := by simpa [requested, sentTo, ledger, hsame] using h.sent }

/-- Whatever happens keeps the invariant. -/
theorem act (h : Orderly config queue s) {e : Event} (he : Permits queue s e) :
    Orderly config queue (s.act e) := by
  cases e with
  | call c => exact h.others (.perform he)
  | record block => exact h.record block
  | tick channel id => exact h.tick channel id

end Orderly

/-- Every run keeps the invariant. -/
theorem Reachable.orderly {config : Config.Anchoring} {queue : String} {s : Anchorage}
    (h : Reachable config queue s) : Orderly config queue s := by
  induction h with
  | start => exact .start config queue
  | next _ he ih => exact ih.act he

end Anchorage

/-! ### What a tick answers -/

namespace Scheduler

variable (b : Broker) (s : Scheduler) (channel : Option Channel) (id : Uuid)

/-- A tick has nothing to tell if there is nothing to anchor. -/
theorem outcome_eq_none_iff : (s.tick b channel id).2.2 = none ↔ s.window.items = [] := by
  rcases s.tick_cases b channel id with ⟨hempty, -, h⟩ | ⟨ch, request, -, hcommits, -, -, h⟩ |
    ⟨hne, -, h⟩
  · simp [h, hempty]
  · simp [h, hcommits.blocks_ne]
  · simp [h, hne]

/-- A tick publishes if its call is taken. -/
theorem exists_published_iff :
    (∃ request, (s.tick b channel id).2.2 = some (.published request)) ↔
      ∃ ch m, s.calls channel id = [.publish ch m] ∧ (b.publish ch m).2 = .ok () := by
  rcases s.tick_cases b channel id with ⟨-, hcalls, h⟩ | ⟨ch, request, -, -, hcalls, hok, h⟩ |
    ⟨-, hfailed, h⟩
  · simp [h, hcalls]
  · exact ⟨fun _ => ⟨ch, _, hcalls, hok⟩, fun _ => ⟨request, by rw [h]⟩⟩
  · constructor
    · rintro ⟨request, hrequest⟩
      rw [h] at hrequest
      cases hrequest
    · rintro ⟨ch, m, hcalls, hok⟩
      rcases hfailed with hnone | ⟨ch', request, e, -, hcalls', herror⟩
      · rw [hcalls] at hnone
        cases hnone
      · rw [hcalls] at hcalls'
        cases hcalls'
        rw [hok] at herror
        cases herror

/-- A tick that defers tells the size of the window, and leaves it as it was. -/
theorem eq_of_deferred {k : Nat} (h : (s.tick b channel id).2.2 = some (.deferred k)) :
    (s.tick b channel id).2.1 = s ∧ k = s.window.items.length := by
  rcases s.tick_cases b channel id with ⟨-, -, htick⟩ | ⟨ch, request, -, -, -, -, htick⟩ |
    ⟨-, -, htick⟩
  · rw [htick] at h
    cases h
  · rw [htick] at h
    cases h
  · rw [htick] at h ⊢
    cases h
    exact ⟨rfl, rfl⟩

end Scheduler

/-! ### Every block is anchored once -/

/-- **Every block is anchored once, in order.**  At every moment of every run of the scheduler,
whatever becomes of its connections:

* the windows of the requests that were published, one after the other, and then the present window
  are the blocks that were recorded, in their order;
* a request carries the root of the tree over the roots of its window, and the number of its blocks,
  of which there is one at least;
* these requests were put where requests go, one message each, and nothing else was;
* a tick with an empty window does nothing; else it publishes if its call is taken, and if not it
  defers: then the window stays as it was, and its size is told. -/
theorem blocks_anchored_in_order (config : Config.Anchoring) (queue : String) {s : Anchorage}
    (h : Anchorage.Reachable config queue s) :
    s.requests.flatMap Prod.snd ++ s.scheduler.window.items = s.recorded ∧
    (∀ p ∈ s.requests, p.2 ≠ [] ∧ p.1.blockCount = p.2.length ∧
      ∃ tree, Merkle.Tree.build config.function (p.2.map Block.calRoot) = .ok tree ∧
        p.1.anchorRoot = tree.root) ∧
    s.ledger.arrived.filter (fun a => a.1 = queue) =
      s.requests.map (fun p => (queue, ⟨none, p.1.toJson.render⟩)) ∧
    ∀ channel id,
      ((s.scheduler.tick s.broker channel id).2.2 = none ↔ s.scheduler.window.items = []) ∧
      ((∃ request, (s.scheduler.tick s.broker channel id).2.2 = some (.published request)) ↔
        ∃ ch m, s.scheduler.calls channel id = [.publish ch m] ∧
          (s.broker.publish ch m).2 = .ok ()) ∧
      ∀ k, (s.scheduler.tick s.broker channel id).2.2 = some (.deferred k) →
        (s.scheduler.tick s.broker channel id).2.1 = s.scheduler ∧
        k = s.scheduler.window.items.length := by
  have ho := h.orderly
  refine ⟨ho.windows, ?_, ho.sent, ?_⟩
  · intro p hp
    have hcommits := ho.commits p hp
    exact ⟨hcommits.blocks_ne, hcommits.blockCount, hcommits.root⟩
  · intro channel id
    exact ⟨s.scheduler.outcome_eq_none_iff _ _ _, s.scheduler.exists_published_iff _ _ _,
      fun _ => s.scheduler.eq_of_deferred _ _ _⟩

/-- A block over one aggregate root, with a root of equal bytes. -/
def plainBlock (b : UInt8) : Block :=
  ⟨.zero, ⟨List.replicate 32 b, rfl⟩, 1⟩

/-- Three blocks come in.  The first tick has no channel; the next one publishes a request for two
blocks, and the connection closes in the same call; so the last one has a channel that is of no more
use. -/
def anchorTwoOfThree : List Anchorage.Event :=
  [.record (plainBlock 1), .tick none .zero, .record (plainBlock 2),
    .call (.declareQueue ⟨0, 0⟩ "work.btctx"), .call (.closeAfterPublishes 1),
    .tick (some ⟨0, 0⟩) .zero, .record (plainBlock 3), .tick (some ⟨0, 0⟩) .zero]

/-- Two blocks are anchored by one request, and the third one waits. -/
theorem two_of_three_blocks_anchored :
    let s := anchorTwoOfThree.foldl Anchorage.act (.ofConfig {} "work.btctx")
    Anchorage.Reachable {} "work.btctx" s ∧
    s.requests.map Prod.snd = [[plainBlock 1, plainBlock 2]] ∧
    s.requests.flatMap Prod.snd ++ s.scheduler.window.items =
      [plainBlock 1, plainBlock 2, plainBlock 3] ∧
    s.ledger.arrived.filter (fun a => a.1 = "work.btctx") =
      s.requests.map (fun p => ("work.btctx", ⟨none, p.1.toJson.render⟩)) := by
  intro s
  have hreachable : Anchorage.Reachable {} "work.btctx" s := by
    refine Reaches.start.foldl ?_
    simp [anchorTwoOfThree, PermitsAll, Anchorage.Permits, Broker.Policy.Allows]
  obtain ⟨hwindows, -, hsent, -⟩ := blocks_anchored_in_order {} "work.btctx" hreachable
  have hrecorded : s.recorded = [plainBlock 1, plainBlock 2, plainBlock 3] := by decide +kernel
  exact ⟨hreachable, by decide +kernel, hwindows.trans hrecorded, hsent⟩

end HashCalendar
