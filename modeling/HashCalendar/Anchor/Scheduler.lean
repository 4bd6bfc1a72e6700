/-
**Anchoring calendar blocks.**

The blocks of the calendar collect in a window.  On each anchor tick one more tree is built over the
whole window, and a request to anchor its root is published.  If the request is not taken, the
window stays as it was.

Main definitions:

* `HashCalendar.Scheduler` — the window, with the settings of the anchoring;
* `HashCalendar.Scheduler.record`, `HashCalendar.Scheduler.tick` — a new block, and a tick.
-/

import HashCalendar.Batch.Buffer
import HashCalendar.Calendar.Tree
import HashCalendar.Pipeline.Error

set_option relaxedAutoImplicit false
set_option autoImplicit false

namespace HashCalendar

/-- What became of the window at a tick. -/
inductive AnchorOutcome where
  | published (request : AnchorRequest)
  /-- The window, of this many blocks, stays for the next tick. -/
  | deferred (count : Nat)
  deriving DecidableEq, Repr

/-- The anchoring of calendar blocks. -/
structure Scheduler where
  config : Config.Anchoring
  /-- The queue for requests. -/
  queue : String
  window : Buffer Block := {}

namespace Scheduler

/-- Adds a block to the window. -/
def record (s : Scheduler) (block : Block) : Scheduler := { s with window := s.window.push block }

/-- The request for a window. -/
def request (s : Scheduler) (id : Uuid) (blocks : List Block) : Except Merkle.Error AnchorRequest :=
  (Merkle.Tree.build s.config.function (blocks.map Block.calRoot)).map fun tree =>
    ⟨id, tree.root, blocks.length⟩

/-- Publishes the request for a window. -/
def publishWindow (b : Broker) (s : Scheduler) (channel : Option Channel) (id : Uuid)
    (blocks : List Block) : Broker × Except PipelineError AnchorRequest :=
  match channel with
  | none => (b, .error (.broker .channelClosed))
  | some ch =>
    match s.request id blocks with
    | .error e => (b, .error (.tree e))
    | .ok request =>
      match b.publish ch ⟨s.queue, none, request.toJson.render⟩ with
      | (b, .ok ()) => (b, .ok request)
      | (b, .error e) => (b, .error (.broker e))

/-- A tick: asks for the window to be anchored. -/
def tick (b : Broker) (s : Scheduler) (channel : Option Channel) (id : Uuid) :
    Broker × Scheduler × Option AnchorOutcome :=
  if s.window.isEmpty then (b, s, none)
  else
    let (blocks, window) := s.window.spliceAll
    match s.publishWindow b channel id blocks with
    | (b, .ok request) => (b, { s with window }, some (.published request))
    | (b, .error _) =>
      (b, { s with window := window.restore blocks }, some (.deferred blocks.length))

end Scheduler

end HashCalendar
