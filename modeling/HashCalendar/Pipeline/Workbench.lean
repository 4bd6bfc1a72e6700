/-
**Both tiers, stepped by hand.**

Both tiers and the anchoring are wired to one broker, and nothing moves by itself: connections,
deliveries, ticks and jobs are all taken as single steps, in any order.  Jobs that were handed out
wait under a number until they are carried out, and deliveries can be held back.

Main definitions:

* `HashCalendar.Workbench` — the two tiers on their broker;
* `HashCalendar.Workbench.connect`, `HashCalendar.Workbench.deliver`,
  `HashCalendar.Workbench.hold` — connections and deliveries;
* `HashCalendar.Workbench.aggregatorTick`, `HashCalendar.Workbench.commit`,
  `HashCalendar.Workbench.calendarTick`, `HashCalendar.Workbench.finalize`,
  `HashCalendar.Workbench.run`, `HashCalendar.Workbench.anchorTick` — ticks and jobs.
-/

import HashCalendar.Aggregation.Aggregator
import HashCalendar.Anchor.Scheduler
import HashCalendar.Calendar.Chainer
import HashCalendar.Config.Links

set_option relaxedAutoImplicit false
set_option autoImplicit false

namespace HashCalendar

/-- The two tiers. -/
inductive Tier where
  | aggregation
  | calendar
  deriving DecidableEq, Repr

/-- The two tiers on their broker. -/
structure Workbench where
  config : Config
  broker : Broker := {}
  aggregatorLink : Link
  calendarLink : Link
  aggregatorReceiver : Option Receiver := none
  calendarReceiver : Option Receiver := none
  aggregator : Aggregator
  chainer : Chainer
  scheduler : Scheduler
  feed : Feed := {}
  /-- Blocks on their way to the scheduler. -/
  blocks : List Block := []
  /-- Whether blocks still get to the scheduler. -/
  takesBlocks : Bool := true
  /-- The jobs of the aggregation tier by number; those carried out are gone. -/
  aggregatorJobs : List (Option AggregationJob) := []
  /-- The jobs of the calendar tier by number; those carried out are gone. -/
  calendarJobs : List (Option FinalizeJob) := []
  /-- Deliveries that were held back, by number. -/
  held : List (Handle × Content) := []
  /-- The number of the next identifier in the supply. -/
  nextId : Nat := 0

/-- What a tier receives without waiting. -/
inductive Arrival where
  | delivery (handle : Handle) (d : Delivery)
  /-- Nothing has arrived yet. -/
  | empty
  /-- Nothing will arrive any more. -/
  | closed
  /-- The tier has never been connected. -/
  | noConsumer
  deriving DecidableEq, Repr

namespace Workbench

/-- Two tiers that were never connected. -/
def ofConfig (config : Config) : Workbench :=
  { config
    aggregatorLink := { settings := config.aggregatorLink }
    calendarLink := { settings := config.calendarLink }
    aggregator := { config := config.aggregation, queues := config.queues }
    chainer := { config := config.calendar, queues := config.queues }
    scheduler := { config := config.anchoring, queue := config.queues.anchorOut } }

/-! ### Connections -/

/-- The link of a tier. -/
def link (w : Workbench) : Tier → Link
  | .aggregation => w.aggregatorLink
  | .calendar => w.calendarLink

/-- The receiver of a tier, if it was ever connected. -/
def receiver (w : Workbench) : Tier → Option Receiver
  | .aggregation => w.aggregatorReceiver
  | .calendar => w.calendarReceiver

/-- Replaces the link of a tier. -/
def setLink (w : Workbench) (tier : Tier) (link : Link) : Workbench :=
  match tier with
  | .aggregation => { w with aggregatorLink := link }
  | .calendar => { w with calendarLink := link }

/-- Replaces the receiver of a tier; nobody listens to the old one any more. -/
def setReceiver (w : Workbench) (tier : Tier) (receiver : Option Receiver) : Workbench :=
  let broker := match w.receiver tier with
    | none => w.broker
    | some old => w.broker.dropStream old.stream
  match tier with
  | .aggregation => { w with broker, aggregatorReceiver := receiver }
  | .calendar => { w with broker, calendarReceiver := receiver }

/-- Connects a tier.  If that is given up, the tier keeps its receiver. -/
def connect (w : Workbench) (tier : Tier) (incidents : List Incident) (limit : Nat) :
    Workbench × Link.Connecting :=
  let (broker, link, ending) := Link.connect w.broker (w.link tier) incidents limit
  let w := { w with broker }.setLink tier link
  match ending.receiver with
  | none => (w, ending)
  | some r => (w.setReceiver tier (some r), ending)

/-- Gives up the channel of a tier. -/
def closeLink (w : Workbench) (tier : Tier) : Workbench := w.setLink tier (w.link tier).close

/-- Lets a tier forget its pending work. -/
def detach (w : Workbench) : Tier → Workbench
  | .aggregation => { w with aggregator := w.aggregator.detach }
  | .calendar => { w with chainer := w.chainer.detach }

/-- Changes the broker from outside. -/
def control (w : Workbench) (change : Broker → Broker) : Workbench :=
  { w with broker := change w.broker }

/-! ### Deliveries -/

/-- Takes the next delivery to a tier, without waiting. -/
def arrive (w : Workbench) (tier : Tier) : Workbench × Arrival :=
  match w.receiver tier with
  | none => (w, .noConsumer)
  | some r =>
    match w.broker.receive r.stream with
    | (broker, .delivery d) => ({ w with broker }, .delivery (r.handle d) d)
    | (broker, .empty) => ({ w with broker }, .empty)
    | (broker, .closed) => ({ w with broker }, .closed)

/-- Lets a tier take in a delivery. -/
def ingest (w : Workbench) (tier : Tier) (handle : Handle) (content : Content) : Workbench :=
  match tier with
  | .aggregation =>
    let (broker, aggregator) := w.aggregator.ingest w.broker handle content
    { w with broker, aggregator }
  | .calendar =>
    let (broker, chainer) := w.chainer.ingest w.broker handle content
    { w with broker, chainer }

/-- Lets a tier take in up to a number of deliveries; what arrived, to the first that was none. -/
def deliver (tier : Tier) : (count : Nat) → Workbench → Workbench × List Arrival
  | 0, w => (w, [])
  | count + 1, w =>
    match w.arrive tier with
    | (w, .delivery handle d) =>
      let (w, rest) := deliver tier count (w.ingest tier handle d.message.content)
      (w, .delivery handle d :: rest)
    | (w, other) => (w, [other])

/-- Takes one delivery and holds it back. -/
def hold (w : Workbench) (tier : Tier) : Workbench × Arrival :=
  match w.arrive tier with
  | (w, .delivery handle d) =>
    ({ w with held := w.held ++ [(handle, d.message.content)] }, .delivery handle d)
  | r => r

/-- Acknowledges a delivery that was held back, if there is one of this number. -/
def ackHeld (w : Workbench) (number : Nat) : Workbench × Option (Except Broker.Error Unit) :=
  match w.held[number]? with
  | none => (w, none)
  | some (handle, _) =>
    let (broker, result) := w.broker.ack handle
    ({ w with broker }, some result)

/-- Refuses a delivery that was held back. -/
def nackHeld (w : Workbench) (number : Nat) (back : Bool) :
    Workbench × Option (Except Broker.Error Unit) :=
  match w.held[number]? with
  | none => (w, none)
  | some (handle, _) =>
    let (broker, result) := w.broker.nack handle back
    ({ w with broker }, some result)

/-- Lets a tier take in a delivery that was held back. -/
def ingestHeld (w : Workbench) (tier : Tier) (number : Nat) : Option Workbench :=
  w.held[number]?.map fun h => w.ingest tier h.1 h.2

/-! ### The aggregation tier -/

/-- A tick of the aggregation tier; the number of its job and the job itself. -/
def aggregatorTick (w : Workbench) : Workbench × Option (Nat × AggregationJob) :=
  match w.aggregator.tick w.aggregatorLink.channel w.feed (.fresh w.nextId) with
  | (aggregator, none) => ({ w with aggregator }, none)
  | (aggregator, some job) =>
    ({ w with
        aggregator
        aggregatorJobs := w.aggregatorJobs ++ [some job]
        nextId := w.nextId + 1 },
      some (w.aggregatorJobs.length, job))

/-- Carries out the job of a number, if it is there. -/
def commit (w : Workbench) (number : Nat) : Workbench × Option Outcome :=
  match w.aggregatorJobs[number]?.join with
  | none => (w, none)
  | some job =>
    let (broker, outcome) := job.commit w.broker
    ({ w with broker, aggregatorJobs := w.aggregatorJobs.set number none }, some outcome)

/-! ### The calendar tier -/

/-- A calendar tick; the identifier of the tree that was built. -/
def calendarTick (w : Workbench) : Workbench × Option Uuid :=
  let (broker, chainer, built) := w.chainer.tick w.broker (.fresh w.nextId)
  ({ w with broker, chainer, nextId := w.nextId + 1 }, built)

/-- A finalize tick; the jobs with their numbers. -/
def finalize (w : Workbench) : Workbench × List (Nat × FinalizeJob) :=
  let (chainer, jobs) := w.chainer.finalize w.calendarLink.channel
  ({ w with chainer, calendarJobs := w.calendarJobs ++ jobs.map some },
    jobs.mapIdx fun k job => (w.calendarJobs.length + k, job))

/-- Carries out the job of a number, if it is there. -/
def run (w : Workbench) (number : Nat) : Workbench × Option TreeOutcome :=
  match w.calendarJobs[number]?.join with
  | none => (w, none)
  | some job =>
    let (broker, outcome, block) := job.run w.broker
    ({ w with
        broker
        calendarJobs := w.calendarJobs.set number none
        blocks := if w.takesBlocks then w.blocks ++ block.toList else w.blocks },
      some outcome)

/-! ### Anchoring -/

/-- Hands all blocks that are on their way to the scheduler. -/
def recordBlocks (w : Workbench) : Workbench × List Block :=
  ({ w with blocks := [], scheduler := w.blocks.foldl Scheduler.record w.scheduler }, w.blocks)

/-- Hands a block to the scheduler. -/
def recordBlock (w : Workbench) (block : Block) : Workbench :=
  { w with scheduler := w.scheduler.record block }

/-- Lets no block get to the scheduler any more. -/
def dropBlocks (w : Workbench) : Workbench := { w with blocks := [], takesBlocks := false }

/-- A tick of the scheduler. -/
def anchorTick (w : Workbench) : Workbench × Option AnchorOutcome :=
  let (broker, scheduler, outcome) :=
    w.scheduler.tick w.broker w.calendarLink.channel (.fresh w.nextId)
  ({ w with broker, scheduler, nextId := w.nextId + 1 }, outcome)

end Workbench

end HashCalendar
