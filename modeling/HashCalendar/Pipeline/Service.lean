/-
**The running pipeline.**

Each tier runs as a service with a connection of its own.  While it is connected it takes in
deliveries as they arrive and works at the ticks of its tickers, which start anew with every
connection; the jobs of a tick are carried out at once.  When its stream of deliveries ends, the
service gives up its channel, forgets its pending work, waits for the reconnect delay and connects
again.  The window of blocks to be anchored and the ticker for it outlive connections.  A third task
reads the beacon, where there is one to be read.

Time is counted in milliseconds from the start and moves from one due event to the next; work takes
no time.

Main definitions:

* `HashCalendar.Service` — the running pipeline at a moment;
* `HashCalendar.Service.start` — the start of a pipeline;
* `HashCalendar.Service.round` — all that is due at the present moment;
* `HashCalendar.Service.advance` — the passage of time.
-/

import HashCalendar.Pipeline.Workbench
import HashCalendar.Time.Ticker

set_option relaxedAutoImplicit false
set_option autoImplicit false

namespace HashCalendar

/-- Whether a service is connected. -/
inductive Phase where
  /-- The next attempt to connect is made at the given time. -/
  | waiting (resume : Nat)
  | connected
  deriving DecidableEq, Repr

/-- The running pipeline. -/
structure Service where
  bench : Workbench
  now : Nat := 0
  /-- The directory that beacon values are read from. -/
  directory : Directory := {}
  /-- The ticker for reading the beacon, where that is done. -/
  refresher : Option Ticker := none
  aggregatorPhase : Phase := .waiting 0
  calendarPhase : Phase := .waiting 0
  aggregatorTicker : Ticker
  calendarTicker : Ticker
  finalizeTicker : Ticker
  anchorTicker : Ticker

namespace Service

/-- Whether a configuration has the beacon read. -/
def readsBeacon (c : Config) : Bool := c.beacon.sourceDir.isSome && c.aggregation.bindBeacon

/-- A pipeline at its start. -/
def ofConfig (c : Config) (directory : Directory) : Service :=
  { bench := .ofConfig c
    directory
    refresher :=
      if readsBeacon c then some ⟨boundedWait c.beacon.refreshInterval.toNat, 0⟩ else none
    aggregatorTicker := ⟨c.aggregation.interval.toNat, 0⟩
    calendarTicker := ⟨c.calendar.interval.toNat, 0⟩
    finalizeTicker := ⟨c.calendar.finalizeInterval.toNat, 0⟩
    anchorTicker := ⟨c.anchoring.period, c.anchoring.period⟩ }

/-- Starts a pipeline, unless its configuration is not accepted. -/
def start (c : Config) (directory : Directory) : Except PipelineError Service :=
  match c.validate with
  | .error e => .error (.config e)
  | .ok () => .ok (ofConfig c directory)

/-- The number of tasks: one for each tier, and one that reads the beacon. -/
def taskCount (s : Service) : Nat := if s.refresher.isSome then 3 else 2

/-! ### The beacon -/

/-- Reads the beacon; where there is no value to be had, the last one stays. -/
def refresh (s : Service) : Service :=
  match s.refresher with
  | none => s
  | some ticker =>
    if s.now < ticker.due then s
    else
      let feed := match s.directory.latest s.bench.config.beacon.key with
        | .ok (some v) => (s.bench.feed.publish v).1
        | _ => s.bench.feed
      { s with bench := { s.bench with feed }, refresher := some (ticker.next s.now) }

/-! ### Connections -/

/-- The phase of a tier. -/
def phase (s : Service) : Tier → Phase
  | .aggregation => s.aggregatorPhase
  | .calendar => s.calendarPhase

/-- Sets the phase of a tier. -/
def setPhase (s : Service) (tier : Tier) (phase : Phase) : Service :=
  match tier with
  | .aggregation => { s with aggregatorPhase := phase }
  | .calendar => { s with calendarPhase := phase }

/-- Lets a tier wait for the reconnect delay. -/
def wait (s : Service) (tier : Tier) : Service :=
  s.setPhase tier (.waiting (s.now + (s.bench.link tier).settings.wait))

/-- Starts the tickers of a tier that has just been connected. -/
def startTickers (s : Service) : Tier → Service
  | .aggregation => { s with aggregatorTicker := { s.aggregatorTicker with due := s.now } }
  | .calendar =>
    { s with
      calendarTicker := { s.calendarTicker with due := s.now }
      finalizeTicker := { s.finalizeTicker with due := s.now } }

/-- Makes an attempt to connect a tier, if it is time for one. -/
def reconnect (s : Service) (tier : Tier) : Service :=
  match s.phase tier with
  | .connected => s
  | .waiting resume =>
    if s.now < resume then s
    else
      let (bench, ending) := s.bench.connect tier [] 0
      let s := { s with bench }
      match ending.receiver with
      | none => s.wait tier
      | some _ => (s.setPhase tier .connected).startTickers tier

/-- Sees to the loss of a connection. -/
def lose (s : Service) (tier : Tier) : Service :=
  { s with bench := ((s.bench.closeLink tier).setReceiver tier none).detach tier }.wait tier

/-! ### Deliveries -/

/-- How many deliveries can arrive in a stream before anything new comes to the broker: those that
wait in it, and one for each message that is ready. -/
def arrivalBound (b : Broker) (stream : Nat) : Nat :=
  (b.streams[stream]?.map fun s => s.buffer.length).getD 0 +
    (b.queues.flatMap fun q => q.2.ready).length

/-- Lets a connected tier take in all that has arrived, and notice the end of its stream. -/
def drain (s : Service) (tier : Tier) : Service :=
  match s.phase tier with
  | .waiting _ => s
  | .connected =>
    let count := match s.bench.receiver tier with
      | none => 0
      | some r => arrivalBound s.bench.broker r.stream
    let (bench, arrivals) := Workbench.deliver tier (count + 1) s.bench
    let s := { s with bench }
    if arrivals.getLast? = some .closed then s.lose tier else s

/-- Hands blocks to the scheduler while the calendar tier is connected. -/
def collectBlocks (s : Service) : Service :=
  match s.calendarPhase with
  | .waiting _ => s
  | .connected => { s with bench := s.bench.recordBlocks.1 }

/-- Lets both tiers take in what has arrived. -/
def react (s : Service) : Service :=
  ((s.drain .aggregation).drain .calendar).collectBlocks

/-! ### Ticks -/

/-- Works at a tick of the aggregation tier, if one is due. -/
def aggregatorTick (s : Service) : Service :=
  if s.aggregatorPhase = .connected ∧ s.aggregatorTicker.due ≤ s.now then
    let (bench, job) := s.bench.aggregatorTick
    let bench := match job with
      | none => bench
      | some (number, _) => (bench.commit number).1
    { s with bench, aggregatorTicker := s.aggregatorTicker.next s.now }
  else s

/-- Works at a calendar tick, if one is due. -/
def calendarTick (s : Service) : Service :=
  if s.calendarPhase = .connected ∧ s.calendarTicker.due ≤ s.now then
    { s with
      bench := s.bench.calendarTick.1
      calendarTicker := s.calendarTicker.next s.now }
  else s

/-- Works at a finalize tick, if one is due. -/
def finalizeTick (s : Service) : Service :=
  if s.calendarPhase = .connected ∧ s.finalizeTicker.due ≤ s.now then
    let (bench, jobs) := s.bench.finalize
    { s with
      bench := jobs.foldl (fun bench job => (bench.run job.1).1) bench
      finalizeTicker := s.finalizeTicker.next s.now }
  else s

/-- Works at an anchor tick, if one is due. -/
def anchorTick (s : Service) : Service :=
  if s.calendarPhase = .connected ∧ s.anchorTicker.due ≤ s.now then
    { s with bench := s.bench.anchorTick.1, anchorTicker := s.anchorTicker.next s.now }
  else s

/-! ### Time -/

/-- All that is due at the present moment. -/
def round (s : Service) : Service :=
  let s := ((s.refresh.reconnect .aggregation).reconnect .calendar).react
  let s := s.calendarTick.finalizeTick.collectBlocks.anchorTick
  s.aggregatorTick.react

/-- The times at which something is due. -/
def dueTimes (s : Service) : List Nat :=
  let aggregator := match s.aggregatorPhase with
    | .waiting resume => [resume]
    | .connected => [s.aggregatorTicker.due]
  let calendar := match s.calendarPhase with
    | .waiting resume => [resume]
    | .connected => [s.calendarTicker.due, s.finalizeTicker.due, s.anchorTicker.due]
  (s.refresher.map Ticker.due).toList ++ aggregator ++ calendar

/-- Rounds at due times up to a limit, at most `count` of them. -/
def rounds (limit : Nat) : (count : Nat) → Service → Service
  | 0, s => { s with now := limit }
  | count + 1, s =>
    match s.dueTimes.min? with
    | none => { s with now := limit }
    | some due =>
      if limit < due then { s with now := limit }
      else rounds limit count { s with now := max s.now due }.round

/-- The passage of time up to a given moment.  What has arrived at the present moment is seen to
first; where no time passes, nothing happens. -/
def advance (s : Service) (time : Nat) : Service :=
  if time ≤ s.now then s else rounds time (time - s.now + 1) s.react

end Service

end HashCalendar
